import SchemaScript.Proofs.Schema.Making
import SchemaScript.Proofs.Schema.Registered
import SchemaScript.Schema.Resolution

/-!
# Resolved schemas

What is known of a schema that was resolved without an error.

`Schema.Resolves` says how a schema comes from files: each file is declared at its position, each
stage is the registry of the files up to one of them, and every field and every dependency was
found at the stage of its file.  `Schema.resolve_ok` reads it off a resolution that succeeds.

What a field refers to is a declaration of the files, of the sort that its type asks for
(`Resolves.target_found`).  Its full name finds a declaration, and where the full names are distinct
it finds that very one (`Resolves.declared?_isSome`, `Resolves.declared?_fullName`).
-/

namespace SchemaScript.Schema

open Outcome

/-! ## Names -/

/-- What a field refers to fits its type: nothing for a scalar, an enum or a message otherwise. -/
def Fits : FieldType → Option Declared → Prop
  | .scalar _, t => t = none
  | .enumeration, t => ∃ e, t = some (.enum e)
  | .message, t => ∃ m, t = some (.message m)
  | .group, t => ∃ m, t = some (.message m)

/-- What a reference in a scope means to a field of a type. -/
def meant? (r : Registry) (type : FieldType) (scope reference : String) : Option Declared :=
  match type with
  | .scalar _ => none
  | .enumeration => (r.scopedEnum? scope reference).map .enum
  | .message | .group => (r.scopedMessage? scope reference).map .message

theorem meant?_registered {r : Registry} {type : FieldType} {scope reference : String}
    {x : Declared} (h : meant? r type scope reference = some x) :
    Fits type (some x) ∧
      ∃ name ∈ Registry.scopedCandidates scope reference, RegisteredAs r name x := by
  cases type with
  | scalar _ => cases h
  | enumeration =>
    obtain ⟨e, he, rfl⟩ := Option.map_eq_some_iff.mp h
    exact ⟨⟨e, rfl⟩, List.exists_of_findSome?_eq_some he⟩
  | _ =>
    obtain ⟨m, hm, rfl⟩ := Option.map_eq_some_iff.mp h
    exact ⟨⟨m, rfl⟩, List.exists_of_findSome?_eq_some hm⟩

/-- A field finds what it refers to if its type is a scalar one, which refers to nothing, or if its
reference is a text that means something. -/
theorem targetIn_eq_ok_iff {r : Registry} {f : Field} {t : Option Declared} :
    targetIn r f = .ok t ↔ (∃ c, f.type = .scalar c) ∧ t = none ∨
      f.hasTextReference = true ∧ ∃ reference, f.descriptor.typeName = some reference ∧
        ∃ x, meant? r f.type f.parent reference = some x ∧ t = some x := by
  unfold targetIn
  cases f.type with
  | scalar c => cases t <;> simp [meant?]
  | enumeration =>
    cases f.descriptor.typeName with
    | none => simp
    | some reference =>
      cases f.hasTextReference with
      | false => simp
      | true => cases he : r.scopedEnum? f.parent reference <;> simp [meant?, he, eq_comm]
  | _ =>
    cases f.descriptor.typeName with
    | none => simp
    | some reference =>
      cases f.hasTextReference with
      | false => simp
      | true => cases hm : r.scopedMessage? f.parent reference <;> simp [meant?, hm, eq_comm]

/-- What a field is found to refer to fits its type.  It is registered under one of the names that
the reference can mean. -/
theorem targetIn_ok {r : Registry} {f : Field} {t : Option Declared} (h : targetIn r f = .ok t) :
    Fits f.type t ∧ ∀ x, t = some x → ∃ reference, f.descriptor.typeName = some reference ∧
      ∃ name ∈ Registry.scopedCandidates f.parent reference, RegisteredAs r name x := by
  rcases targetIn_eq_ok_iff.mp h with ⟨⟨c, hc⟩, rfl⟩ | ⟨_, reference, hreference, x, hx, rfl⟩
  · rw [hc]
    exact ⟨rfl, nofun⟩
  · obtain ⟨hfits, hregistered⟩ := meant?_registered hx
    refine ⟨hfits, fun y hy => ?_⟩
    cases hy
    exact ⟨reference, hreference, hregistered⟩

theorem checkFields_eq_ok_iff {r : Registry} {fs : List Field} :
    checkFields r fs = .ok () ↔ ∀ f ∈ fs, ∃ t, targetIn r f = .ok t := by
  induction fs with
  | nil => simp [checkFields]
  | cons f rest ih => simp [checkFields, bind_eq_ok_iff, ih]

/-- The messages among declarations have only fields that find what they refer to. -/
def AllFound (r : Registry) (ds : List Declared) : Prop :=
  ∀ m, .message m ∈ ds → ∀ f ∈ m.fields, ∃ t, targetIn r f = .ok t

theorem checkMessages_eq_ok_iff {r : Registry} {ms : List Message} :
    checkMessages r ms = .ok () ↔ ∀ m ∈ ms, checkMessage r m = .ok () := by
  induction ms with
  | nil => simp [checkMessages]
  | cons m rest ih => simp [checkMessages, check_eq_ok_iff, ih]

theorem checkMessage_eq_ok_iff {r : Registry} {m : Message} :
    checkMessage r m = .ok () ↔ AllFound r m.declared := by
  induction m using Message.induct with
  | step m ih =>
    have hdef : checkMessage r m = .ok () ↔
        checkMessages r m.messages = .ok () ∧ checkFields r m.fields = .ok () := by
      cases m
      rw [checkMessage, check_eq_ok_iff]
    rw [hdef, checkMessages_eq_ok_iff, checkFields_eq_ok_iff, Message.declared_eq]
    simp only [AllFound, List.mem_cons, List.mem_append, List.mem_flatMap, List.mem_map]
    constructor
    · rintro ⟨hmessages, hfields⟩ n (hn | ⟨c, hc, hn⟩ | ⟨e, _, hn⟩)
      · cases hn
        exact hfields
      · exact (ih c hc).mp (hmessages c hc) n hn
      · cases hn
    · intro h
      exact ⟨fun c hc => (ih c hc).mpr fun n hn => h n (.inr (.inl ⟨c, hc, hn⟩)), h m (.inl rfl)⟩

/-! ## Resolution -/

/-- A schema comes from files, of which declarations are made. -/
structure Resolves (rule : PathRule) (toGenerate : List String) (ds : List FileDescriptor)
    (fs : List File) (s : Schema) : Prop where
  declared : eachFrom (File.declare rule toGenerate) 0 ds = .ok fs
  count : s.stages.length = fs.length
  stage : ∀ k < fs.length, s.stages[k]? = some (Registry.ofFiles (fs.take (k + 1)))
  registry : s.registry = Registry.ofFiles fs
  generated : s.toGenerate = fs.filter fun f => f.header.generate
  found : ∀ k f, fs[k]? = some f → AllFound (Registry.ofFiles (fs.take (k + 1))) f.declared
  depends : ∀ k f, fs[k]? = some f →
    checkDependencies (Registry.ofFiles (fs.take (k + 1))) f.header.name f.dependencies = .ok ()

section

variable {rule : PathRule} {toGenerate : List String} {ds : List FileDescriptor} {fs : List File}
  {s s' : Schema}

theorem resolves_nil : Resolves rule toGenerate [] [] empty :=
  ⟨rfl, rfl, nofun, rfl, rfl, nofun, nofun⟩

theorem checkMessages_eq_ok_iff_allFound {r : Registry} {f : File} :
    checkMessages r f.messages = .ok () ↔ AllFound r f.declared := by
  rw [checkMessages_eq_ok_iff]
  constructor
  · intro h m hm
    rcases List.mem_append.mp hm with hm | hm
    · obtain ⟨n, hn, hm⟩ := List.mem_flatMap.mp hm
      exact checkMessage_eq_ok_iff.mp (h n hn) m hm
    · obtain ⟨e, _, he⟩ := List.mem_map.mp hm
      cases he
  · intro h n hn
    refine checkMessage_eq_ok_iff.mpr fun m hm => h m ?_
    exact List.mem_append_left _ (List.mem_flatMap.mpr ⟨n, hn, hm⟩)

theorem checkDependencies_eq_ok_iff {r : Registry} {fileName : String} {names : List String} :
    checkDependencies r fileName names = .ok () ↔
      ∀ name ∈ names, ∃ f, r.files.get? name = some f := by
  induction names with
  | nil => simp [checkDependencies]
  | cons name rest ih =>
    cases hname : r.files.get? name with
    | none => simp [checkDependencies, hname]
    | some f => simp [checkDependencies, hname, ih]

/-- What holds at each position of a list and at the position after it holds at each of the longer
list. -/
theorem forall_getElem?_concat {P : Nat → File → Prop} {f : File}
    (hfs : ∀ k g, fs[k]? = some g → P k g) (hf : P fs.length f) :
    ∀ k g, (fs ++ [f])[k]? = some g → P k g := by
  intro k g hg
  rcases Nat.lt_trichotomy k fs.length with hk | rfl | hk
  · rw [List.getElem?_append_left hk] at hg
    exact hfs k g hg
  · rw [List.getElem?_concat_length] at hg
    cases hg
    exact hf
  · rw [List.getElem?_eq_none (by simp; omega)] at hg
    cases hg

theorem take_concat_of_getElem? {k : Nat} {f g : File} (hg : fs[k]? = some g) :
    (fs ++ [f]).take (k + 1) = fs.take (k + 1) := by
  obtain ⟨hk, _⟩ := List.getElem?_eq_some_iff.mp hg
  exact List.take_append_of_le_length hk

theorem Resolves.addFile (h : Resolves rule toGenerate ds fs s) {d : FileDescriptor}
    (ha : Schema.addFile rule toGenerate s d = .ok s') :
    ∃ f, Resolves rule toGenerate (ds ++ [d]) (fs ++ [f]) s' := by
  simp only [Schema.addFile, bind_eq_ok_iff, pure_eq_ok_iff] at ha
  obtain ⟨f, hf, _, hdepends, _, hmessages, rfl⟩ := ha
  have hall : (fs ++ [f]).take (fs.length + 1) = fs ++ [f] := List.take_of_length_le (by simp)
  have hregistry : s.registry.addFile f = Registry.ofFiles (fs ++ [f]) := by
    rw [Registry.ofFiles_concat, h.registry]
  rw [hregistry] at hdepends hmessages ⊢
  refine ⟨f, ?_, ?_, ?_, rfl, ?_, ?_, ?_⟩
  · refine eachFrom_concat h.declared ?_
    rwa [Nat.zero_add, ← length_eachFrom h.declared, ← h.count]
  · simp [h.count]
  · intro k hk
    rw [List.length_append, List.length_singleton] at hk
    rcases Nat.lt_succ_iff_lt_or_eq.mp hk with hk | rfl
    · have hstage := h.stage k hk
      rw [List.getElem?_append_left (by rw [h.count]; exact hk), hstage,
        take_concat_of_getElem? (List.getElem?_eq_getElem hk)]
    · rw [← h.count, List.getElem?_concat_length, h.count, hall]
  · rw [List.filter_append, ← h.generated]
    cases hgen : f.header.generate with
    | true => simp [hgen]
    | false => simp [hgen]
  · refine forall_getElem?_concat (fun k g hg => ?_) ?_
    · rw [take_concat_of_getElem? hg]
      exact h.found k g hg
    · rw [hall]
      exact checkMessages_eq_ok_iff_allFound.mp hmessages
  · refine forall_getElem?_concat (fun k g hg => ?_) ?_
    · rw [take_concat_of_getElem? hg]
      exact h.depends k g hg
    · rw [hall]
      exact hdepends

/-- One file more is taken if everything in it is found. -/
theorem Resolves.exists_addFile_of_found (h : Resolves rule toGenerate ds fs s)
    {d : FileDescriptor} {f : File} (hf : File.declare rule toGenerate fs.length d = .ok f)
    (hfound : AllFound (Registry.ofFiles (fs ++ [f])) f.declared)
    (hdepends : ∀ n ∈ f.dependencies,
      ∃ g, (Registry.ofFiles (fs ++ [f])).files.get? n = some g) :
    ∃ s', Schema.addFile rule toGenerate s d = .ok s' := by
  rw [Registry.ofFiles_concat, ← h.registry] at hfound hdepends
  rw [← h.count] at hf
  simp only [Schema.addFile, bind_eq_ok_iff, pure_eq_ok_iff]
  exact ⟨_, f, hf, (), checkDependencies_eq_ok_iff.mpr hdepends, (),
    checkMessages_eq_ok_iff_allFound.mpr hfound, rfl⟩

theorem resolve_ok (h : resolve rule toGenerate ds = .ok s) :
    ∃ fs, Resolves rule toGenerate ds fs s := by
  unfold resolve at h
  induction ds using List.reverseRecOn generalizing s with
  | nil => cases h; exact ⟨[], resolves_nil⟩
  | append_singleton ds d ih =>
    obtain ⟨s', hs', hd⟩ := foldlM_concat_eq_ok_iff.mp h
    obtain ⟨fs, hfs⟩ := ih hs'
    obtain ⟨f, hf⟩ := hfs.addFile hd
    exact ⟨fs ++ [f], hf⟩

end

/-! ## What fields refer to -/

namespace Resolves

variable {rule : PathRule} {toGenerate : List String} {ds : List FileDescriptor} {fs : List File}
  {s : Schema}

theorem names (h : Resolves rule toGenerate ds fs s) :
    (fs.flatMap File.declared).map Declared.fullName = ds.flatMap FileDescriptor.declaredNames := by
  rw [List.map_flatMap]
  exact flatMap_eachFrom (fun j d _ f hf => File.declare_names hf) h.declared

theorem made (h : Resolves rule toGenerate ds fs s) {f : File} (hf : f ∈ fs) {x : Declared}
    (hx : x ∈ f.declared) : x.MadeIn f.header := by
  obtain ⟨j, d, _, hd⟩ := exists_of_mem_eachFrom h.declared hf
  exact File.declare_made hd x hx

theorem index_eq (h : Resolves rule toGenerate ds fs s) {k : Nat} {f : File}
    (hf : fs[k]? = some f) : f.header.index = k := by
  obtain ⟨d, _, hd⟩ := getElem?_eachFrom h.declared hf
  rw [(File.of_declare hd).1, Nat.zero_add]
  rfl

theorem fileNames (h : Resolves rule toGenerate ds fs s) :
    fs.map (·.header.name) = ds.map FileDescriptor.name := by
  rw [List.map_eq_flatMap, List.map_eq_flatMap]
  refine flatMap_eachFrom (fun j d _ f hf => ?_) h.declared
  rw [(File.of_declare hf).1]
  rfl

theorem toGenerate_subset (h : Resolves rule toGenerate ds fs s) : s.toGenerate ⊆ fs := by
  rw [h.generated]
  exact List.filter_subset_self _

theorem exists_descriptor (h : Resolves rule toGenerate ds fs s) {f : File} (hf : f ∈ fs) :
    ∃ d ∈ ds, d.name = f.header.name ∧ f.header.importPath = rule d.name d.package := by
  obtain ⟨j, d, hd, hfile⟩ := exists_of_mem_eachFrom h.declared hf
  rw [(File.of_declare hfile).1]
  exact ⟨d, hd, rfl, rfl⟩

theorem holds (h : Resolves rule toGenerate ds fs s)
    (hd : (ds.flatMap FileDescriptor.declaredNames).Nodup) :
    s.registry.Holds (fs.flatMap File.declared) := by
  rw [h.registry]
  exact Registry.holds_ofFiles fs (by rw [h.names]; exact hd)

/-- A field of a message of a file is found in the registry of the files up to that one. -/
theorem target?_at (h : Resolves rule toGenerate ds fs s) {k : Nat} {g : File}
    (hg : fs[k]? = some g) {m : Message} (hm : .message m ∈ g.declared) {f : Field}
    (hf : f ∈ m.fields) :
    targetIn (Registry.ofFiles (fs.take (k + 1))) f = .ok (s.target? f) := by
  obtain ⟨t, ht⟩ := h.found k g hg m hm f hf
  have hindex : f.file.index = k := by
    rw [((h.made (List.mem_of_getElem? hg) hm).field rfl hf).1, h.index_eq hg]
  rw [target?, hindex, h.stage k (List.getElem?_eq_some_iff.mp hg).1]
  simp only [ht]

/-- What a field of a declared message refers to fits the type of the field.  It is declared, under
one of the names that the reference can mean. -/
theorem target_found (h : Resolves rule toGenerate ds fs s) {m : Message}
    (hm : .message m ∈ fs.flatMap File.declared) {f : Field} (hf : f ∈ m.fields) :
    Fits f.type (s.target? f) ∧ ∀ x, s.target? f = some x → x ∈ fs.flatMap File.declared ∧
      ∃ reference, f.descriptor.typeName = some reference ∧
        x.fullName ∈ Registry.scopedCandidates f.parent reference := by
  obtain ⟨g, hg, hmg⟩ := List.mem_flatMap.mp hm
  obtain ⟨k, hk⟩ := List.getElem?_of_mem hg
  obtain ⟨hfits, hregistered⟩ := targetIn_ok (h.target?_at hk hmg hf)
  refine ⟨hfits, fun x hx => ?_⟩
  obtain ⟨reference, hreference, name, hname, hx⟩ := hregistered x hx
  obtain ⟨hmem, rfl⟩ := (Registry.covers_ofFiles (fs.take (k + 1))).only name x hx
  obtain ⟨g, hg, hx⟩ := List.mem_flatMap.mp hmem
  exact ⟨List.mem_flatMap.mpr ⟨g, List.mem_of_mem_take hg, hx⟩, reference, hreference, hname⟩

theorem target_mem (h : Resolves rule toGenerate ds fs s) {m : Message}
    (hm : .message m ∈ fs.flatMap File.declared) {f : Field} (hf : f ∈ m.fields) {x : Declared}
    (hx : s.target? f = some x) : x ∈ fs.flatMap File.declared :=
  ((h.target_found hm hf).2 x hx).1

end Resolves

/-! ## A small schema -/

/-- A field of a small schema. -/
def sampleField (name : String) (number : Int32) (label type : Int) (typeName : Option String) :
    FieldDescriptor where
  name := name
  number := number
  label := label
  type := some type
  typeName := typeName
  extendee := none
  jsonName := none
  hasTextJsonName := true
  defaultValue := none
  oneofIndex := none
  proto3Optional := false
  options := none

/-- A message of a small schema. -/
def sampleMessage (name : String) (isMapEntry : Bool) (fields : List FieldDescriptor)
    (messages : List MessageDescriptor) : MessageDescriptor where
  name := name
  fields := fields
  oneofs := []
  messages := messages
  enums := []
  extensions := []
  isMapEntry := isMapEntry
  isMessageSet := false
  features := .none

/-- A file of a small schema. -/
def sampleFile (name package : String) (dependencies : List String)
    (messages : List MessageDescriptor) (enums : List EnumDescriptor) : FileDescriptor where
  name := name
  package := package
  dialect := "proto3"
  dependencies := dependencies
  messages := messages
  enums := enums
  extensions := []
  comments := []
  features := .none
  isComplete := true
  depth := 4
  unreadable := []

/-- A file with an enum and a message without fields. -/
def sampleBase : FileDescriptor :=
  sampleFile "base.proto" "p" [] [sampleMessage "Base" false [] []]
    [⟨"Color", [⟨"COLOR_RED", 0⟩, ⟨"COLOR_BLUE", 1⟩], .none⟩]

/-- A file with a message that refers to the other file, to itself, and to itself in a map. -/
def sampleMain : FileDescriptor :=
  sampleFile "dir/main.proto" "p" ["base.proto"]
    [sampleMessage "Tree" false
      [sampleField "color" 1 1 14 (some ".p.Color"), sampleField "base" 2 1 11 (some ".p.Base"),
        sampleField "inner_trees" 3 3 11 (some ".p.Tree.InnerTreesEntry"),
        sampleField "sizes" 4 3 4 none]
      [sampleMessage "InnerTreesEntry" true
        [sampleField "key" 1 1 9 none, sampleField "value" 2 1 11 (some ".p.Tree")] []]] []

/-- A small schema. -/
def sampleSchema : Schema :=
  match resolve defaultPathRule ["dir/main.proto"] [sampleBase, sampleMain] with
  | .ok s => s
  | .error _ => empty

theorem resolve_sample :
    resolve defaultPathRule ["dir/main.proto"] [sampleBase, sampleMain] = .ok sampleSchema := by
  have hok : (resolve defaultPathRule ["dir/main.proto"] [sampleBase, sampleMain]).isOk = true := by
    decide +kernel
  unfold sampleSchema
  cases h : resolve defaultPathRule ["dir/main.proto"] [sampleBase, sampleMain] with
  | error cause => rw [h] at hok; cases hok
  | ok s => rfl

end SchemaScript.Schema
