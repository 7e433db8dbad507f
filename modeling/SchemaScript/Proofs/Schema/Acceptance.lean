import SchemaScript.Proofs.Schema.Declarable

/-!
# Which schemas are accepted

A condition on the descriptors alone that says whether a schema can be resolved, and what the schema
shows of the descriptors once it is.

The numbers in the fields of a file must be in range.  A file may only name files up to itself, and
each field that refers to an enum or a message must have a reference that can mean one which those
files declare (`FileDescriptor.Resolvable`).  Nothing is asked of the order in one file, so a field
can refer to what is declared after it, and the entries of maps are messages like all others.

What a file registers is found by its full name and its sort, so the references of a file are found
in a registry exactly if the names are among those of the files registered
(`Schema.resolvable_of_found`, `Schema.found_of_resolvable`).  `Schema.addFile` takes one file more
exactly if that file is resolvable after the others, and so a schema is resolved exactly if each of
its files is (`Schema.resolve_iff_resolvable`).  The resolved schema mirrors the descriptors at every
depth (`File.Mirrors`).
-/

namespace SchemaScript

open Outcome

/-! ## Conditions on descriptors -/

/-- The reference of a field in a message of a full name can mean one of the names. -/
def FieldDescriptor.Finds (d : FieldDescriptor) (scope : String) (names : List String) : Prop :=
  ∃ reference ∈ d.typeName, ∃ n ∈ Registry.scopedCandidates scope reference, n ∈ names

namespace FileDescriptor

/-- A file can be resolved after the known files, itself among them. -/
structure Resolvable (known : List FileDescriptor) (d : FileDescriptor) : Prop where
  inRange : ∀ p ∈ d.namedMessages, ∀ f ∈ p.2.fields, f.InRange p.2.oneofs.length
  depends : ∀ name ∈ d.dependencies, name ∈ known.map FileDescriptor.name
  enums : ∀ p ∈ d.namedMessages, ∀ f ∈ p.2.fields, f.typeNumber = 14 →
    f.Finds p.1 (known.flatMap enumNames)
  messages : ∀ p ∈ d.namedMessages, ∀ f ∈ p.2.fields, f.typeNumber = 10 ∨ f.typeNumber = 11 →
    f.Finds p.1 (known.flatMap messageNames)

/-- Each file of a list can be resolved after the files before it. -/
def AllResolvable (ds : List FileDescriptor) : Prop :=
  ∀ k (d : FileDescriptor), ds[k]? = some d → d.Resolvable (ds.take (k + 1))

theorem allResolvable_nil : AllResolvable [] := nofun

theorem allResolvable_concat_iff {ds : List FileDescriptor} {d : FileDescriptor} :
    AllResolvable (ds ++ [d]) ↔ AllResolvable ds ∧ d.Resolvable (ds ++ [d]) := by
  have hall : (ds ++ [d]).take (ds.length + 1) = ds ++ [d] := List.take_of_length_le (by simp)
  constructor
  · intro h
    refine ⟨fun k e he => ?_, ?_⟩
    · have hk : k < ds.length := (List.getElem?_eq_some_iff.mp he).1
      have hlast := h k e (by rw [List.getElem?_append_left hk, he])
      rwa [List.take_append_of_le_length hk] at hlast
    · have hlast := h ds.length d (by simp)
      rwa [hall] at hlast
  · rintro ⟨hds, hd⟩ k e he
    rcases Nat.lt_trichotomy k ds.length with hk | rfl | hk
    · rw [List.getElem?_append_left hk] at he
      rw [List.take_append_of_le_length hk]
      exact hds k e he
    · rw [List.getElem?_concat_length] at he
      cases he
      rwa [hall]
    · rw [List.getElem?_eq_none (by simp; omega)] at he
      cases he

end FileDescriptor

/-! ## References -/

theorem FieldType.eq_enumeration_iff {n : Int} {t : FieldType} (h : ofCode? n = some t) :
    t = .enumeration ↔ n = 14 := by
  unfold ofCode? at h
  split at h
  · cases h; simp; omega
  · split at h
    · cases h; simp; omega
    · split at h
      · cases h; simp [*]
      · obtain ⟨x, _, rfl⟩ := Option.map_eq_some_iff.mp h
        simp [*]

theorem FieldType.isMessage_iff {n : Int} {t : FieldType} (h : ofCode? n = some t) :
    t.isMessage = true ↔ n = 10 ∨ n = 11 := by
  unfold ofCode? at h
  split at h
  · cases h; simp [isMessage, *]
  · split at h
    · cases h; simp [isMessage, *]
    · split at h
      · cases h; simp [isMessage]; omega
      · obtain ⟨x, _, rfl⟩ := Option.map_eq_some_iff.mp h
        simp [isMessage, *]

namespace Message.MadeOf

variable {p : String × MessageDescriptor} {m : Message}

theorem field (h : m.MadeOf p) {f : Field} (hf : f ∈ m.fields) :
    f.parent = p.1 ∧ FieldType.ofCode? f.descriptor.typeNumber = some f.type := by
  obtain ⟨hname, s, member, i, hmade⟩ := h
  obtain ⟨_, _, _, inner, _, hfields, _⟩ := Message.of_declare hmade
  obtain ⟨j, d, _, hf⟩ := exists_of_mem_eachFrom hfields hf
  obtain ⟨_, hparent, rfl⟩ := Field.of_declare hf
  exact ⟨hparent.trans hname, Field.declare_type hf⟩

theorem descriptors_eq (h : m.MadeOf p) : m.fields.map Field.descriptor = p.2.fields := by
  obtain ⟨_, s, member, i, hmade⟩ := h
  obtain ⟨_, _, _, inner, _, hfields, _⟩ := Message.of_declare hmade
  rw [List.map_eq_flatMap, ← List.flatMap_singleton' p.2.fields]
  exact flatMap_eachFrom (fun j d _ f hf => by rw [(Field.of_declare hf).2.2]) hfields

theorem exists_field (h : m.MadeOf p) {d : FieldDescriptor} (hd : d ∈ p.2.fields) :
    ∃ f ∈ m.fields, f.descriptor = d := by
  rw [← h.descriptors_eq] at hd
  exact List.mem_map.mp hd

end Message.MadeOf

namespace Schema

/-- A field finds what it refers to if its reference can mean a registered name. -/
theorem exists_targetIn {r : Registry} {f : Field} (htext : f.hasTextReference = true)
    (henum : f.type = .enumeration → ∃ reference ∈ f.descriptor.typeName,
      ∃ n ∈ Registry.scopedCandidates f.parent reference, ∃ e, r.enums.get? n = some e)
    (hmessage : f.type.isMessage = true → ∃ reference ∈ f.descriptor.typeName,
      ∃ n ∈ Registry.scopedCandidates f.parent reference, ∃ m, r.messages.get? n = some m) :
    ∃ t, targetIn r f = .ok t := by
  have hfirst {α : Type} {get? : String → Option α} {names : List String}
      (h : ∃ n ∈ names, ∃ x, get? n = some x) : ∃ x, names.findSome? get? = some x := by
    obtain ⟨n, hn, x, hx⟩ := h
    refine Option.isSome_iff_exists.mp (List.findSome?_isSome_iff.mpr ⟨n, hn, ?_⟩)
    rw [hx]
    rfl
  unfold targetIn
  cases htype : f.type with
  | scalar _ => exact ⟨none, rfl⟩
  | enumeration =>
    obtain ⟨reference, hreference, hnames⟩ := henum htype
    obtain ⟨e, he⟩ := hfirst hnames
    simp only [Option.mem_def.mp hreference, htext, if_true, Registry.scopedEnum?, he]
    exact ⟨_, rfl⟩
  | _ =>
    obtain ⟨reference, hreference, hnames⟩ := hmessage (by rw [htype]; rfl)
    obtain ⟨m, hm⟩ := hfirst hnames
    simp only [Option.mem_def.mp hreference, htext, if_true, Registry.scopedMessage?, hm]
    exact ⟨_, rfl⟩

/-- A reference that was found can mean a registered name. -/
theorem exists_of_targetIn {r : Registry} {f : Field} {t : Option Declared}
    (h : targetIn r f = .ok t) :
    (f.type = .enumeration → ∃ reference ∈ f.descriptor.typeName,
      ∃ n ∈ Registry.scopedCandidates f.parent reference, ∃ e, r.enums.get? n = some e) ∧
    (f.type.isMessage = true → ∃ reference ∈ f.descriptor.typeName,
      ∃ n ∈ Registry.scopedCandidates f.parent reference, ∃ m, r.messages.get? n = some m) := by
  obtain ⟨hfits, hregistered⟩ := targetIn_ok h
  constructor
  · intro htype
    rw [htype] at hfits
    obtain ⟨e, rfl⟩ := hfits
    obtain ⟨reference, hreference, n, hn, he⟩ := hregistered _ rfl
    exact ⟨reference, hreference, n, hn, e, he⟩
  · intro htype
    have hmessage : ∃ m, t = some (.message m) := by
      cases hcase : f.type with
      | scalar _ => rw [hcase] at htype; cases htype
      | enumeration => rw [hcase] at htype; cases htype
      | _ => rwa [hcase] at hfits
    obtain ⟨m, rfl⟩ := hmessage
    obtain ⟨reference, hreference, n, hn, hm⟩ := hregistered _ rfl
    exact ⟨reference, hreference, n, hn, m, hm⟩

section

variable {rule : PathRule} {toGenerate : List String} {index : Nat} {d : FileDescriptor} {f : File}
  {known : List FileDescriptor} {gs : List File}

/-- The condition on a file that is declared is that its references and dependencies are found in
the registry of the known files. -/
theorem resolvable_of_found (hknown : eachFrom (File.declare rule toGenerate) 0 known = .ok gs)
    (hf : File.declare rule toGenerate index d = .ok f)
    (hfound : AllFound (Registry.ofFiles gs) f.declared)
    (hdepends : ∀ n ∈ f.dependencies, ∃ g, (Registry.ofFiles gs).files.get? n = some g) :
    d.Resolvable known := by
  have hcovers := Registry.covers_ofFiles gs
  have hmade := File.declare_namedMessages hf
  refine ⟨fun p hp a ha => ?_, fun n hn => ?_, fun p hp a ha htype => ?_,
    fun p hp a ha htype => ?_⟩
  · obtain ⟨m, _, _, s, member, i, hdeclared⟩ := Related.exists_right hmade hp
    exact Message.inRange_of_declare hdeclared a ha
  · rw [← File.names_of_declare hknown]
    refine Registry.exists_file_iff.mp (hdepends n ?_)
    rw [(File.of_declare hf).2.1]
    exact hn
  · obtain ⟨m, hm, hmp⟩ := Related.exists_right hmade hp
    obtain ⟨field, hfield, rfl⟩ := hmp.exists_field ha
    obtain ⟨hparent, hcode⟩ := hmp.field hfield
    obtain ⟨t, ht⟩ := hfound m (File.mem_declaredMessages.mp hm) field hfield
    obtain ⟨reference, hreference, n, hn, he⟩ :=
      (exists_of_targetIn ht).1 ((FieldType.eq_enumeration_iff hcode).mpr htype)
    rw [hparent] at hn
    exact ⟨reference, hreference, n, hn,
      (File.exists_enum_iff hknown).mp (hcovers.exists_enum_iff.mp he)⟩
  · obtain ⟨m, hm, hmp⟩ := Related.exists_right hmade hp
    obtain ⟨field, hfield, rfl⟩ := hmp.exists_field ha
    obtain ⟨hparent, hcode⟩ := hmp.field hfield
    obtain ⟨t, ht⟩ := hfound m (File.mem_declaredMessages.mp hm) field hfield
    obtain ⟨reference, hreference, n, hn, hmessage⟩ :=
      (exists_of_targetIn ht).2 ((FieldType.isMessage_iff hcode).mpr htype)
    rw [hparent] at hn
    exact ⟨reference, hreference, n, hn,
      (File.exists_message_iff hknown).mp (hcovers.exists_message_iff.mp hmessage)⟩

theorem found_of_resolvable (hknown : eachFrom (File.declare rule toGenerate) 0 known = .ok gs)
    (hf : File.declare rule toGenerate index d = .ok f) (hd : d.IsText)
    (hr : d.Resolvable known) :
    AllFound (Registry.ofFiles gs) f.declared ∧
      ∀ n ∈ f.dependencies, ∃ g, (Registry.ofFiles gs).files.get? n = some g := by
  have hcovers := Registry.covers_ofFiles gs
  have hmade := File.declare_namedMessages hf
  constructor
  · intro m hm field hfield
    obtain ⟨p, hp, hmp⟩ := Related.exists_left hmade (File.mem_declaredMessages.mpr hm)
    obtain ⟨hparent, hcode⟩ := hmp.field hfield
    have hgiven : field.descriptor ∈ p.2.fields := by
      rw [← hmp.descriptors_eq]
      exact List.mem_map.mpr ⟨field, hfield, rfl⟩
    refine exists_targetIn ?_ (fun htype => ?_) fun htype => ?_
    · have hheader : f.header.IsText := by
        rw [(File.of_declare hf).1]
        exact ⟨hd.names, hd.comments⟩
      rw [Field.hasTextReference, ((File.declare_made hf _ hm).field rfl hfield).1]
      exact hheader.isText _
    · obtain ⟨reference, hreference, n, hn, hname⟩ :=
        hr.enums p hp _ hgiven ((FieldType.eq_enumeration_iff hcode).mp htype)
      rw [hparent]
      exact ⟨reference, hreference, n, hn,
        hcovers.exists_enum_iff.mpr ((File.exists_enum_iff hknown).mpr hname)⟩
    · obtain ⟨reference, hreference, n, hn, hname⟩ :=
        hr.messages p hp _ hgiven ((FieldType.isMessage_iff hcode).mp htype)
      rw [hparent]
      exact ⟨reference, hreference, n, hn,
        hcovers.exists_message_iff.mpr ((File.exists_message_iff hknown).mpr hname)⟩
  · intro n hn
    rw [(File.of_declare hf).2.1] at hn
    rw [Registry.exists_file_iff, File.names_of_declare hknown]
    exact hr.depends n hn

/-! ## Resolution -/

variable {ds : List FileDescriptor} {fs : List File} {s : Schema}

/-- One file more is resolvable if it is taken. -/
theorem Resolves.resolvable_of_addFile (h : Resolves rule toGenerate ds fs s) {s' : Schema}
    (ha : Schema.addFile rule toGenerate s d = .ok s') : d.Resolvable (ds ++ [d]) := by
  obtain ⟨f, hs'⟩ := h.addFile ha
  have hlast : (fs ++ [f])[fs.length]? = some f := List.getElem?_concat_length
  have hall : (fs ++ [f]).take (fs.length + 1) = fs ++ [f] := List.take_of_length_le (by simp)
  obtain ⟨d', hd', hf⟩ := getElem?_eachFrom hs'.declared hlast
  rw [length_eachFrom h.declared, List.getElem?_concat_length] at hd'
  cases hd'
  have hfound := hs'.found fs.length f hlast
  have hdepends := checkDependencies_eq_ok_iff.mp (hs'.depends fs.length f hlast)
  rw [hall] at hfound hdepends
  exact resolvable_of_found hs'.declared hf hfound hdepends

/-- One file more of texts is taken if it is resolvable. -/
theorem Resolves.exists_addFile (h : Resolves rule toGenerate ds fs s) (hd : d.IsText)
    (hr : d.Resolvable (ds ++ [d])) : ∃ s', Schema.addFile rule toGenerate s d = .ok s' := by
  obtain ⟨f, hf⟩ := File.exists_declare hd hr.inRange rule toGenerate fs.length
  have hknown : eachFrom (File.declare rule toGenerate) 0 (ds ++ [d]) = .ok (fs ++ [f]) := by
    refine eachFrom_concat h.declared ?_
    rwa [Nat.zero_add, ← length_eachFrom h.declared]
  obtain ⟨hfound, hdepends⟩ := found_of_resolvable hknown hf hd hr
  exact h.exists_addFile_of_found hf hfound hdepends

theorem allResolvable_of_resolve (h : resolve rule toGenerate ds = .ok s) :
    FileDescriptor.AllResolvable ds := by
  induction ds using List.reverseRecOn generalizing s with
  | nil => exact FileDescriptor.allResolvable_nil
  | append_singleton ds d ih =>
    obtain ⟨s', hs', hd⟩ := foldlM_concat_eq_ok_iff.mp h
    obtain ⟨fs, hfs⟩ := resolve_ok hs'
    exact FileDescriptor.allResolvable_concat_iff.mpr ⟨ih hs', hfs.resolvable_of_addFile hd⟩

theorem exists_resolve (hd : ∀ d ∈ ds, d.IsText) (hr : FileDescriptor.AllResolvable ds)
    (rule : PathRule) (toGenerate : List String) : ∃ s, resolve rule toGenerate ds = .ok s := by
  induction ds using List.reverseRecOn with
  | nil => exact ⟨empty, rfl⟩
  | append_singleton ds d ih =>
    obtain ⟨hds, hlast⟩ := FileDescriptor.allResolvable_concat_iff.mp hr
    obtain ⟨s, hs⟩ := ih (fun e he => hd e (List.mem_append_left _ he)) hds
    obtain ⟨fs, hfs⟩ := resolve_ok hs
    obtain ⟨s', hs'⟩ :=
      hfs.exists_addFile (hd d (List.mem_append_right _ (List.mem_singleton_self _))) hlast
    exact ⟨s', foldlM_concat_eq_ok_iff.mpr ⟨s, hs, hs'⟩⟩

end

end Schema

/-! ## What a resolved schema shows -/

/-- The files that a file of a schema depends on, as they are registered once it is. -/
def Schema.dependencies? (s : Schema) (f : File) : Option (List File) :=
  s.stages[f.header.index]?.bind fun r => f.dependencies.mapM r.files.get?

/-- A message shows what its descriptor under a full name declares: the fields, each with a message
or an enum exactly if its type refers to one, and the nested messages in order without the entries
of maps. -/
structure Message.Mirrors (s : Schema) (p : String × MessageDescriptor) (m : Message) : Prop where
  made : m.MadeOf p
  fields : m.fields.map Field.descriptor = p.2.fields
  message : ∀ f ∈ m.fields, (s.message? f).isSome ↔
    f.descriptor.typeNumber = 10 ∨ f.descriptor.typeNumber = 11
  enum : ∀ f ∈ m.fields, (s.enum? f).isSome ↔ f.descriptor.typeNumber = 14
  nested : List.Forall₂ (fun c n => n.MadeOf (p.1 ++ "." ++ c.name, c))
    (p.2.messages.filter fun c => !c.isMapEntry) m.visibleMessages

/-- A file shows what its descriptor declares: the files that it depends on in order, and the
messages at every depth, the entries of maps among them. -/
structure File.Mirrors (s : Schema) (d : FileDescriptor) (f : File) : Prop where
  name : f.header.name = d.name
  dependencies : ∃ gs, s.dependencies? f = some gs ∧ gs.map (·.header.name) = d.dependencies
  messages : List.Forall₂ (Message.Mirrors s) d.namedMessages f.declaredMessages

theorem Message.MadeOf.nested {p : String × MessageDescriptor} {m : Message} (h : m.MadeOf p) :
    List.Forall₂ (fun c n => n.MadeOf (p.1 ++ "." ++ c.name, c))
      (p.2.messages.filter fun c => !c.isMapEntry) m.visibleMessages := by
  obtain ⟨hname, s, member, i, hmade⟩ := h
  obtain ⟨_, hfull, _, inner, rfl, _, hmessages, _⟩ := Message.of_declare hmade
  have hall : List.Forall₂ (fun c n => n.MadeOf (p.1 ++ "." ++ c.name, c) ∧
      n.isMapEntry = c.isMapEntry) p.2.messages m.messages := by
    refine forall₂_eachFrom (fun j c _ n hn => ⟨⟨?_, _, _, j, hn⟩, isMapEntry_declare hn⟩) hmessages
    rw [(Message.of_declare hn).2.1, Scope.fullName_inside, ← hfull, hname]
  refine (List.rel_filter (fun c n hcn => ?_) hall).imp fun c n hcn => hcn.1
  simp [hcn.2]

namespace Schema

/-- A field has a message or an enum exactly if its type refers to one. -/
theorem Fits.isSome_iff {s : Schema} {f : Field} (h : Fits f.type (s.target? f)) :
    ((s.message? f).isSome ↔ f.type.isMessage = true) ∧
      ((s.enum? f).isSome ↔ f.type = .enumeration) := by
  cases htype : f.type with
  | scalar t =>
    rw [htype] at h
    simp [message?, enum?, show s.target? f = none from h, FieldType.isMessage]
  | enumeration =>
    rw [htype] at h
    obtain ⟨e, he⟩ := h
    simp [message?, enum?, he, FieldType.isMessage]
  | _ =>
    rw [htype] at h
    obtain ⟨m, hm⟩ := h
    simp [message?, enum?, hm, FieldType.isMessage]

section

variable {rule : PathRule} {toGenerate : List String} {ds : List FileDescriptor} {fs : List File}
  {s : Schema}

/-- Names that all find a file of their name find these files in order. -/
theorem exists_mapM_files {get? : String → Option File} {names : List String}
    (h : ∀ n ∈ names, ∃ f, get? n = some f ∧ f.header.name = n) :
    ∃ gs, names.mapM get? = some gs ∧ gs.map (·.header.name) = names := by
  induction names with
  | nil => exact ⟨[], rfl, rfl⟩
  | cons n rest ih =>
    obtain ⟨f, hf, hname⟩ := h n List.mem_cons_self
    obtain ⟨gs, hgs, hnames⟩ := ih fun n' hn' => h n' (List.mem_cons_of_mem _ hn')
    exact ⟨f :: gs, by simp [hf, hgs], by rw [List.map_cons, hname, hnames]⟩

theorem Resolves.dependencies (h : Resolves rule toGenerate ds fs s) {k : Nat} {f : File}
    (hf : fs[k]? = some f) :
    ∃ gs, s.dependencies? f = some gs ∧ gs.map (·.header.name) = f.dependencies := by
  have hdepends := checkDependencies_eq_ok_iff.mp (h.depends k f hf)
  rw [dependencies?, h.index_eq hf, h.stage k (List.getElem?_eq_some_iff.mp hf).1, Option.bind_some]
  refine exists_mapM_files fun n hn => ?_
  obtain ⟨g, hg⟩ := hdepends n hn
  exact ⟨g, hg, (Registry.mem_of_files_get? hg).2⟩

theorem Resolves.mirrors (h : Resolves rule toGenerate ds fs s) :
    List.Forall₂ (File.Mirrors s) ds fs := by
  have hmade : List.Forall₂ (fun d f => ∃ j, File.declare rule toGenerate j d = .ok f) ds fs :=
    forall₂_eachFrom (fun j d _ f hf => ⟨j, hf⟩) h.declared
  refine Related.imp_mem hmade fun d _ f hf ⟨j, hdeclared⟩ => ?_
  obtain ⟨k, hk⟩ := List.getElem?_of_mem hf
  obtain ⟨gs, hgs, hnames⟩ := h.dependencies hk
  obtain ⟨hheader, hdependencies, _⟩ := File.of_declare hdeclared
  refine ⟨by rw [hheader]; rfl, ⟨gs, hgs, hnames.trans hdependencies⟩, ?_⟩
  refine Related.imp_mem (File.declare_namedMessages hdeclared) fun p _ m hm hmp => ?_
  have hmem := List.mem_flatMap.mpr ⟨f, hf, File.mem_declaredMessages.mp hm⟩
  refine ⟨hmp, hmp.descriptors_eq, fun field hfield => ?_, fun field hfield => ?_, hmp.nested⟩
  · rw [(h.target_found hmem hfield).1.isSome_iff.1,
      FieldType.isMessage_iff (hmp.field hfield).2]
  · rw [(h.target_found hmem hfield).1.isSome_iff.2,
      FieldType.eq_enumeration_iff (hmp.field hfield).2]

/-- Files of texts make a schema exactly if each is resolvable after the files before it.  A schema
that is made shows what its files declare. -/
theorem resolve_iff_resolvable (rule : PathRule) (toGenerate : List String)
    (ds : List FileDescriptor) :
    ((∀ d ∈ ds, d.IsText) →
      ((∃ s, resolve rule toGenerate ds = .ok s) ↔ FileDescriptor.AllResolvable ds)) ∧
    ∀ s, resolve rule toGenerate ds = .ok s → FileDescriptor.AllResolvable ds ∧
      ∃ fs, s.Resolves rule toGenerate ds fs ∧ List.Forall₂ (File.Mirrors s) ds fs := by
  constructor
  · intro hd
    exact ⟨fun ⟨s, hs⟩ => allResolvable_of_resolve hs, fun hr => exists_resolve hd hr _ _⟩
  · intro s hs
    obtain ⟨fs, hfs⟩ := resolve_ok hs
    exact ⟨allResolvable_of_resolve hs, fs, hfs, hfs.mirrors⟩

/-- The files of the small schema are resolvable in the one order and not in the other. -/
theorem resolve_iff_resolvable_of_sample :
    (∀ d ∈ [sampleMain, sampleBase], d.IsText) ∧
      FileDescriptor.AllResolvable [sampleBase, sampleMain] ∧
      ¬ FileDescriptor.AllResolvable [sampleMain, sampleBase] := by
  have hbase : sampleBase.IsText := ⟨rfl, by decide⟩
  have hmain : sampleMain.IsText := ⟨rfl, by decide⟩
  have htext : ∀ d ∈ [sampleMain, sampleBase], d.IsText := by simp [hbase, hmain]
  have hfails : (resolve defaultPathRule [] [sampleMain, sampleBase]).isOk = false := by
    decide +kernel
  refine ⟨htext, ((resolve_iff_resolvable defaultPathRule _ _).2 _ resolve_sample).1, fun hr => ?_⟩
  obtain ⟨s, hs⟩ := ((resolve_iff_resolvable defaultPathRule [] _).1 htext).mpr hr
  rw [hs] at hfails
  cases hfails

end

end Schema

end SchemaScript
