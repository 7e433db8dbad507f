import SchemaScript.Proofs.Schema.Acceptance
import SchemaScript.Proofs.Schema.Agreement

/-!
# Qualified references

References that are spelled out: a dot and the full name of what they mean.

`Schema.qualifiedFiles` spells out the references of the files that a schema was resolved from.
Each reference is looked up as it was when the schema was resolved, in the registry of the files up
to its own (`FieldDescriptor.qualified`), so a name that a later file registers anew does not count.

On the side of the declarations that is a revision, which spells out what each field refers to
(`Schema.qualifying`): the qualified files declare the revised declarations
(`Resolves.declared_qualified`).  A full name finds the declaration that it is the name of, and so
each field finds the revision of what it found before (`Schema.targetIn_referringTo`).  Hence the
qualified files are resolved as well, with the fields bound as before (`Resolves.qualified`,
`Resolves.target?_qualified`).
-/

namespace SchemaScript

open Outcome

/-! ## Full names as references -/

namespace Declared

/-- The reference to a declaration by its full name. -/
def reference (x : Declared) : String :=
  "." ++ x.fullName

/-- Where a declaration stands: the position of its file and its path there. -/
def place : Declared → Nat × List Nat
  | .message m => (m.file.index, m.location.path)
  | .enum e => (e.file.index, e.location.path)

end Declared

namespace Registry

/-- A full name after a dot means nothing but the name. -/
theorem scopedCandidates_reference (scope : String) (x : Declared) :
    scopedCandidates scope x.reference = [x.fullName] := by
  simp [scopedCandidates, isAbsolute, withoutDot, Declared.reference, String.toList_append]

end Registry

/-! ## Spelling out references -/

/-- The field as given with a reference to a declaration by its full name, if there is one. -/
def FieldDescriptor.referringTo (x : Option Declared) (d : FieldDescriptor) : FieldDescriptor :=
  { d with typeName := (x.map Declared.reference).or d.typeName }

/-- What a field as given refers to in a message of a full name. -/
def FieldDescriptor.meant? (r : Registry) (messageName : String) (d : FieldDescriptor) :
    Option Declared :=
  (FieldType.ofCode? d.typeNumber).bind fun type =>
    d.typeName.bind fun reference => Schema.meant? r type messageName reference

/-- The field as given in a message of a full name with its reference spelled out. -/
def FieldDescriptor.qualified (r : Registry) (messageName : String) (d : FieldDescriptor) :
    FieldDescriptor :=
  d.referringTo (d.meant? r messageName)

/-- The file with the references of all fields in it spelled out. -/
def FileDescriptor.qualified (r : Registry) (d : FileDescriptor) : FileDescriptor :=
  d.rewritten (FieldDescriptor.qualified r)

/-- The files of a schema with their references spelled out, each by what is registered once its
file is. -/
def Schema.qualifiedFiles (s : Schema) (ds : List FileDescriptor) : List FileDescriptor :=
  List.zipWith FileDescriptor.qualified s.stages ds

/-- The field with a reference to a declaration by its full name, if there is one. -/
def Field.referringTo (x : Option Declared) (f : Field) : Field :=
  { f with descriptor := f.descriptor.referringTo x }

/-- The field with the reference to what it refers to spelled out. -/
def Field.qualified (s : Schema) (f : Field) : Field :=
  f.referringTo (s.target? f)

/-- The references of a schema are spelled out. -/
def Schema.qualifying (s : Schema) : Revision where
  index := id
  generate := id
  field := Field.qualified s

/-- The file with the references of all fields in it spelled out. -/
abbrev File.qualified (s : Schema) (f : File) : File :=
  f.revised s.qualifying

theorem FieldDescriptor.qualified_keeps (r : Registry) :
    FieldRewrite.Keeps (FieldDescriptor.qualified r) :=
  ⟨fun _ _ => rfl, fun _ _ => rfl, fun _ _ => rfl, fun _ _ => rfl⟩

@[simp] theorem Declared.place_qualified (s : Schema) (x : Declared) :
    (x.revised s.qualifying).place = x.place := by
  cases x with
  | message m => simp [Declared.revised, place, FileHeader.revised, Schema.qualifying]
  | enum e => rfl

namespace Schema

/-! ## One field -/

section

variable {r r' : Registry} {xs : List Declared} {f : Field} {t : Option Declared}

/-- What a reference means the full name of it means as well, in any scope, where what is registered
is registered under its full name. -/
theorem meant?_reference {v : Revision} (hr : Registry.RevisedBy v r r') (hcovers : r.Covers xs)
    {type : FieldType} {scope reference : String} {x : Declared}
    (h : meant? r type scope reference = some x) (scope' : String) :
    meant? r' type scope' x.reference = some (x.revised v) := by
  obtain ⟨hfits, name, _, hname⟩ := meant?_registered h
  obtain ⟨_, rfl⟩ := hcovers.only name x hname
  cases type with
  | scalar _ => cases h
  | enumeration =>
    obtain ⟨e, he⟩ := hfits
    cases he
    have hfound : r.enums.get? e.fullName = some e := hname
    simp only [meant?, Registry.scopedEnum?, Registry.scopedCandidates_reference,
      List.findSome?_singleton, hr.enums, Declared.fullName, hfound]
    rfl
  | _ =>
    obtain ⟨m, hm⟩ := hfits
    cases hm
    have hfound : r.messages.get? m.fullName = some m := hname
    simp only [meant?, Registry.scopedMessage?, Registry.scopedCandidates_reference,
      List.findSome?_singleton, hr.messages, Declared.fullName, hfound]
    rfl

/-- With its reference spelled out, a field finds the revision of what it found before. -/
theorem targetIn_referringTo {v : Revision} (hr : Registry.RevisedBy v r r')
    (hcovers : r.Covers xs) (h : targetIn r f = .ok t) :
    targetIn r' (f.referringTo t) = .ok (t.map (Declared.revised v)) := by
  rcases targetIn_eq_ok_iff.mp h with ⟨hscalar, rfl⟩ | ⟨htext, _, _, x, hx, rfl⟩
  · exact targetIn_eq_ok_iff.mpr (.inl ⟨hscalar, rfl⟩)
  · exact targetIn_eq_ok_iff.mpr (.inr ⟨htext, x.reference, rfl, x.revised v,
      meant?_reference hr hcovers hx f.parent, rfl⟩)

/-- What a field finds is what its descriptor refers to. -/
theorem meant?_of_targetIn (h : targetIn r f = .ok t)
    (hcode : FieldType.ofCode? f.descriptor.typeNumber = some f.type) :
    f.descriptor.meant? r f.parent = t := by
  rw [FieldDescriptor.meant?, hcode, Option.bind_some]
  rcases targetIn_eq_ok_iff.mp h with ⟨⟨c, hc⟩, rfl⟩ | ⟨_, reference, hreference, x, hx, rfl⟩
  · rw [hc]
    exact Option.bind_eq_none_iff.mpr fun _ _ => rfl
  · rw [hreference, Option.bind_some, hx]

end

/-! ## All files -/

/-- Files that are declared, and in which everything is found, are resolved. -/
theorem exists_resolve_of_found {rule : PathRule} {toGenerate : List String}
    {ds : List FileDescriptor} {fs : List File}
    (hdeclared : eachFrom (File.declare rule toGenerate) 0 ds = .ok fs)
    (hfound : ∀ k f, fs[k]? = some f → AllFound (Registry.ofFiles (fs.take (k + 1))) f.declared)
    (hdepends : ∀ k f, fs[k]? = some f → ∀ n ∈ f.dependencies,
      ∃ g, (Registry.ofFiles (fs.take (k + 1))).files.get? n = some g) :
    ∃ s, resolve rule toGenerate ds = .ok s ∧ s.Resolves rule toGenerate ds fs := by
  induction ds using List.reverseRecOn generalizing fs with
  | nil => cases hdeclared; exact ⟨empty, rfl, resolves_nil⟩
  | append_singleton ds d ih =>
    obtain ⟨fs, f, hfs, hf, rfl⟩ := exists_of_eachFrom_concat hdeclared
    have hearlier {k : Nat} {g : File} (hg : fs[k]? = some g) :
        (fs ++ [f])[k]? = some g ∧ (fs ++ [f]).take (k + 1) = fs.take (k + 1) := by
      have hk := (List.getElem?_eq_some_iff.mp hg).1
      exact ⟨by rw [List.getElem?_append_left hk, hg], take_concat_of_getElem? hg⟩
    obtain ⟨s, hs, hresolves⟩ := ih hfs
      (fun k g hg => by
        have hall := hfound k g (hearlier hg).1
        rwa [(hearlier hg).2] at hall)
      (fun k g hg => by
        have hall := hdepends k g (hearlier hg).1
        rwa [(hearlier hg).2] at hall)
    have hlast : (fs ++ [f])[fs.length]? = some f := List.getElem?_concat_length
    have hall : (fs ++ [f]).take (fs.length + 1) = fs ++ [f] := List.take_of_length_le (by simp)
    have hchecked := hfound fs.length f hlast
    have hnamed := hdepends fs.length f hlast
    rw [hall] at hchecked hnamed
    rw [Nat.zero_add, ← length_eachFrom hfs] at hf
    obtain ⟨s', hs'⟩ := hresolves.exists_addFile_of_found hf hchecked hnamed
    have hresolved : resolve rule toGenerate (ds ++ [d]) = .ok s' :=
      foldlM_concat_eq_ok_iff.mpr ⟨s, hs, hs'⟩
    obtain ⟨gs, hgs⟩ := resolve_ok hresolved
    cases Except.ok.inj (hgs.declared.symm.trans hdeclared)
    exact ⟨s', hresolved, hgs⟩

namespace Resolves

variable {rule : PathRule} {toGenerate : List String} {ds : List FileDescriptor} {fs : List File}
  {s s' : Schema}

/-- The type of a field of a declared message is the one that its descriptor gives. -/
theorem typeCode (h : Resolves rule toGenerate ds fs s) {g : File} (hg : g ∈ fs) {m : Message}
    (hm : .message m ∈ g.declared) {f : Field} (hf : f ∈ m.fields) :
    FieldType.ofCode? f.descriptor.typeNumber = some f.type := by
  obtain ⟨j, d, _, hd⟩ := exists_of_mem_eachFrom h.declared hg
  obtain ⟨p, _, hp⟩ :=
    Related.exists_left (File.declare_namedMessages hd) (File.mem_declaredMessages.mpr hm)
  exact (hp.field hf).2

/-- The qualified files declare the same with the references spelled out. -/
theorem declared_qualified (h : Resolves rule toGenerate ds fs s) :
    eachFrom (File.declare rule toGenerate) 0 (s.qualifiedFiles ds) =
      .ok (fs.map (File.qualified s)) := by
  have hlength : ds.length = fs.length := (length_eachFrom h.declared).symm
  refine eachFrom_of_getElem? (by simp [qualifiedFiles, hlength, h.count]) fun k d' g' hd' hg' => ?_
  rw [List.getElem?_map, Option.map_eq_some_iff] at hg'
  obtain ⟨g, hg, rfl⟩ := hg'
  obtain ⟨r, d, hr, hd, rfl⟩ := List.getElem?_zipWith_eq_some.mp hd'
  obtain ⟨d', hd', hmade⟩ := getElem?_eachFrom h.declared hg
  cases hd.symm.trans hd'
  rw [h.stage k (List.getElem?_eq_some_iff.mp hg).1] at hr
  cases hr
  generalize hregistry : Registry.ofFiles (fs.take (k + 1)) = r
  -- What the descriptors are rewritten to is a revision of its own, the same on all that `g` declares.
  let v : Revision := ⟨id, id, fun f => f.referringTo (f.descriptor.meant? r f.parent)⟩
  have hfollows : v.Follows (FieldDescriptor.qualified r) :=
    (FieldDescriptor.qualified_keeps r).follows fun _ => rfl
  have hsame : g.revised v = g.qualified s := by
    refine File.revised_congr (v := v) (w := s.qualifying) rfl rfl fun m hm f hf => ?_
    have hfound := h.target?_at hg hm hf
    rw [hregistry] at hfound
    show f.referringTo (f.descriptor.meant? r f.parent) = f.referringTo (s.target? f)
    rw [meant?_of_targetIn hfound (h.typeCode (List.mem_of_getElem? hg) hm hf)]
  have hheader : FileHeader.ofDescriptor rule toGenerate (0 + k)
      (d.rewritten (FieldDescriptor.qualified r)) =
        (FileHeader.ofDescriptor rule toGenerate (0 + k) d).revised v := rfl
  rw [FileDescriptor.qualified, File.declare_revised hfollows hheader, hmade, ← hsame]
  rfl

/-- What is registered with the qualified files is the revision of what was registered. -/
theorem revisedBy_qualified (s : Schema) (fs : List File) (k : Nat) :
    Registry.RevisedBy s.qualifying (Registry.ofFiles (fs.take k))
      (Registry.ofFiles ((fs.map (File.qualified s)).take k)) := by
  rw [← List.map_take]
  exact Registry.RevisedBy.ofFiles s.qualifying (fs.take k)

/-- The qualified files are resolved as well. -/
theorem qualified (h : Resolves rule toGenerate ds fs s) :
    ∃ s', resolve rule toGenerate (s.qualifiedFiles ds) = .ok s' ∧
      s'.Resolves rule toGenerate (s.qualifiedFiles ds) (fs.map (File.qualified s)) := by
  refine exists_resolve_of_found h.declared_qualified (fun k g' hg' => ?_) fun k g' hg' n hn => ?_
  · rw [List.getElem?_map, Option.map_eq_some_iff] at hg'
    obtain ⟨g, hg, rfl⟩ := hg'
    intro m' hm' f' hf'
    obtain ⟨m, hm, rfl⟩ := (g.message_mem_declared_revised s.qualifying).mp hm'
    rw [m.fields_revised] at hf'
    obtain ⟨f, hf, rfl⟩ := List.mem_map.mp hf'
    exact ⟨_, targetIn_referringTo (revisedBy_qualified s fs (k + 1)) (Registry.covers_ofFiles _)
      (h.target?_at hg hm hf)⟩
  · rw [List.getElem?_map, Option.map_eq_some_iff] at hg'
    obtain ⟨g, hg, rfl⟩ := hg'
    obtain ⟨file, hfile⟩ := checkDependencies_eq_ok_iff.mp (h.depends k g hg) n hn
    exact ⟨_, by rw [(revisedBy_qualified s fs (k + 1)).files, hfile]; rfl⟩

section

variable (h : Resolves rule toGenerate ds fs s)
  (h' : s'.Resolves rule toGenerate (s.qualifiedFiles ds) (fs.map (File.qualified s)))
  {m : Message} (hm : .message m ∈ fs.flatMap File.declared)

include h h' hm

/-- A field refers to the revision of what it referred to before. -/
theorem target?_qualified {f : Field} (hf : f ∈ m.fields) :
    s'.target? (f.qualified s) = (s.target? f).map (Declared.revised s.qualifying) := by
  obtain ⟨g, hg, hmg⟩ := List.mem_flatMap.mp hm
  obtain ⟨k, hk⟩ := List.getElem?_of_mem hg
  have hk' : (fs.map (File.qualified s))[k]? = some (g.qualified s) := by
    rw [List.getElem?_map, hk]
    rfl
  have hmg' : .message (m.revised s.qualifying) ∈ (g.qualified s).declared :=
    (g.message_mem_declared_revised s.qualifying).mpr ⟨m, hmg, rfl⟩
  have hf' : f.qualified s ∈ (m.revised s.qualifying).fields := by
    rw [m.fields_revised]
    exact List.mem_map_of_mem hf
  have hfound := targetIn_referringTo (revisedBy_qualified s fs (k + 1))
    (Registry.covers_ofFiles _) (h.target?_at hk hmg hf)
  exact Except.ok.inj ((h'.target?_at hk' hmg' hf').symm.trans hfound)

/-- A field shows the same as before to who describes it. -/
theorem alike_qualified {f : Field} (hf : f ∈ m.fields) : Field.Alike s s' f (f.qualified s) := by
  refine ⟨rfl, ?_⟩
  rw [h.target?_qualified h' hm hf]
  cases s.target? f with
  | none => exact .none
  | some x => exact .some (x.like_revised s.qualifying)

end

/-- The files to generate are the same. -/
theorem toGenerate_qualified (h : Resolves rule toGenerate ds fs s)
    (h' : s'.Resolves rule toGenerate (s.qualifiedFiles ds) (fs.map (File.qualified s))) :
    s'.toGenerate = s.toGenerate.map (File.qualified s) := by
  rw [h'.generated, h.generated, List.filter_map]
  rfl

end Resolves

end Schema

end SchemaScript
