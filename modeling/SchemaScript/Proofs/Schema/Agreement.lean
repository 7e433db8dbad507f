import SchemaScript.Proofs.Related
import SchemaScript.Proofs.Schema.Resolved
import SchemaScript.Proofs.Schema.Unplaced

/-!
# Schemas that agree

What two schemas have in common if the files of one are among those of the other
(`Schema.Within`).

Two declarations are the same up to their place if `unplaced` makes them equal.  Each declaration of
the smaller schema has its like in the larger one (`Within.exists_like`).  A reference with a dot
at its start is a full name, so it means the like of what it meant in the smaller schema, whatever
other files there are and in which order they came (`Within.alike`).

`Field.Alike` says of two fields that they are the same up to their place, and so are the
declarations that they refer to.
-/

namespace SchemaScript

open Outcome

/-! ## Absolute references -/

mutual

/-- The fields of a message and of the messages in it. -/
def MessageDescriptor.fieldsWithin : MessageDescriptor → List FieldDescriptor
  | ⟨_, fields, _, messages, _, _, _, _, _⟩ =>
    fields ++ MessageDescriptor.allFieldsWithin messages

/-- The fields of messages in order and of the messages in them. -/
def MessageDescriptor.allFieldsWithin : List MessageDescriptor → List FieldDescriptor
  | [] => []
  | d :: rest => d.fieldsWithin ++ MessageDescriptor.allFieldsWithin rest

end

/-- All references in the messages of files start with a dot. -/
def FileDescriptor.AbsoluteReferences (ds : List FileDescriptor) : Prop :=
  ∀ d ∈ ds, ∀ f ∈ MessageDescriptor.allFieldsWithin d.messages, ∀ reference ∈ f.typeName,
    Registry.isAbsolute reference = true

mutual

theorem MessageDescriptor.fieldsWithin_eq (d : MessageDescriptor) :
    d.fieldsWithin = d.messagesWithin.flatMap MessageDescriptor.fields := by
  cases d
  rw [MessageDescriptor.fieldsWithin, MessageDescriptor.messagesWithin, List.flatMap_cons,
    MessageDescriptor.allFieldsWithin_eq]

theorem MessageDescriptor.allFieldsWithin_eq (ds : List MessageDescriptor) :
    MessageDescriptor.allFieldsWithin ds =
      (MessageDescriptor.allMessagesWithin ds).flatMap MessageDescriptor.fields := by
  cases ds with
  | nil => rfl
  | cons d rest =>
    rw [MessageDescriptor.allFieldsWithin, MessageDescriptor.allMessagesWithin,
      List.flatMap_append, MessageDescriptor.fieldsWithin_eq, MessageDescriptor.allFieldsWithin_eq]

end

theorem File.declare_fieldsWithin {rule : PathRule} {toGenerate : List String} {index : Nat}
    {d : FileDescriptor} {g : File} (h : File.declare rule toGenerate index d = .ok g)
    {m : Message} (hm : .message m ∈ g.declared) {f : Field} (hf : f ∈ m.fields) :
    f.descriptor ∈ MessageDescriptor.allFieldsWithin d.messages := by
  obtain ⟨s, member, i, a, ha, hmade⟩ := File.declare_within h hm
  rw [MessageDescriptor.allFieldsWithin_eq]
  exact List.mem_flatMap.mpr ⟨a, ha, Message.descriptor_mem hmade hf⟩

/-! ## Like declarations -/

namespace Schema

theorem Fits.isSome_eq {t : FieldType} {x x' : Option Declared} (h : Fits t x) (h' : Fits t x') :
    x.isSome = x'.isSome := by
  cases t with
  | scalar _ =>
    rw [show x = none from h, show x' = none from h']
  | enumeration =>
    obtain ⟨e, rfl⟩ := h
    obtain ⟨e', rfl⟩ := h'
    rfl
  | message =>
    obtain ⟨m, rfl⟩ := h
    obtain ⟨m', rfl⟩ := h'
    rfl
  | group =>
    obtain ⟨m, rfl⟩ := h
    obtain ⟨m', rfl⟩ := h'
    rfl

section

variable {rule : PathRule} {toGenerate toGenerate' : List String} {ds ds' : List FileDescriptor}
  {fs fs' : List File} {s s' : Schema}

theorem Resolves.isAbsolute_reference (h : s.Resolves rule toGenerate ds fs)
    (habs : FileDescriptor.AbsoluteReferences ds) {m : Message}
    (hm : .message m ∈ fs.flatMap File.declared) {f : Field} (hf : f ∈ m.fields) :
    ∀ reference ∈ f.descriptor.typeName, Registry.isAbsolute reference = true := by
  obtain ⟨g, hg, hm⟩ := List.mem_flatMap.mp hm
  obtain ⟨j, d, hd, hmade⟩ := exists_of_mem_eachFrom h.declared hg
  exact habs d hd f.descriptor (File.declare_fieldsWithin hmade hm hf)

/-- An absolute reference means the declaration that has it for its full name. -/
theorem Resolves.fullName_target (h : s.Resolves rule toGenerate ds fs) {m : Message}
    (hm : .message m ∈ fs.flatMap File.declared) {f : Field} (hf : f ∈ m.fields)
    (habs : ∀ reference ∈ f.descriptor.typeName, Registry.isAbsolute reference = true)
    {x : Declared} (hx : s.target? f = some x) :
    f.descriptor.typeName.map Registry.withoutDot = some x.fullName := by
  obtain ⟨_, reference, hr, hname⟩ := (h.target_found hm hf).2 x hx
  rw [Registry.scopedCandidates, if_pos (habs reference hr), List.mem_singleton] at hname
  rw [hr, Option.map_some, hname]

/-- A schema comes from some of the files that a larger one comes from. -/
structure Within (rule : PathRule) (toGenerate toGenerate' : List String)
    (ds ds' : List FileDescriptor) (fs fs' : List File) (s s' : Schema) : Prop where
  smaller : s.Resolves rule toGenerate ds fs
  larger : s'.Resolves rule toGenerate' ds' fs'
  subset : ds ⊆ ds'
  names : (ds.flatMap FileDescriptor.declaredNames).Nodup
  names' : (ds'.flatMap FileDescriptor.declaredNames).Nodup
  absolute : FileDescriptor.AbsoluteReferences ds

namespace Within

/-- Each declaration has its like in the larger schema. -/
theorem exists_like (h : Within rule toGenerate toGenerate' ds ds' fs fs' s s') {x : Declared}
    (hx : x ∈ fs.flatMap File.declared) :
    ∃ x' ∈ fs'.flatMap File.declared, x'.unplaced = x.unplaced := by
  obtain ⟨g, hg, hx⟩ := List.mem_flatMap.mp hx
  obtain ⟨j, d, hd, hmade⟩ := exists_of_mem_eachFrom h.smaller.declared hg
  obtain ⟨j', g', hg', hmade'⟩ := exists_of_mem_of_eachFrom h.larger.declared (h.subset hd)
  have hlike := congrArg File.declared (File.declare_unplaced hmade hmade')
  rw [File.declared_revised, File.declared_revised] at hlike
  have hmem : x.unplaced ∈ g'.declared.map Declared.unplaced := by
    rw [← hlike]
    exact List.mem_map.mpr ⟨x, hx, rfl⟩
  obtain ⟨x', hx', hsame⟩ := List.mem_map.mp hmem
  exact ⟨x', List.mem_flatMap.mpr ⟨g', hg', hx'⟩, hsame⟩

/-- A declaration of the larger schema with the full name of one of the smaller is its like. -/
theorem like_of_fullName (h : Within rule toGenerate toGenerate' ds ds' fs fs' s s')
    {x x' : Declared} (hx : x ∈ fs.flatMap File.declared) (hx' : x' ∈ fs'.flatMap File.declared)
    (hname : x.fullName = x'.fullName) : x.unplaced = x'.unplaced := by
  obtain ⟨y, hy, hlike⟩ := h.exists_like hx
  have hyname : y.fullName = x'.fullName :=
    (view_eq_of_forget Declared.unplaced Declared.fullName (Declared.fullName_revised _) hlike).trans hname
  rw [← (h.larger.holds h.names').eq_of_fullName hy hx' hyname, hlike]

/-- A name that finds a declaration finds its like in the larger schema. -/
theorem declared?_like (h : Within rule toGenerate toGenerate' ds ds' fs fs' s s') {name : String}
    {x : Declared} (hx : s.registry.declared? name = some x) :
    ∃ x', s'.registry.declared? name = some x' ∧ x'.unplaced = x.unplaced := by
  obtain ⟨hmem, hname⟩ := (h.smaller.holds h.names).declared?_iff.mp hx
  obtain ⟨x', hx', hlike⟩ := h.exists_like hmem
  refine ⟨x', (h.larger.holds h.names').declared?_iff.mpr ⟨hx', ?_⟩, hlike⟩
  exact (view_eq_of_forget Declared.unplaced Declared.fullName (Declared.fullName_revised _) hlike).trans hname

end Within

end

end Schema

/-! ## Like fields -/

/-- A field at no place and without its reference. -/
def Field.bare (f : Field) : Field :=
  { f.unplaced with descriptor := { f.descriptor with typeName := none } }

/-- Declarations show the same to a field that refers to them. -/
inductive Declared.Like : Declared → Declared → Prop where
  | message {m m' : Message} (hname : m.fullName = m'.fullName)
    (hentry : m.isMapEntry = m'.isMapEntry) : Like (.message m) (.message m')
  | enum {e e' : Enum} (hname : e.fullName = e'.fullName) (hstem : e.sharedStem = e'.sharedStem) :
    Like (.enum e) (.enum e')

/-- A revised declaration shows what it showed before. -/
theorem Declared.like_revised (v : Revision) (x : Declared) : x.Like (x.revised v) := by
  cases x with
  | message m => exact .message (m.fullName_revised v).symm (m.isMapEntry_revised v).symm
  | enum e => exact .enum rfl rfl

theorem Declared.like_of_unplaced {x x' : Declared} (h : x.unplaced = x'.unplaced) :
    x.Like x' := by
  cases x with
  | message m =>
    cases x' with
    | message m' =>
      have hsame : m.unplaced = m'.unplaced := Declared.message.inj h
      exact .message
        (view_eq_of_forget Message.unplaced Message.fullName (Message.fullName_revised _) hsame)
        (view_eq_of_forget Message.unplaced Message.isMapEntry (Message.isMapEntry_revised _) hsame)
    | enum e' => cases h
  | enum e =>
    cases x' with
    | message m' => cases h
    | enum e' =>
      have hsame : e.unplaced = e'.unplaced := Declared.enum.inj h
      exact .enum (view_eq_of_forget Enum.unplaced Enum.fullName (fun _ => rfl) hsame)
        (view_eq_of_forget Enum.unplaced Enum.sharedStem (fun _ => rfl) hsame)

/-- Fields of two schemas are the same up to their place and their reference, and what they refer to
shows them the same. -/
structure Field.Alike (s s' : Schema) (f f' : Field) : Prop where
  same : f.bare = f'.bare
  target : Option.Rel Declared.Like (s.target? f) (s'.target? f')

theorem Field.bare_eq {f f' : Field} (h : f.unplaced = f'.unplaced) : f.bare = f'.bare := by
  show f.unplaced.bare = f'.unplaced.bare
  rw [h]

namespace Schema.Within

variable {rule : PathRule} {toGenerate toGenerate' : List String} {ds ds' : List FileDescriptor}
  {fs fs' : List File} {s s' : Schema} {m m' : Message}

/-- Like fields of like messages refer to like declarations. -/
theorem target_like (h : Within rule toGenerate toGenerate' ds ds' fs fs' s s')
    (hm : .message m ∈ fs.flatMap File.declared) (hm' : .message m' ∈ fs'.flatMap File.declared)
    {f f' : Field} (hf : f ∈ m.fields) (hf' : f' ∈ m'.fields) (hsame : f.unplaced = f'.unplaced) :
    Option.Rel (fun x x' => x.unplaced = x'.unplaced) (s.target? f) (s'.target? f') := by
  have htype : f.type = f'.type := view_eq_of_forget Field.unplaced Field.type (fun _ => rfl) hsame
  have hdescriptor : f.descriptor = f'.descriptor :=
    view_eq_of_forget Field.unplaced Field.descriptor (fun _ => rfl) hsame
  have habs := h.smaller.isAbsolute_reference h.absolute hm hf
  have hfits := (h.smaller.target_found hm hf).1
  rw [htype] at hfits
  have hsome := hfits.isSome_eq (h.larger.target_found hm' hf').1
  cases hx : s.target? f with
  | none =>
    rw [hx] at hsome
    rw [Option.not_isSome_iff_eq_none.mp (Bool.eq_false_iff.mp hsome.symm)]
    exact .none
  | some x =>
    rw [hx] at hsome
    obtain ⟨x', hx'⟩ := Option.isSome_iff_exists.mp hsome.symm
    have hname := h.smaller.fullName_target hm hf habs hx
    have hname' := h.larger.fullName_target hm' hf' (hdescriptor ▸ habs) hx'
    rw [← hdescriptor, hname] at hname'
    rw [hx']
    exact .some (h.like_of_fullName (h.smaller.target_mem hm hf hx)
      (h.larger.target_mem hm' hf' hx') (Option.some.inj hname'))

/-- The fields of like messages are alike. -/
theorem alike (h : Within rule toGenerate toGenerate' ds ds' fs fs' s s')
    (hm : .message m ∈ fs.flatMap File.declared) (hm' : .message m' ∈ fs'.flatMap File.declared)
    (hsame : m.unplaced = m'.unplaced) :
    List.Forall₂ (fun f f' => f.unplaced = f'.unplaced ∧ Field.Alike s s' f f') m.fields
      m'.fields := by
  have hfields : m.fields.map Field.unplaced = m'.fields.map Field.unplaced :=
    ((m.fields_revised .unplaced).symm.trans (congrArg Message.fields hsame)).trans
      (m'.fields_revised .unplaced)
  refine Related.imp_mem (Related.of_map_eq hfields) fun f hf f' hf' hff' => ?_
  exact ⟨hff', Field.bare_eq hff', Related.imp_option (h.target_like hm hm' hf hf' hff')
    fun _ _ => Declared.like_of_unplaced⟩

end Schema.Within

end SchemaScript
