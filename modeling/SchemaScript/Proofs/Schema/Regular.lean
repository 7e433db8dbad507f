import SchemaScript.Proofs.Schema.Resolved

/-!
# Regular files

What the files of a schema must keep to so that all their messages can be described.

No full name starts with a dot, and the entry of a map, however deep it stands, has a key of a
scalar type and a value that is no group.  A compiler keeps to both.  The names in JSON are texts,
as they are in every descriptor but one that is read from bytes which are no text.
`FileDescriptor.Regular` says so.

`Message.HasEntryFields` is what that means for the entries of a resolved schema
(`Schema.Resolves.hasEntryFields`).
-/

namespace SchemaScript

open Outcome

/-! ## Descriptors -/

/-- Whether the fields of a message are those of the entry of a map: a key of a scalar type, and
after it a value that is no group. -/
def MessageDescriptor.hasEntryFields (d : MessageDescriptor) : Bool :=
  match d.fields.map fun f => FieldType.ofCode? f.typeNumber with
  | some (.scalar _) :: some value :: _ => decide (value ≠ .group)
  | _ => false

/-- Files of a schema whose messages can be described. -/
structure FileDescriptor.Regular (ds : List FileDescriptor) : Prop where
  noDot : ∀ n ∈ ds.flatMap FileDescriptor.declaredNames, Registry.isAbsolute n = false
  jsonNames : ∀ d ∈ ds, ∀ m ∈ MessageDescriptor.allMessagesWithin d.messages,
    ∀ f ∈ m.fields, f.hasTextJsonName = true
  entries : ∀ d ∈ ds, ∀ m ∈ MessageDescriptor.allMessagesWithin d.messages,
    m.isMapEntry = true → m.hasEntryFields = true

/-! ## Declarations -/

/-- A message whose fields are those of the entry of a map. -/
def Message.HasEntryFields (m : Message) : Prop :=
  ∃ key value t, m.fields[0]? = some key ∧ m.fields[1]? = some value ∧ key.type = .scalar t ∧
    value.type ≠ .group

theorem Field.declare_type {s : Scope} {messageName : String} {oneofs : List Oneof} {i : Nat}
    {d : FieldDescriptor} {f : Field} (h : Field.declare s messageName oneofs i d = .ok f) :
    FieldType.ofCode? d.typeNumber = some f.type := by
  simp only [Field.declare, bind_eq_ok_iff] at h
  obtain ⟨_, _, _, _, h⟩ := h
  split at h
  · next t ht =>
    split at h
    · simp only [bind_eq_ok_iff, pure_eq_ok_iff] at h
      obtain ⟨_, htype, _, _, _, _, rfl⟩ := h
      cases htype
      exact ht
    · cases h
  · cases h

section

variable {s : Scope} {member : Member} {i : Nat} {d : MessageDescriptor} {m : Message}

theorem Message.declare_types (h : Message.declare s member i d = .ok m) :
    m.fields.map (fun f => some f.type) =
      d.fields.map fun f => FieldType.ofCode? f.typeNumber := by
  obtain ⟨_, _, _, inner, _, hfields, _⟩ := Message.of_declare h
  rw [List.map_eq_flatMap, List.map_eq_flatMap]
  exact flatMap_eachFrom (fun j a _ f hf => by rw [Field.declare_type hf]) hfields

theorem Message.declare_entryFields (h : Message.declare s member i d = .ok m)
    (hd : d.hasEntryFields = true) : m.HasEntryFields := by
  rw [MessageDescriptor.hasEntryFields, ← Message.declare_types h] at hd
  split at hd
  · next t value rest htypes =>
    obtain ⟨key, fs, hfs, hkey, htail⟩ := List.map_eq_cons_iff.mp htypes
    obtain ⟨value', fs', hfs', hvalue, _⟩ := List.map_eq_cons_iff.mp htail
    refine ⟨key, value', t, ?_, ?_, Option.some.inj hkey, ?_⟩
    · rw [hfs]
      rfl
    · rw [hfs, hfs']
      rfl
    · rw [Option.some.inj hvalue]
      exact of_decide_eq_true hd
  · cases hd

end

/-! ## Resolved schemas -/

namespace Schema.Resolves

variable {rule : PathRule} {toGenerate : List String} {ds : List FileDescriptor} {fs : List File}
  {s : Schema} {m : Message}

theorem exists_messageDescriptor (h : Resolves rule toGenerate ds fs s)
    (hm : .message m ∈ fs.flatMap File.declared) :
    ∃ d ∈ ds, ∃ scope member i, ∃ a ∈ MessageDescriptor.allMessagesWithin d.messages,
      Message.declare scope member i a = .ok m := by
  obtain ⟨g, hg, hm⟩ := List.mem_flatMap.mp hm
  obtain ⟨j, d, hd, hfile⟩ := exists_of_mem_eachFrom h.declared hg
  exact ⟨d, hd, File.declare_within hfile hm⟩

theorem hasEntryFields (h : Resolves rule toGenerate ds fs s) (hd : FileDescriptor.Regular ds)
    (hm : .message m ∈ fs.flatMap File.declared) (hentry : m.isMapEntry = true) :
    m.HasEntryFields := by
  obtain ⟨d, hdmem, scope, member, i, a, ha, hmade⟩ := h.exists_messageDescriptor hm
  have hmap : a.isMapEntry = true := by rw [← Message.isMapEntry_declare hmade, hentry]
  exact Message.declare_entryFields hmade (hd.entries d hdmem a ha hmap)

theorem hasTextJsonName (h : Resolves rule toGenerate ds fs s) (hd : FileDescriptor.Regular ds)
    (hm : .message m ∈ fs.flatMap File.declared) {f : Field} (hf : f ∈ m.fields) :
    f.descriptor.hasTextJsonName = true := by
  obtain ⟨d, hdmem, scope, member, i, a, ha, hmade⟩ := h.exists_messageDescriptor hm
  exact hd.jsonNames d hdmem a ha _ (Message.descriptor_mem hmade hf)

end Schema.Resolves

end SchemaScript
