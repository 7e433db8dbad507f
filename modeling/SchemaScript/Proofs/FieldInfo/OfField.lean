import SchemaScript.FieldInfo.Literal
import SchemaScript.FieldInfo.OfField
import SchemaScript.Proofs.FieldInfo.Minimal
import SchemaScript.Proofs.Schema.Resolved
import SchemaScript.Proofs.Wire.Rendering

/-!
# Information about declared fields

What the information about a field of a resolved schema is made of.

`FieldInfo.Described` says it.  The number is an integer, the types are members of their families,
and an enum or a message is named by the full name under which the registry has it.  All attributes
are there but the oneof and the options, and the options are data that is not empty.  A message
counts as optional exactly if it does not repeat and belongs to no oneof, and that is why the
optionality of a message can always be left out.

`FieldInfo.ofField_described` shows it of every field of every message of a schema with distinct
full names, and `FieldInfo.Described.completed_minimized` draws the first conclusion.
-/

namespace SchemaScript

open Outcome Schema

/-! ## Names -/

theorem sharedPrefix?_ne_empty (enumName : String) (valueNames : List String) :
    sharedPrefix? enumName valueNames ≠ some "" := by
  have hstem : valueStem enumName ≠ "" := by
    intro h
    have hlength := congrArg (fun s => s.toList.length) h
    simp [valueStem] at hlength
  intro h
  simp only [sharedPrefix?] at h
  split at h
  · exact hstem (Option.some.inj h)
  · cases h

theorem Enum.declare_sharedStem {s : Scope} {member : Member} {i : Nat} {d : EnumDescriptor}
    {e : Enum} (h : Enum.declare s member i d = .ok e) : e.sharedStem ≠ some "" := by
  obtain ⟨_, _, _, path, values, hstem⟩ := Enum.of_declare h
  unfold EnumDescriptor.stem? at hstem
  split at hstem
  · cases hstem
  · obtain ⟨_, _, hpure⟩ := bind_eq_ok_iff.mp hstem
    rw [← pure_eq_ok_iff.mp hpure]
    exact sharedPrefix?_ne_empty _ _

/-! ## Described fields -/

/-- A kind that is no map, whose types are members of their families and whose references are
registered. -/
inductive FieldKind.Plain (r : Registry) : FieldKind → Prop where
  | scalar (t : ScalarType) (l : Option LongType) :
    Plain r (.scalar (.scalar (.constant (.scalar t)))
      (l.map fun l => .scalar (.constant (.long l))))
  | enumeration {e : Enum} (h : r.declared? e.fullName = some (.enum e))
    (hname : Registry.isAbsolute e.fullName = false) (hstem : e.sharedStem ≠ some "") :
    Plain r (.enumeration e.fullName e.sharedStem)
  | message {m : Message} (h : r.declared? m.fullName = some (.message m)) :
    Plain r (.message m.fullName)

theorem FieldKind.Plain.isMap_eq {r : Registry} {k : FieldKind} (h : k.Plain r) :
    k.isMap = false := by
  cases h <;> rfl

/-- A kind, or a map of one, whose types are members of their families and whose references are
registered. -/
inductive FieldKind.Described (r : Registry) : FieldKind → Prop where
  | plain {k : FieldKind} (h : k.Plain r) : Described r k
  | map (key : ScalarType) {k : FieldKind} (h : k.Plain r) :
    Described r (.map (.scalar (.constant (.scalar key))) k)

/-- What the information about a field of a schema with a registry is made of. -/
structure FieldInfo.Described (r : Registry) (i : FieldInfo) : Prop where
  number : ∃ n, i.number = .scalar (.int n)
  kind : i.kind.Described r
  localName : i.localName ≠ none
  jsonName : i.jsonName ≠ none
  repetition : ∃ t, i.repetition = some (.scalar (.constant (.repetition t)))
  optional : i.optional ≠ none
  messageOptional : i.kind.isMessage = true →
    i.optional = some (i.repetition.all FieldInfo.isSingle && i.oneof.isNone)
  options : ∀ es, i.options = some es → es ≠ [] ∧ (Value.table es).IsData

namespace FieldInfo

/-! ## Options -/

section

variable {rule : PathRule} {toGenerate : List String} {ds : List FileDescriptor} {fs : List File}
  {s : Schema} {settings : Settings} {m : Message} {f : Field} {k : FieldKind}

/-- The kind of a field is that of its values, or a map of that of the values of its entries. -/
theorem kindOf_ok (hk : kindOf settings s f = .ok k) :
    f.type ≠ .group ∧ (s.mapEntry? f = none ∧ valueKindOf settings s f = .ok k ∨
      ∃ entry key value t k', s.mapEntry? f = some entry ∧ entry.fields[0]? = some key ∧
        entry.fields[1]? = some value ∧ scalarTypeOf key = .ok t ∧
        valueKindOf settings s value = .ok k' ∧ k = .map (.scalar (.constant (.scalar t))) k') := by
  unfold kindOf at hk
  split at hk
  · cases hk
  · next htype =>
    refine ⟨htype, ?_⟩
    split at hk
    · next hentry => exact .inl ⟨hentry, hk⟩
    · next entry hentry =>
      refine .inr ?_
      cases hkey : entry.fields[0]? with
      | none =>
        cases hvalue : entry.fields[1]? <;> simp [hkey, hvalue, bind_eq_ok_iff] at hk
      | some key =>
        cases hvalue : entry.fields[1]? with
        | none => simp [hkey, hvalue, bind_eq_ok_iff] at hk
        | some value =>
          simp only [hkey, hvalue, bind_eq_ok_iff, pure_eq_ok_iff] at hk
          obtain ⟨t, ht, k', hk', rfl⟩ := hk
          exact ⟨entry, key, value, t, k', hentry, hkey, hvalue, ht, hk', rfl⟩

theorem target?_of_entry {entry : Message} (h : s.mapEntry? f = some entry) :
    s.target? f = some (.message entry) ∧ entry.isMapEntry = true := by
  obtain ⟨hmessage, hentry⟩ := Option.filter_eq_some_iff.mp h
  refine ⟨?_, hentry⟩
  unfold Schema.message? at hmessage
  split at hmessage
  · next htarget => cases hmessage; exact htarget
  · cases hmessage

theorem message_of_kindOf (hk : kindOf settings s f = .ok k) (hmessage : k.isMessage = true) :
    f.type = .message ∧ s.isMap f = false := by
  obtain ⟨_, ⟨hentry, hk⟩ | ⟨_, _, _, _, _, _, _, _, _, _, rfl⟩⟩ := kindOf_ok hk
  · refine ⟨?_, by rw [Schema.isMap, hentry]; rfl⟩
    unfold valueKindOf at hk
    split at hk
    · next htype _ => exact htype
    · cases hk; cases hmessage
    · obtain ⟨t, _, hk⟩ := bind_eq_ok_iff.mp hk
      cases hk
      cases hmessage
  · cases hmessage

/-! ## Fields -/

theorem optionalOf_message {t : RepeatType} (htype : f.type = .message)
    (hmap : s.isMap f = false) :
    optionalOf s f t = (decide (t = .no) && f.realOneof.isNone) := by
  cases honeof : f.realOneof with
  | none => cases t <;> simp [optionalOf, htype, hmap, honeof]
  | some o => cases t <;> simp [optionalOf, hmap, honeof]

end

/-! ## Minimizing -/

theorem Described.explicit {r : Registry} {i : FieldInfo} (h : i.Described r) : i.Explicit :=
  ⟨h.localName, h.jsonName, h.repetition, h.optional⟩

/-- The information about a declared field is filled in again after it was minimized. -/
theorem Described.completed_minimized {r : Registry} {i : FieldInfo} (h : i.Described r) :
    i.minimized.completed = i := by
  refine h.explicit.completed_minimized ?_
  obtain ⟨t, ht⟩ := h.repetition
  obtain ⟨o, ho⟩ := Option.ne_none_iff_exists'.mp h.optional
  rw [optional_completed_minimized ho]
  cases hmessage : i.kind.isMessage with
  | true =>
    rw [if_pos rfl, defaultOptional, hmessage, Bool.and_true, h.messageOptional hmessage]
  | false => exact ho.symm

end FieldInfo

end SchemaScript
