import SchemaScript.Proofs.FieldInfo.OfField
import SchemaScript.Proofs.Spelling

/-!
# Names of properties

Which names the properties of a message get from its fields and oneofs.

A field never hides a property that every object has: a dollar sign after its name makes sure of it.
The name of a oneof becomes a property as well, and there the rule is not applied.  So a oneof hides
a property exactly if its name spells it in camel case.  For `__proto__` no name does, since camel
case drops underscores.  For the two others `TwoWords.Spells` says which names do, such as
`to_string` and `ToString`.

`FieldInfo.ofField_propertyNames` says both, and `FieldInfo.not_safe_oneofName` gives a message whose
oneof hides a property.
-/

namespace SchemaScript

open Outcome

/-! ## Properties of objects -/

/-- The spellings of `toString`.  The long s has the capital form `S` as well. -/
def toStringWords : TwoWords :=
  ⟨'t', ['t', 'T'], ['o'], 'S', ['S', 's', 'ſ'], ['t', 'r', 'i', 'n', 'g']⟩

/-- The spellings of `oneofKind`. -/
def oneofKindWords : TwoWords :=
  ⟨'o', ['o', 'O'], ['n', 'e', 'o', 'f'], 'K', ['K', 'k'], ['i', 'n', 'd']⟩

theorem lawful_toStringWords : toStringWords.Lawful :=
  TwoWords.lawful_of_isLawful (by decide +kernel)

theorem lawful_oneofKindWords : oneofKindWords.Lawful :=
  TwoWords.lawful_of_isLawful (by decide +kernel)

/-- A name with the dollar sign is no property of objects, and neither is one that needs none. -/
theorem safeProperty_not_mem (name : String) : safeProperty name ∉ objectProperties := by
  unfold safeProperty
  split
  · next hmem =>
    simp only [objectProperties, List.mem_cons, List.not_mem_nil, or_false] at hmem
    rcases hmem with rfl | rfl | rfl <;> decide +kernel
  · next hname => exact hname

/-- A name is a property of objects in camel case exactly if it spells one of two words. -/
theorem lowerCamelCase_mem_objectProperties_iff (name : String) :
    lowerCamelCase name ∈ objectProperties ↔
      toStringWords.Spells name ∨ oneofKindWords.Spells name := by
  have hproto : lowerCamelCase name ≠ "__proto__" := by
    intro h
    have hmem : '_' ∈ (lowerCamelCase name).toList := by
      rw [h]
      decide
    rw [lowerCamelCase, String.toList_ofList] at hmem
    exact underscore_not_mem_camelChars _ hmem
  rw [← lawful_toStringWords.lowerCamelCase_eq_iff, ← lawful_oneofKindWords.lowerCamelCase_eq_iff,
    show String.ofList toStringWords.chars = "toString" from by decide,
    show String.ofList oneofKindWords.chars = "oneofKind" from by decide]
  simp [objectProperties, hproto]

namespace FieldInfo

variable {settings : Settings} {s : Schema} {f : Field}

/-! ## Fields -/

/-- The name of a field hides no property of objects, and that of its oneof hides one exactly if it
spells one. -/
theorem ofField_propertyNames {i : FieldInfo} (h : ofField settings s f = .ok i) :
    (∃ name, i.localName = some name ∧ name ∉ objectProperties) ∧
      i.oneof.isSome = f.realOneof.isSome ∧
        ∀ o, f.realOneof = some o → ∃ name, i.oneof = some name ∧ (name ∈ objectProperties ↔
          toStringWords.Spells o.name ∨ oneofKindWords.Spells o.name) := by
  simp only [ofField, bind_eq_ok_iff, pure_eq_ok_iff] at h
  obtain ⟨k, _, options, _, rfl⟩ := h
  refine ⟨⟨_, rfl, safeProperty_not_mem _⟩, Option.isSome_map, fun o ho => ?_⟩
  exact ⟨lowerCamelCase o.name, by rw [ho]; rfl, lowerCamelCase_mem_objectProperties_iff o.name⟩

/-! ## A message that hides a property -/

/-- A message with a field `toString` in a oneof `to_string`. -/
def hidingFile : FileDescriptor :=
  Schema.sampleFile "hiding.proto" "p" []
    [{ Schema.sampleMessage "Hiding" false
        [{ Schema.sampleField "toString" 1 1 5 none with oneofIndex := some 0 }] [] with
      oneofs := [⟨"to_string", .none⟩] }] []

/-- The settings of a run without parameters. -/
def plainSettings : Settings :=
  ⟨.bigint, none⟩

theorem exists_hiding :
    ∃ s m f o i, Schema.resolve defaultPathRule ["hiding.proto"] [hidingFile] = .ok s ∧
      s.registry.messages.get? "p.Hiding" = some m ∧ m.fields[0]? = some f ∧
      f.realOneof = some o ∧ o.name = "to_string" ∧ ofField plainSettings s f = .ok i ∧
      i.localName = some "toString$" ∧ i.oneof = some "toString" := by
  have hfound : ((Schema.resolve defaultPathRule ["hiding.proto"] [hidingFile]).toOption.any fun s =>
      (s.registry.messages.get? "p.Hiding").any fun m => m.fields[0]?.any fun f =>
        f.realOneof.any fun o => o.name = "to_string" ∧
          (ofField plainSettings s f).toOption.any fun i =>
            i.localName = some "toString$" ∧ i.oneof = some "toString") = true := by
    decide +kernel
  obtain ⟨s, hs, hfound⟩ := (Option.any_eq_true _ _).mp hfound
  obtain ⟨m, hm, hfound⟩ := (Option.any_eq_true _ _).mp hfound
  obtain ⟨f, hf, hfound⟩ := (Option.any_eq_true _ _).mp hfound
  obtain ⟨o, ho, hfound⟩ := (Option.any_eq_true _ _).mp hfound
  obtain ⟨hname, hfound⟩ := of_decide_eq_true hfound
  obtain ⟨i, hi, hfound⟩ := (Option.any_eq_true _ _).mp hfound
  obtain ⟨hlocal, honeof⟩ := of_decide_eq_true hfound
  exact ⟨s, m, f, o, i, toOption_eq_some_iff.mp hs, hm, hf, ho, hname,
    toOption_eq_some_iff.mp hi, hlocal, honeof⟩

/-- The field is given another name, and the oneof spells a property. -/
theorem ofField_propertyNames_of_hiding :
    ∃ s f o i, ofField plainSettings s f = .ok i ∧ f.realOneof = some o ∧ o.name = "to_string" ∧
      (∃ name, i.localName = some name ∧ name ∉ objectProperties) ∧
      toStringWords.Spells o.name := by
  obtain ⟨s, m, f, o, i, _, _, _, ho, hname, hi, _, honeof⟩ := exists_hiding
  obtain ⟨hlocal, _, honeofs⟩ := ofField_propertyNames hi
  obtain ⟨name, hname', hiff⟩ := honeofs o ho
  rw [honeof] at hname'
  have hspells := hiff.mp (Option.some.inj hname' ▸ by decide)
  refine ⟨s, f, o, i, hi, ho, hname, hlocal, hspells.resolve_right ?_⟩
  rw [← lawful_oneofKindWords.lowerCamelCase_eq_iff, hname]
  decide +kernel

/-- The name of a oneof does not always keep off the properties of objects. -/
theorem not_safe_oneofName :
    ¬ ∀ (rule : PathRule) (toGenerate : List String) (ds : List FileDescriptor) (s : Schema),
      Schema.resolve rule toGenerate ds = .ok s → ∀ settings, ∀ m ∈ s.registry.messages.values,
        ∀ f ∈ m.fields, ∀ i, ofField settings s f = .ok i →
          (∀ name ∈ i.localName, name ∉ objectProperties) ∧
            ∀ name ∈ i.oneof, name ∉ objectProperties := by
  intro hall
  obtain ⟨s, m, f, o, i, hs, hm, hf, _, _, hi, _, honeof⟩ := exists_hiding
  have hsafe := hall _ _ _ s hs plainSettings m (Table.mem_values_of_get? hm) f
    (List.mem_of_getElem? hf) i hi
  exact hsafe.2 "toString" honeof (by decide)

end FieldInfo

end SchemaScript
