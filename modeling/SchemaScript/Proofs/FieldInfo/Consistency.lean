import SchemaScript.Proofs.FieldInfo.OfField

/-!
# Attributes that fit together

How the attributes of the information about a field depend on each other and on the field.

`FieldInfo.Consistent` says it.  The names, the repetition and the optionality are there.  What
repeats, a map, and a member of a oneof are not optional, and a message is optional if it is none of
these.  A map neither repeats nor has maps for values.  Only enums and scalars other than texts and
bytes are packed.  Only 64-bit integers have a long type, which is never that of texts: it is left
out where the field chooses texts, or chooses nothing in a run whose normal long type is that of
texts.  For the values of a map the value field of its entries chooses.

`FieldInfo.ofField_consistent` shows it of every field that has information, whatever the schema.
-/

namespace SchemaScript

open Outcome

/-! ## Fields of values -/

/-- The field that has the type of the values of a field: the value field of its entries for a map,
and otherwise the field itself. -/
def Schema.valueField? (s : Schema) (f : Field) : Option Field :=
  match s.mapEntry? f with
  | none => some f
  | some entry => entry.fields[1]?

/-- The long type that the options of a field choose, if they choose one. -/
def Field.longWish? (f : Field) : Option LongWish :=
  f.descriptor.options.bind FieldOptions.longWish?

/-- The options of a field choose no long type. -/
def Field.WishesNothing (f : Field) : Prop :=
  f.longWish? = none ∨ f.longWish? = some .normal

/-- The scalar type of the values of a kind, with their long type. -/
def FieldKind.valueScalar? : FieldKind → Option (Value × Option Value)
  | .scalar type long => some (type, long)
  | .map _ value => value.valueScalar?
  | _ => none

/-- The scalar types that are 64-bit integers. -/
def ScalarType.longs : List ScalarType :=
  [.int64, .uint64, .fixed64, .sfixed64, .sint64]

theorem ScalarType.isLong_iff {t : ScalarType} : t.isLong = true ↔ t ∈ longs := by
  cases t <;> decide

namespace FieldInfo

variable {settings : Settings} {s : Schema} {f : Field} {k : FieldKind} {t : ScalarType}

/-! ## Kinds -/

theorem valueKindOf_cases (h : valueKindOf settings s f = .ok k) :
    (∃ m : Message, f.type = .message ∧ k = .message m.fullName) ∨
      (∃ e : Enum, f.type = .enumeration ∧ k = .enumeration e.fullName e.sharedStem) ∨
      ∃ t, f.type = .scalar t ∧ k = .scalar (.scalar (.constant (.scalar t)))
        ((longTypeOf settings f t).map fun l => .scalar (.constant (.long l))) := by
  unfold valueKindOf at h
  split at h
  · next m htype _ => cases h; exact .inl ⟨m, htype, rfl⟩
  · next e htype _ => cases h; exact .inr (.inl ⟨e, htype, rfl⟩)
  · obtain ⟨t, ht, h⟩ := bind_eq_ok_iff.mp h
    cases h
    unfold scalarTypeOf at ht
    split at ht
    · next htype => cases ht; exact .inr (.inr ⟨_, htype, rfl⟩)
    · cases ht

theorem isMap_of_valueKindOf (h : valueKindOf settings s f = .ok k) : k.isMap = false := by
  obtain ⟨_, _, rfl⟩ | ⟨_, _, rfl⟩ | ⟨_, _, rfl⟩ := valueKindOf_cases h <;> rfl

/-- A field of a map kind is a map, and the values of its kind are none. -/
theorem map_of_kindOf {key : Value} {value : FieldKind}
    (h : kindOf settings s f = .ok (.map key value)) : s.isMap f = true ∧ value.isMap = false := by
  obtain ⟨_, ⟨_, hk⟩ | ⟨entry, _, _, _, _, hentry, _, _, _, hk, heq⟩⟩ := kindOf_ok h
  · cases isMap_of_valueKindOf hk
  · cases heq
    exact ⟨by rw [Schema.isMap, hentry]; rfl, isMap_of_valueKindOf hk⟩

/-- The scalar type of the values is the type of the field that has it, and the long type is the one
that is chosen there. -/
theorem valueScalar?_of_kindOf (h : kindOf settings s f = .ok k) {type : Value}
    {long : Option Value} (hscalar : k.valueScalar? = some (type, long)) :
    ∃ g t, s.valueField? f = some g ∧ g.type = .scalar t ∧
      type = .scalar (.constant (.scalar t)) ∧
      long = (longTypeOf settings g t).map fun l => .scalar (.constant (.long l)) := by
  have hvalue {g : Field} {k : FieldKind} (hk : valueKindOf settings s g = .ok k)
      (hscalar : k.valueScalar? = some (type, long)) :
      ∃ t, g.type = .scalar t ∧ type = .scalar (.constant (.scalar t)) ∧
        long = (longTypeOf settings g t).map fun l => .scalar (.constant (.long l)) := by
    obtain ⟨_, _, rfl⟩ | ⟨_, _, rfl⟩ | ⟨t, htype, rfl⟩ := valueKindOf_cases hk <;> cases hscalar
    exact ⟨t, htype, rfl, rfl⟩
  obtain ⟨_, ⟨hentry, hk⟩ | ⟨_, _, g, _, _, hentry, _, hg, _, hk, rfl⟩⟩ := kindOf_ok h
  · obtain ⟨t, ht⟩ := hvalue hk hscalar
    exact ⟨f, t, by rw [Schema.valueField?, hentry], ht⟩
  · obtain ⟨t, ht⟩ := hvalue hk hscalar
    exact ⟨g, t, by rw [Schema.valueField?, hentry]; exact hg, ht⟩

/-! ## Long types -/

theorem longTypeOf_eq_some {l : LongType} (h : longTypeOf settings f t = some l) :
    t.isLong = true ∧ l ≠ .string := by
  unfold longTypeOf at h
  split at h
  · next hlong =>
    refine ⟨hlong, ?_⟩
    split at h
    · cases h
    · cases h; decide
    · split at h
      · cases h
      · next hnormal => cases h; exact hnormal
  · cases h

/-- A 64-bit integer is without a long type if its field chooses texts, or chooses nothing and texts
are normal. -/
theorem longTypeOf_eq_none_iff (hlong : t.isLong = true) : longTypeOf settings f t = none ↔
    f.longWish? = some .string ∨ f.WishesNothing ∧ settings.normalLong = .string := by
  unfold longTypeOf Field.WishesNothing Field.longWish?
  rw [if_pos hlong]
  generalize f.descriptor.options.bind FieldOptions.longWish? = wish
  rcases wish with _ | _ | _ | _ <;> simp

/-! ## Repetition -/

theorem repetitionOf_eq_no_iff : repetitionOf s f = .no ↔ s.isList f = false := by
  unfold repetitionOf
  cases s.isList f with
  | false => simp
  | true =>
    simp only [Bool.not_true, Bool.false_eq_true, if_false, Bool.true_eq_false, iff_false]
    split
    · nofun
    · split <;> split <;> nofun

theorem repetitionOf_eq_packed (h : repetitionOf s f = .packed) :
    s.isList f = true ∧ isPackable f.type = true := by
  unfold repetitionOf at h
  split at h
  · cases h
  · next hlist =>
    split at h
    · cases h
    · next hpackable => exact ⟨by simpa using hlist, by simpa using hpackable⟩

theorem not_isList_of_isMap (h : s.isMap f = true) : s.isList f = false := by
  rw [Schema.isList, h, Bool.not_true, Bool.and_false]

/-- What is packed is an enum, or a scalar other than texts and bytes. -/
theorem kindOf_of_packed (h : repetitionOf s f = .packed) (hk : kindOf settings s f = .ok k) :
    (∃ typeName stem, k = .enumeration typeName stem) ∨
      ∃ t long, k = .scalar (.scalar (.constant (.scalar t))) long ∧ t ≠ .string ∧ t ≠ .bytes := by
  obtain ⟨hlist, hpackable⟩ := repetitionOf_eq_packed h
  obtain ⟨_, ⟨_, hk⟩ | ⟨entry, _, _, _, _, hentry, _⟩⟩ := kindOf_ok hk
  · obtain ⟨_, htype, rfl⟩ | ⟨_, _, rfl⟩ | ⟨t, htype, rfl⟩ := valueKindOf_cases hk
    · rw [htype] at hpackable
      cases hpackable
    · exact .inl ⟨_, _, rfl⟩
    · refine .inr ⟨t, _, rfl, ?_, ?_⟩ <;> rintro rfl <;> rw [htype] at hpackable <;> cases hpackable
  · have hmap : s.isMap f = true := by rw [Schema.isMap, hentry]; rfl
    rw [not_isList_of_isMap hmap] at hlist
    cases hlist

/-! ## Optionality -/

theorem optionalOf_eq_false (h : f.cardinality = .repeated ∨ s.isMap f = true ∨
    f.realOneof.isSome = true) : optionalOf s f (repetitionOf s f) = false := by
  by_cases hblocked : repetitionOf s f ≠ .no ∨ s.isMap f = true
  · exact if_pos hblocked
  · rw [optionalOf, if_neg hblocked]
    obtain ⟨hno, hmap⟩ := not_or.mp hblocked
    have hlist := repetitionOf_eq_no_iff.mp (not_not.mp hno)
    rcases h with hrepeated | hmap' | honeof
    · rw [Schema.isList, hrepeated, eq_false_of_ne_true hmap] at hlist
      cases hlist
    · exact absurd hmap' hmap
    · exact if_pos honeof

/-! ## Fields -/

/-- The attributes of the information about a field fit together and fit the field. -/
structure Consistent (settings : Settings) (s : Schema) (f : Field) (i : FieldInfo) : Prop where
  localName : i.localName.isSome
  jsonName : i.jsonName.isSome
  repetition : ∃ r, i.repetition = some (.scalar (.constant (.repetition r)))
  optional : i.optional.isSome
  notOptional : f.cardinality = .repeated ∨ s.isMap f = true ∨ f.realOneof.isSome = true →
    i.optional = some false
  message : i.kind.isMessage = true → (i.optional = some true ↔
    i.repetition = some (.scalar (.constant (.repetition .no))) ∧ i.oneof = none)
  map : ∀ key value, i.kind = .map key value →
    i.repetition = some (.scalar (.constant (.repetition .no))) ∧ i.optional = some false ∧
      value.isMap = false
  packed : i.repetition = some (.scalar (.constant (.repetition .packed))) →
    (∃ typeName stem, i.kind = .enumeration typeName stem) ∨
      ∃ t long, i.kind = .scalar (.scalar (.constant (.scalar t))) long ∧
        t ≠ .string ∧ t ≠ .bytes
  long : ∀ type long, i.kind.valueScalar? = some (type, long) →
    ∃ g t, s.valueField? f = some g ∧ type = .scalar (.constant (.scalar t)) ∧
      (∀ v ∈ long, t ∈ ScalarType.longs ∧
        ∃ l, v = .scalar (.constant (.long l)) ∧ l ≠ .string) ∧
      (t ∈ ScalarType.longs → (long = none ↔
        g.longWish? = some .string ∨ g.WishesNothing ∧ settings.normalLong = .string))

/-- The information about a field is consistent, whenever the field has any. -/
theorem ofField_consistent {i : FieldInfo} (h : ofField settings s f = .ok i) :
    i.Consistent settings s f := by
  simp only [ofField, bind_eq_ok_iff, pure_eq_ok_iff] at h
  obtain ⟨k, hk, options, _, rfl⟩ := h
  constructor
  case localName => rfl
  case jsonName => rfl
  case repetition => exact ⟨_, rfl⟩
  case optional => rfl
  case notOptional =>
    intro h
    exact congrArg some (optionalOf_eq_false h)
  case message =>
    intro hmessage
    obtain ⟨htype, hmap⟩ := message_of_kindOf hk hmessage
    simp [optionalOf_message htype hmap]
  case map =>
    rintro key value rfl
    obtain ⟨hmap, hvalue⟩ := map_of_kindOf hk
    have hno : repetitionOf s f = .no := repetitionOf_eq_no_iff.mpr (not_isList_of_isMap hmap)
    refine ⟨by rw [hno], congrArg some (optionalOf_eq_false (.inr (.inl hmap))), hvalue⟩
  case packed =>
    intro hpacked
    simp only [Option.some.injEq, Value.scalar.injEq, Scalar.constant.injEq,
      Constant.repetition.injEq] at hpacked
    exact kindOf_of_packed hpacked hk
  case long =>
    intro type long hscalar
    obtain ⟨g, t, hg, _, htype, rfl⟩ := valueScalar?_of_kindOf hk hscalar
    refine ⟨g, t, hg, htype, fun v hv => ?_, fun hlong => ?_⟩
    · obtain ⟨l, hl, rfl⟩ := Option.map_eq_some_iff.mp hv
      obtain ⟨hlong, hstring⟩ := longTypeOf_eq_some hl
      exact ⟨ScalarType.isLong_iff.mp hlong, l, rfl, hstring⟩
    · rw [Option.map_eq_none_iff]
      exact longTypeOf_eq_none_iff (ScalarType.isLong_iff.mpr hlong)

/-- A repeated 64-bit integer is packed, and has no long type where texts are normal. -/
theorem ofField_consistent_of_sizes :
    ∃ m f i, Schema.sampleSchema.registry.messages.get? "p.Tree" = some m ∧
      m.fields[3]? = some f ∧ ofField ⟨.string, none⟩ Schema.sampleSchema f = .ok i ∧
      i.Consistent ⟨.string, none⟩ Schema.sampleSchema f ∧
      i.kind = .scalar (.scalar (.constant (.scalar .uint64))) none ∧
      i.repetition = some (.scalar (.constant (.repetition .packed))) := by
  have hfound : ((Schema.sampleSchema.registry.messages.get? "p.Tree").any fun m =>
      m.fields[3]?.any fun f =>
        (ofField ⟨.string, none⟩ Schema.sampleSchema f).toOption.any fun i =>
          i.kind = .scalar (.scalar (.constant (.scalar .uint64))) none ∧
            i.repetition = some (.scalar (.constant (.repetition .packed)))) = true := by
    decide +kernel
  obtain ⟨m, hm, hfound⟩ := (Option.any_eq_true _ _).mp hfound
  obtain ⟨f, hf, hfound⟩ := (Option.any_eq_true _ _).mp hfound
  obtain ⟨i, hi, hattributes⟩ := (Option.any_eq_true _ _).mp hfound
  obtain ⟨hkind, hrepetition⟩ := of_decide_eq_true hattributes
  have hi := toOption_eq_some_iff.mp hi
  exact ⟨m, f, i, hm, hf, hi, ofField_consistent hi, hkind, hrepetition⟩

end FieldInfo

end SchemaScript
