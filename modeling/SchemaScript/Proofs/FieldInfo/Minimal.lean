import SchemaScript.FieldInfo.Basic
import SchemaScript.Proofs.Related

/-!
# Minimal information

What minimizing leaves of the information about a field, and when it can be filled in again.

Minimizing twice is minimizing once.  Of information in which everything is said that has a default,
all of it comes back but one thing: a message field counts as optional exactly if it does not repeat
and is in no oneof, and where the information says otherwise that is lost.

What minimizing leaves is necessary.  Any information that is completed to the same says all of it
as well (`FieldInfo.minimized_below`), so the minimized information is the least that does.

Information is compared as values are (`Value.Equal`): a number is equal to whatever stands for the
same number, and the order of the entries in a table does not count.
-/

namespace SchemaScript

/-! ## Equal values -/

namespace Value

mutual

/-- Whether two values are equal that need not be one and the same.  Lists and tuples are compared
part by part, tables by the values of their keys in any order, and scalars as keys are. -/
def alike : Value → Value → Bool
  | .list as, .list bs => alikeAll as bs
  | .tuple as, .tuple bs => alikeAll as bs
  | .table as, .table bs => as.length == bs.length && alikeEntries bs as
  | a, b => a.same b

/-- Whether the values of two lists are equal one by one. -/
def alikeAll : List Value → List Value → Bool
  | [], [] => true
  | a :: as, b :: bs => (decide (a = b) || alike a b) && alikeAll as bs
  | _, _ => false

/-- Whether all entries of a list have equal entries among others. -/
def alikeEntries (others : List (Value × Value)) : List (Value × Value) → Bool
  | [] => true
  | (key, v) :: rest =>
    (others.any fun e => (decide (key = e.1) || key.same e.1) && (decide (v = e.2) || alike v e.2)) &&
      alikeEntries others rest

end

/-- Two values are equal: they are the same value, or they compare as equal. -/
def Equal (a b : Value) : Prop :=
  a = b ∨ a.alike b = true

theorem Equal.refl (a : Value) : a.Equal a :=
  .inl rfl

/-- Equal values stand for the same number, if for any. -/
theorem Equal.number?_eq {a b : Value} (h : a.Equal b) : a.number? = b.number? := by
  rcases h with rfl | h
  · rfl
  · cases a with
    | scalar s =>
      cases b with
      | scalar t =>
        simp only [alike, same, Scalar.same] at h
        simp only [number?]
        cases hs : s.number? <;> cases ht : t.number? <;> simp_all
      | _ => simp [alike, same] at h
    | _ => cases b <;> simp_all [alike, same, number?]

end Value

/-! ## Equal information -/

/-- Two kinds are equal: they are of one sort, with equal parts. -/
inductive FieldKind.Equal : FieldKind → FieldKind → Prop where
  | scalar {s t : Value} {l m : Option Value} (type : s.Equal t) (long : Option.Rel Value.Equal l m) :
    Equal (.scalar s l) (.scalar t m)
  | enumeration (typeName : String) (sharedStem : Option String) :
    Equal (.enumeration typeName sharedStem) (.enumeration typeName sharedStem)
  | message (typeName : String) : Equal (.message typeName) (.message typeName)
  | map {j k : Value} {v w : FieldKind} (key : j.Equal k) (value : Equal v w) :
    Equal (.map j v) (.map k w)

theorem FieldKind.Equal.refl (k : FieldKind) : k.Equal k := by
  induction k with
  | scalar type long => exact .scalar (.refl type) (Related.option_refl Value.Equal.refl long)
  | enumeration typeName sharedStem => exact .enumeration typeName sharedStem
  | message typeName => exact .message typeName
  | map key value ih => exact .map (.refl key) ih

theorem FieldKind.Equal.isMessage_eq {k l : FieldKind} (h : k.Equal l) :
    k.isMessage = l.isMessage := by
  cases h <;> rfl

namespace FieldInfo

/-- Two pieces of information are equal in every attribute. -/
structure Equal (i j : FieldInfo) : Prop where
  number : i.number.Equal j.number
  name : i.name = j.name
  kind : i.kind.Equal j.kind
  localName : i.localName = j.localName
  jsonName : i.jsonName = j.jsonName
  oneof : i.oneof = j.oneof
  repetition : Option.Rel Value.Equal i.repetition j.repetition
  optional : i.optional = j.optional
  options : Option.Rel (fun as bs => (Value.table as).Equal (.table bs)) i.options j.options

/-- Whatever one piece of information says of a field, the other says as well. -/
structure Below (i j : FieldInfo) : Prop where
  number : j.number.Equal i.number
  name : j.name = i.name
  kind : j.kind.Equal i.kind
  localName : ∀ s, i.localName = some s → j.localName = some s
  jsonName : ∀ s, i.jsonName = some s → j.jsonName = some s
  oneof : ∀ s, i.oneof = some s → j.oneof = some s
  repetition : ∀ v, i.repetition = some v → ∃ v', j.repetition = some v' ∧ v'.Equal v
  optional : ∀ b, i.optional = some b → j.optional = some b
  options : ∀ es, i.options = some es →
    ∃ es', j.options = some es' ∧ (Value.table es').Equal (.table es)

/-- Nothing is left to a default: both names, the repetition and whether the field is optional are
said. -/
structure Explicit (i : FieldInfo) : Prop where
  localName : i.localName ≠ none
  jsonName : i.jsonName ≠ none
  repetition : ∃ r, i.repetition = some (.scalar (.constant (.repetition r)))
  optional : i.optional ≠ none

/-! ## Minimizing twice -/

theorem unlessEq_unlessEq (value : String) (given : Option String) :
    unlessEq value (unlessEq value given) = unlessEq value given := by
  by_cases h : given = some value
  · simp [unlessEq, h]
  · simp [unlessEq, h]

theorem unlessEq_eq_some_iff {value s : String} {given : Option String} :
    unlessEq value given = some s ↔ given = some s ∧ s ≠ value := by
  unfold unlessEq
  split
  · next h => simp [h, eq_comm]
  · next h =>
    refine ⟨fun hs => ⟨hs, fun heq => h (heq ▸ hs)⟩, And.left⟩

theorem minimized_minimized (i : FieldInfo) : i.minimized.minimized = i.minimized := by
  have hlocal := unlessEq_unlessEq i.defaultName i.localName
  have hjson := unlessEq_unlessEq i.defaultName i.jsonName
  have hrepetition : (i.repetition.filter fun r => !isSingle r).filter (fun r => !isSingle r) =
      i.repetition.filter fun r => !isSingle r := by
    simp [Option.filter_filter]
  have hoptional : (i.optional.filter fun o => o && !i.kind.isMessage).filter
      (fun o => o && !i.kind.isMessage) = i.optional.filter fun o => o && !i.kind.isMessage := by
    simp [Option.filter_filter]
  show { i with
    localName := unlessEq i.defaultName (unlessEq i.defaultName i.localName)
    jsonName := unlessEq i.defaultName (unlessEq i.defaultName i.jsonName)
    repetition := (i.repetition.filter fun r => !isSingle r).filter fun r => !isSingle r
    optional := (i.optional.filter fun o => o && !i.kind.isMessage).filter
      fun o => o && !i.kind.isMessage } = i.minimized
  rw [hlocal, hjson, hrepetition, hoptional]
  rfl

/-! ## Filling in again -/

theorem unlessEq_getD (value : String) {given : Option String} (h : given ≠ none) :
    some ((unlessEq value given).getD value) = given := by
  unfold unlessEq
  split
  · next heq => rw [heq]; rfl
  · obtain ⟨s, rfl⟩ := Option.ne_none_iff_exists'.mp h
    rfl

/-- Minimizing does not move the default of optionality, though it takes the repetition away that
this depends on. -/
theorem defaultOptional_minimized (i : FieldInfo) :
    i.minimized.defaultOptional = i.defaultOptional := by
  have hall : (i.repetition.filter fun r => !isSingle r).all isSingle = i.repetition.all isSingle := by
    cases i.repetition with
    | none => rfl
    | some r => cases h : isSingle r <;> simp [h]
  show ((i.repetition.filter fun r => !isSingle r).all isSingle && i.oneof.isNone &&
    i.kind.isMessage) = i.defaultOptional
  rw [hall]
  rfl

/-- What a message field says of its optionality is replaced by the default.  Any other field keeps
it. -/
theorem optional_completed_minimized {i : FieldInfo} {o : Bool} (ho : i.optional = some o) :
    i.minimized.completed.optional =
      some (if i.kind.isMessage then i.defaultOptional else o) := by
  show some ((i.optional.filter fun o => o && !i.kind.isMessage).getD
    i.minimized.defaultOptional) = _
  rw [defaultOptional_minimized, ho]
  cases hmessage : i.kind.isMessage with
  | true => cases o <;> rfl
  | false =>
    have hdefault : i.defaultOptional = false := by
      rw [defaultOptional, hmessage, Bool.and_false]
    rw [hdefault]
    cases o <;> rfl

theorem repetition_completed_minimized {i : FieldInfo} {r : RepeatType}
    (hr : i.repetition = some (.scalar (.constant (.repetition r)))) :
    i.minimized.completed.repetition = i.repetition := by
  show some ((i.repetition.filter fun r => !isSingle r).getD
    (.scalar (.constant (.repetition .no)))) = i.repetition
  rw [hr]
  cases r <;> rfl

theorem isSingle_repetition (t : RepeatType) :
    isSingle (.scalar (.constant (.repetition t))) = decide (t = .no) := by
  cases t <;> rfl

/-- A message field is optional by default exactly if it does not repeat and is in no oneof. -/
theorem defaultOptional_of_isMessage {i : FieldInfo} {r : RepeatType}
    (hr : i.repetition = some (.scalar (.constant (.repetition r))))
    (hmessage : i.kind.isMessage = true) :
    i.defaultOptional =
      decide (i.repetition = some (.scalar (.constant (.repetition .no))) ∧ i.oneof = none) := by
  rw [defaultOptional, hr, hmessage, Option.all_some, isSingle_repetition, Bool.and_true]
  cases r <;> cases i.oneof <;> rfl

namespace Explicit

variable {i : FieldInfo}

/-- Explicit information is filled in again if its optionality is. -/
theorem completed_minimized (h : i.Explicit)
    (hoptional : i.minimized.completed.optional = i.optional) : i.minimized.completed = i := by
  obtain ⟨r, hr⟩ := h.repetition
  show { i with
    localName := some ((unlessEq i.defaultName i.localName).getD i.defaultName)
    jsonName := some ((unlessEq i.defaultName i.jsonName).getD i.defaultName)
    repetition := i.minimized.completed.repetition
    optional := i.minimized.completed.optional } = i
  rw [unlessEq_getD i.defaultName h.localName, unlessEq_getD i.defaultName h.jsonName,
    repetition_completed_minimized hr, hoptional]

/-- Which optionality comes back. -/
theorem optional_restored_iff (h : i.Explicit) :
    i.minimized.completed.optional = i.optional ↔
      ¬ (i.kind.isMessage = true ∧ i.optional ≠
        some (decide (i.repetition = some (.scalar (.constant (.repetition .no))) ∧
          i.oneof = none))) := by
  obtain ⟨r, hr⟩ := h.repetition
  obtain ⟨o, ho⟩ := Option.ne_none_iff_exists'.mp h.optional
  rw [optional_completed_minimized ho]
  cases hmessage : i.kind.isMessage with
  | true =>
    rw [if_pos rfl, ← defaultOptional_of_isMessage hr hmessage, eq_comm]
    simp
  | false => simp [ho]

end Explicit

/-! ## The least information -/

theorem Equal.refl (i : FieldInfo) : i.Equal i where
  number := .refl i.number
  name := rfl
  kind := .refl i.kind
  localName := rfl
  jsonName := rfl
  oneof := rfl
  repetition := Related.option_refl Value.Equal.refl i.repetition
  optional := rfl
  options := Related.option_refl (fun es => Value.Equal.refl (.table es)) i.options

/-- A text that is not the default is not filled in. -/
theorem eq_some_of_getD {value s : String} {given : Option String}
    (h : some (given.getD value) = some s) (hs : s ≠ value) : given = some s := by
  cases given with
  | none => exact absurd (Option.some.inj h).symm hs
  | some s' => exact h

/-- A repetition that minimizing leaves is not filled in, for the default does not repeat. -/
theorem exists_repetition_of_completed {i j : FieldInfo} (h : j.completed.Equal i) {v : Value}
    (hv : i.minimized.repetition = some v) : ∃ v', j.repetition = some v' ∧ v'.Equal v := by
  obtain ⟨hgiven, hmany⟩ := Option.filter_eq_some_iff.mp hv
  have hrel := h.repetition
  rw [hgiven, completed] at hrel
  cases hj : j.repetition with
  | some v' =>
    rw [hj] at hrel
    cases hrel with
    | some hequal => exact ⟨v', rfl, hequal⟩
  | none =>
    rw [hj] at hrel
    cases hrel with
    | some hequal =>
      have hnumber := hequal.number?_eq
      rw [isSingle, ← hnumber] at hmany
      cases hmany

/-- What minimizing leaves of the optionality is not filled in, for only messages are optional by
default. -/
theorem optional_of_completed {i j : FieldInfo} (h : j.completed.Equal i) {b : Bool}
    (hb : i.minimized.optional = some b) : j.optional = some b := by
  have hmessage : j.kind.isMessage = i.kind.isMessage := h.kind.isMessage_eq
  obtain ⟨hgiven, hkept⟩ := Option.filter_eq_some_iff.mp hb
  rw [Bool.and_eq_true, Bool.not_eq_true'] at hkept
  obtain ⟨rfl, hother⟩ := hkept
  have hsame := h.optional.trans hgiven
  rw [completed] at hsame
  cases hj : j.optional with
  | some o =>
    rw [hj] at hsame
    exact hsame
  | none =>
    rw [hj, defaultOptional, hmessage, hother, Bool.and_false] at hsame
    cases hsame

/-- Information that is completed to a piece of information says all that minimizing leaves of it. -/
theorem minimized_below {i j : FieldInfo} (h : j.completed.Equal i) : i.minimized.Below j := by
  have hname : j.defaultName = i.defaultName := congrArg lowerCamelCase h.name
  constructor
  case number => exact h.number
  case name => exact h.name
  case kind => exact h.kind
  case oneof => exact fun s hs => h.oneof.trans hs
  case localName =>
    intro s hs
    obtain ⟨hlocal, hne⟩ := unlessEq_eq_some_iff.mp hs
    exact eq_some_of_getD (h.localName.trans hlocal) (hname ▸ hne)
  case jsonName =>
    intro s hs
    obtain ⟨hjson, hne⟩ := unlessEq_eq_some_iff.mp hs
    exact eq_some_of_getD (h.jsonName.trans hjson) (hname ▸ hne)
  case repetition => exact fun v hv => exists_repetition_of_completed h hv
  case optional => exact fun b hb => optional_of_completed h hb
  case options =>
    intro es hes
    have hgiven : i.options = some es := hes
    have hrel : Option.Rel (fun as bs => (Value.table as).Equal (.table bs)) j.options (some es) :=
      hgiven ▸ h.options
    obtain ⟨es', hj, hequal⟩ := Related.exists_option_left hrel
    exact ⟨es', hj, hequal⟩

/-- Minimizing a second time changes nothing.  Explicit information comes back when it is minimized
and completed, unless it is about a message field and says of its optionality something else than
that the field neither repeats nor belongs to a oneof.  What minimizing leaves is the least
information that is completed to the same. -/
theorem minimized_exact (i : FieldInfo) :
    i.minimized.minimized = i.minimized ∧
      (i.Explicit → (i.minimized.completed.Equal i ↔
        ¬ (i.kind.isMessage = true ∧ i.optional ≠
          some (decide (i.repetition = some (.scalar (.constant (.repetition .no))) ∧
            i.oneof = none))))) ∧
      ∀ j : FieldInfo, j.completed.Equal i → i.minimized.Below j := by
  refine ⟨minimized_minimized i, fun h => ?_, fun j hj => minimized_below hj⟩
  rw [← h.optional_restored_iff]
  constructor
  · exact Equal.optional
  · intro hoptional
    rw [h.completed_minimized hoptional]
    exact .refl i

/-! ### A repeated message field -/

/-- Information about a message field that repeats, in which everything is said. -/
def repeatedItems (optional : Bool) : FieldInfo where
  number := .scalar (.int 4)
  name := "line_items"
  kind := .message ".shop.Item"
  localName := some "lineItems"
  jsonName := some "items"
  oneof := none
  repetition := some (.scalar (.constant (.repetition .unpacked)))
  optional := some optional
  options := none

/-- Only what has to be said of the field, with a bare number for its repetition. -/
def briefItems : FieldInfo :=
  { repeatedItems false with
    localName := none
    repetition := some (.scalar (.int 2))
    optional := none }

/-- A repeated field comes back unless it counts as optional, and the brief information says all
that minimizing leaves. -/
theorem minimized_exact_of_repeatedItems :
    (∀ optional, (repeatedItems optional).Explicit) ∧
      (repeatedItems false).minimized.completed.Equal (repeatedItems false) ∧
      ¬ (repeatedItems true).minimized.completed.Equal (repeatedItems true) ∧
      briefItems.completed.Equal (repeatedItems false) ∧
      (repeatedItems false).minimized.Below briefItems := by
  have hexplicit (optional : Bool) : (repeatedItems optional).Explicit :=
    ⟨Option.some_ne_none _, Option.some_ne_none _, ⟨_, rfl⟩, Option.some_ne_none _⟩
  have hbrief : briefItems.completed.Equal (repeatedItems false) :=
    { number := .inl rfl
      name := rfl
      kind := .message _
      localName := by decide +kernel
      jsonName := rfl
      oneof := rfl
      repetition := .some (.inr (by decide))
      optional := rfl
      options := .none }
  refine ⟨hexplicit, ?_, ?_, hbrief, (minimized_exact (repeatedItems false)).2.2 briefItems hbrief⟩
  · exact ((minimized_exact (repeatedItems false)).2.1 (hexplicit false)).mpr (by decide)
  · exact fun h => ((minimized_exact (repeatedItems true)).2.1 (hexplicit true)).mp h (by decide)

end FieldInfo

end SchemaScript
