import SchemaScript.Proofs.FieldInfo.OfField
import SchemaScript.Proofs.Draft.Edits

/-!
# Enums in literals

What the literal for a field says about the enum of its values.

The values of a field are those of its type, or of the value field of its entries if it is a map
(`Schema.valueEnum?`).  The literal names their enum in an array, under the key `T`, or under that
key in the object for the values of a map (`Expr.enumArray?`).  The array has the stem of the enum as
its third element if the enum has one, and no third element otherwise (`FieldInfo.literal_enumArray`).
-/

namespace SchemaScript

open Outcome

/-- The enum of the values of a field, which for a map is that of the values in it. -/
def Schema.valueEnum? (s : Schema) (f : Field) : Option Enum :=
  match s.mapEntry? f with
  | none => s.enum? f
  | some entry => entry.fields[1]?.bind s.enum?

/-- The elements of the array that tells the enum of a field. -/
def Expr.enumArray? (literal : Expr) : Option (List Expr) :=
  match (literal.property? "T").or ((literal.property? "V").bind (property? "T")) with
  | some (.arrow (.array elements _)) => some elements
  | _ => none

namespace FieldInfo

namespace Writer

variable {w : Writer} {d d' : Draft}

/-! ## Keys -/

/-- The keys of the properties that depend on the kind. -/
def kindKeys : List String :=
  ["T", "L", "K", "V"]

/-- Properties of other keys than those that depend on the kind. -/
def Unkinded (ps : Properties) : Prop :=
  ∀ p ∈ ps, p.1 ∉ kindKeys

theorem Unkinded.append {ps qs : Properties} (hp : Unkinded ps) (hq : Unkinded qs) :
    Unkinded (ps ++ qs) :=
  List.forall_mem_append.mpr ⟨hp, hq⟩

theorem Unkinded.lookup {ps : Properties} (h : Unkinded ps) {key : String} (hkey : key ∈ kindKeys) :
    ps.lookup key = none := by
  refine List.lookup_eq_none_iff.mpr fun p hp => ?_
  rw [bne_iff_ne]
  rintro rfl
  exact h p hp hkey

theorem unkinded_nil : Unkinded [] := nofun

theorem Unkinded.cons {key : String} (hkey : key ∉ kindKeys) (e : Expr) {ps : Properties}
    (hp : Unkinded ps) : Unkinded ((key, e) :: ps) :=
  List.forall_mem_cons.mpr ⟨hkey, hp⟩

theorem unkinded_text {key : String} (hkey : key ∉ kindKeys) (value : Option String) :
    Unkinded (textProperty key value) := by
  cases value with
  | none => exact unkinded_nil
  | some s => exact unkinded_nil.cons hkey _

theorem unkinded_bool {key : String} (hkey : key ∉ kindKeys) (value : Option Bool) :
    Unkinded (boolProperty key value) := by
  cases value with
  | none => exact unkinded_nil
  | some b => exact unkinded_nil.cons hkey _

theorem unkinded_whenSome {key : String} (hkey : key ∉ kindKeys) {write : Value → Edit Expr}
    {value : Option Value} {ps : Properties} (h : whenSome key write value d = (.ok ps, d')) :
    Unkinded ps := by
  cases value with
  | none =>
    cases h
    exact unkinded_nil
  | some v =>
    simp only [whenSome, Edit.bind_eq_ok_iff, Edit.pure_eq_ok_iff] at h
    obtain ⟨e, _, _, rfl, _⟩ := h
    exact unkinded_nil.cons hkey e

theorem unkinded_options {options : Option (List (Value × Value))} {ps : Properties}
    (h : optionsProperty options = .ok ps) : Unkinded ps := by
  unfold optionsProperty at h
  split at h
  · cases h; exact unkinded_nil
  · cases h; exact unkinded_nil
  · obtain ⟨e, _, rfl⟩ := map_eq_ok_iff.mp h
    exact unkinded_nil.cons (by decide) e

/-- A literal is an object with the properties of its kind among others. -/
theorem literal_ok {i : FieldInfo} {e : Expr} (h : w.literal i d = (.ok e, d')) :
    ∃ before kind after d₁ d₂, e = .object (before ++ kind ++ after) false ∧
      w.kindProperties i.name i.kind d₁ = (.ok kind, d₂) ∧ Unkinded before ∧ Unkinded after := by
  simp only [literal, properties, minimizedProperties, Edit.bind_eq_ok_iff, Edit.pure_eq_ok_iff,
    Edit.ofExcept_eq_ok_iff] at h
  obtain ⟨_, _, ⟨_, _, _, number, _, _, repetition, _, hrepetition, kind, d₂, hkind, options, _,
    ⟨hoptions, _⟩, rfl, _⟩, rfl, _⟩ := h
  refine ⟨_, kind, options, _, d₂, rfl, hkind, ?_, unkinded_options hoptions⟩
  have hfirst : Unkinded [("no", number), ("name", .text i.minimized.name),
      ("kind", .text i.minimized.kind.word)] :=
    ((unkinded_nil.cons (by decide) _).cons (by decide) _).cons (by decide) _
  exact ((((hfirst.append (unkinded_text (by decide) _)).append
    (unkinded_text (by decide) _)).append (unkinded_text (by decide) _)).append
    (unkinded_whenSome (by decide) hrepetition)).append (unkinded_bool (by decide) _)

/-! ## Kinds -/

/-- The array of an enum has the stem as its third element. -/
theorem kindProperties_enum {referrer typeName : String} {stem : Option String}
    (hstem : stem ≠ some "") {ps : Properties}
    (h : w.kindProperties referrer (.enumeration typeName stem) d = (.ok ps, d')) :
    ∃ elements, ps = [("T", .arrow (.array elements false))] ∧
      elements[2]? = stem.map Expr.text := by
  simp only [kindProperties, enumFunction, Edit.bind_eq_ok_iff, Edit.pure_eq_ok_iff] at h
  obtain ⟨_, _, ⟨⟨localName, _⟩, _, _, rfl, _⟩, rfl, _⟩ := h
  refine ⟨_, rfl, ?_⟩
  cases stem with
  | none => rfl
  | some s =>
    have hs : s ≠ "" := fun hs => hstem (by rw [hs])
    simp [hs]

theorem kindProperties_map {referrer : String} {key : Value} {value : FieldKind} {ps : Properties}
    (h : w.kindProperties referrer (.map key value) d = (.ok ps, d')) :
    ∃ K qs d₁ d₂, ps = [("K", K), ("V", .object (("kind", .text value.word) :: qs) false)] ∧
      w.kindProperties referrer value d₁ = (.ok qs, d₂) := by
  simp only [kindProperties, Edit.bind_eq_ok_iff] at h
  obtain ⟨K, d₁, _, h⟩ := h
  split at h
  · cases h
  · simp only [Edit.bind_eq_ok_iff, Edit.pure_eq_ok_iff] at h
    obtain ⟨qs, d₂, hqs, rfl, _⟩ := h
    exact ⟨K, qs, d₁, d₂, rfl, hqs⟩

end Writer

open Writer (Unkinded)

/-- The literal of an enum, or of a map of enums, has the array of the enum. -/
theorem literal_enumArray_of_kind {w : Writer} {d d' : Draft} {i : FieldInfo} {e : Expr}
    (h : w.literal i d = (.ok e, d')) {typeName : String} {stem : Option String}
    (hstem : stem ≠ some "")
    (hkind : i.kind = .enumeration typeName stem ∨
      ∃ key, i.kind = .map key (.enumeration typeName stem)) :
    ∃ elements, e.enumArray? = some elements ∧ elements[2]? = stem.map Expr.text := by
  obtain ⟨before, kind, after, d₁, d₂, rfl, hps, hbefore, hafter⟩ := Writer.literal_ok h
  have hproperty {key : String} (hkey : key ∈ Writer.kindKeys) :
      (Expr.object (before ++ kind ++ after) false).property? key = kind.lookup key := by
    rw [Expr.property?, List.lookup_append, List.lookup_append, hbefore.lookup hkey,
      hafter.lookup hkey, Option.none_or, Option.or_none]
  rcases hkind with hkind | ⟨key, hkind⟩
  · rw [hkind] at hps
    obtain ⟨elements, rfl, hthird⟩ := Writer.kindProperties_enum hstem hps
    refine ⟨elements, ?_, hthird⟩
    rw [Expr.enumArray?, hproperty (by decide)]
    rfl
  · rw [hkind] at hps
    obtain ⟨K, qs, _, _, rfl, hqs⟩ := Writer.kindProperties_map hps
    obtain ⟨elements, rfl, hthird⟩ := Writer.kindProperties_enum hstem hqs
    refine ⟨elements, ?_, hthird⟩
    rw [Expr.enumArray?, hproperty (by decide), hproperty (by decide)]
    rfl

/-! ## Fields of a schema -/

variable {rule : PathRule} {toGenerate : List String} {ds : List FileDescriptor} {fs : List File}
  {s : Schema} {m : Message} {f : Field} {e : Enum}

theorem target?_of_enum? (h : s.enum? f = some e) : s.target? f = some (.enum e) := by
  unfold Schema.enum? at h
  split at h
  · next htarget => cases h; exact htarget
  · cases h

/-- The kind of a field whose type is an enum. -/
theorem valueKindOf_enum (h : s.Resolves rule toGenerate ds fs)
    (hm : .message m ∈ fs.flatMap File.declared) (hf : f ∈ m.fields) (he : s.enum? f = some e)
    (settings : Settings) :
    valueKindOf settings s f = .ok (.enumeration e.fullName e.sharedStem) := by
  have htarget := target?_of_enum? he
  have hfits := (h.target_found hm hf).1
  rw [htarget] at hfits
  cases htype : f.type with
  | enumeration => rw [valueKindOf, htype, htarget]
  | scalar t => rw [htype] at hfits; cases hfits
  | _ =>
    rw [htype] at hfits
    obtain ⟨_, hm⟩ := hfits
    cases hm

/-- The enum of the values of a field is declared, and the literal for the field has its stem. -/
theorem literal_enumArray (h : s.Resolves rule toGenerate ds fs)
    (hm : .message m ∈ fs.flatMap File.declared) (hf : f ∈ m.fields)
    (he : s.valueEnum? f = some e) {settings : Settings} {i : FieldInfo}
    (hi : ofField settings s f = .ok i) {w : Writer} {d d' : Draft} {literal : Expr}
    (hl : w.literal i d = (.ok literal, d')) :
    .enum e ∈ fs.flatMap File.declared ∧
      ∃ elements, literal.enumArray? = some elements ∧
        elements[2]? = e.sharedStem.map Expr.text := by
  simp only [ofField, bind_eq_ok_iff, pure_eq_ok_iff] at hi
  obtain ⟨kind, hkind, _, _, rfl⟩ := hi
  -- the field whose type the enum is: the field itself, or the value field of its entries
  obtain ⟨n, g, hn, hg, htarget, hcases⟩ : ∃ n g, .message n ∈ fs.flatMap File.declared ∧
      g ∈ n.fields ∧ s.enum? g = some e ∧ (kind = .enumeration e.fullName e.sharedStem ∨
        ∃ key, kind = .map key (.enumeration e.fullName e.sharedStem)) := by
    obtain ⟨_, ⟨hentry, hvalue⟩ | ⟨entry, _, value, t, k, hentry, _, hfield, _, hvalue, rfl⟩⟩ :=
      kindOf_ok hkind
    · rw [Schema.valueEnum?, hentry] at he
      rw [valueKindOf_enum h hm hf he] at hvalue
      cases hvalue
      exact ⟨m, f, hm, hf, he, .inl rfl⟩
    · rw [Schema.valueEnum?, hentry] at he
      simp only [hfield, Option.bind_some] at he
      have hdeclared := h.target_mem hm hf (target?_of_entry hentry).1
      have hmem := List.mem_of_getElem? hfield
      rw [valueKindOf_enum h hdeclared hmem he] at hvalue
      cases hvalue
      exact ⟨entry, value, hdeclared, hmem, he, .inr ⟨_, rfl⟩⟩
  have hmem := h.target_mem hn hg (target?_of_enum? htarget)
  obtain ⟨file, hfile, hx⟩ := List.mem_flatMap.mp hmem
  refine ⟨hmem, literal_enumArray_of_kind hl ?_ hcases⟩
  cases h.made hfile hx with
  | enum _ hmade => exact Enum.declare_sharedStem hmade

end FieldInfo

end SchemaScript
