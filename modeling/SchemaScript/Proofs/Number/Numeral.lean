import Mathlib.Algebra.Order.Field.Power
import Mathlib.Data.Rat.Cast.Order
import Mathlib.Tactic.Ring
import SchemaScript.Number.Layout
import SchemaScript.Proofs.Expr.Spelling

/-!
# Numerals

The numbers that decimal numerals denote.

A numeral is digits, perhaps a point and more digits, and perhaps an exponent: the letter `e`, a
sign and digits.  `Numeral.number?` reads a text as a numeral, with a minus sign in front or without
one, and gives the rational number that it denotes.  It knows nothing of how this library writes
numbers.  It takes zeros at the start of the digits, so it reads an exponent in any width.

Whatever is written for a decimal has the parts of a numeral (`Decimal.toList_text`).  They depend
on the decimal only, and the width of exponents comes in where the parts are put together.  So a
decimal is read back from its text in every width (`Decimal.magnitude?_text`).
-/

namespace SchemaScript

namespace Numeral

/-! ## Reading -/

/-- The number of a text that consists of digits. -/
def natural? (chars : List Char) : Option ℕ :=
  if chars ≠ [] ∧ chars.all Char.isDigit = true then some (Nat.ofDigitChars 10 chars 0) else none

/-- The exponent at the end of a numeral.  It is zero where nothing is left. -/
def exponent? : List Char → Option ℤ
  | [] => some 0
  | 'e' :: '+' :: digits => (natural? digits).map fun n : ℕ => (n : ℤ)
  | 'e' :: '-' :: digits => (natural? digits).map fun n : ℕ => -(n : ℤ)
  | _ => none

/-- The digits after a point, and what follows them.  Without a point there are none. -/
def readFraction : List Char → List Char × List Char
  | '.' :: rest => (rest.takeWhile Char.isDigit, rest.dropWhile Char.isDigit)
  | chars => ([], chars)

/-- The number with digits before and after the point, and an exponent. -/
def assemble (whole fraction : List Char) (exponent : ℤ) : ℚ :=
  (Nat.ofDigitChars 10 (whole ++ fraction) 0 : ℚ) * 10 ^ (exponent - fraction.length)

/-- The number that a numeral without a sign denotes. -/
def magnitude? (chars : List Char) : Option ℚ :=
  let whole := chars.takeWhile Char.isDigit
  let (fraction, rest) := readFraction (chars.dropWhile Char.isDigit)
  if whole = [] then none else (exponent? rest).map (assemble whole fraction)

/-- The number that a numeral denotes. -/
def number? (text : String) : Option ℚ :=
  match text.toList with
  | '-' :: rest => (magnitude? rest).map (- ·)
  | chars => magnitude? chars

end Numeral

/-! ## Parts -/

/-- The parts of a numeral without a sign. -/
structure Numeral where
  /-- The digits before the point. -/
  whole : List Char
  /-- The digits after the point.  Without any there is no point. -/
  fraction : List Char
  /-- The exponent, if one is written. -/
  exponent : Option ℤ

namespace Numeral

/-- The point and the digits after it. -/
def fractionChars (n : Numeral) : List Char :=
  if n.fraction = [] then [] else '.' :: n.fraction

/-- The exponent, with at least `width` digits. -/
def exponentChars (width : Nat) (n : Numeral) : List Char :=
  match n.exponent with
  | none => []
  | some e => (exponentText width e).toList

/-- The parts put together. -/
def chars (width : Nat) (n : Numeral) : List Char :=
  n.whole ++ (n.fractionChars ++ n.exponentChars width)

/-- The number that the parts denote. -/
def value (n : Numeral) : ℚ :=
  assemble n.whole n.fraction (n.exponent.getD 0)

/-- The parts are digits, and the first of them is not empty. -/
structure WellFormed (n : Numeral) : Prop where
  whole_ne : n.whole ≠ []
  whole : ∀ c ∈ n.whole, c.isDigit = true
  fraction : ∀ c ∈ n.fraction, c.isDigit = true

/-! ## Reading the parts -/

theorem toList_exponentText (width : Nat) (e : ℤ) : (exponentText width e).toList =
    'e' :: (if e < 0 then '-' else '+') ::
      (List.replicate (width - (Nat.repr e.natAbs).length) '0' ++ Nat.toDigits 10 e.natAbs) := by
  rw [exponentText, padZeros, String.toList_append, String.toList_append, String.toList_ofList,
    Nat.toList_repr]
  split <;> rfl

theorem isDigit_of_mem_zeros {count : ℕ} : ∀ c ∈ List.replicate count '0', c.isDigit = true := by
  intro c hc
  rw [List.eq_of_mem_replicate hc]
  decide

theorem isDigit_of_mem_padded {count n : ℕ} :
    ∀ c ∈ List.replicate count '0' ++ Nat.toDigits 10 n, c.isDigit = true :=
  List.forall_mem_append.mpr ⟨isDigit_of_mem_zeros, fun _ => Script.isDigit_of_mem_toDigits⟩

/-- Zeros in front do not change a number. -/
theorem natural?_padded (count n : ℕ) :
    natural? (List.replicate count '0' ++ Nat.toDigits 10 n) = some n := by
  have hne : List.replicate count '0' ++ Nat.toDigits 10 n ≠ [] :=
    fun h => Nat.toDigits_ne_nil (List.append_eq_nil_iff.mp h).2
  rw [natural?, if_pos ⟨hne, List.all_eq_true.mpr isDigit_of_mem_padded⟩, Nat.ofDigitChars_append,
    Nat.ofDigitChars_replicate_zero, Nat.mul_zero, Nat.ofDigitChars_ten_toDigits]

theorem exponent?_exponentText (width : Nat) (e : ℤ) :
    exponent? (exponentText width e).toList = some e := by
  rw [toList_exponentText]
  split
  · next h =>
    rw [exponent?, natural?_padded, Option.map_some]
    congr 1
    omega
  · next h =>
    rw [exponent?, natural?_padded, Option.map_some]
    congr 1
    omega

theorem exponent?_exponentChars (width : Nat) (n : Numeral) :
    exponent? (n.exponentChars width) = some (n.exponent.getD 0) := by
  unfold exponentChars
  cases n.exponent with
  | none => rfl
  | some e => exact exponent?_exponentText width e

theorem head?_exponentChars (width : Nat) (n : Numeral) :
    ∀ c ∈ (n.exponentChars width).head?, c = 'e' := by
  unfold exponentChars
  cases n.exponent with
  | none => nofun
  | some e =>
    show ∀ c ∈ (exponentText width e).toList.head?, c = 'e'
    rw [toList_exponentText]
    rintro _ ⟨⟩
    rfl

theorem readFraction_append {n : Numeral} (h : n.WellFormed) (width : Nat) :
    readFraction (n.fractionChars ++ n.exponentChars width) =
      (n.fraction, n.exponentChars width) := by
  have hhead := head?_exponentChars width n
  unfold fractionChars
  split
  · next hnone =>
    rw [List.nil_append, hnone]
    unfold readFraction
    split
    · next hpoint =>
      rw [hpoint] at hhead
      exact absurd (hhead _ rfl) (by decide)
    · rfl
  · have hstop : ∀ c ∈ (n.exponentChars width).head?, c.isDigit = false := by
      intro c hc
      rw [hhead c hc]
      decide
    obtain ⟨htake, hdrop⟩ := Script.takeWhile_append_stop h.fraction hstop
    rw [List.cons_append, readFraction, htake, hdrop]

/-- The parts are read back in every width. -/
theorem magnitude?_chars {n : Numeral} (h : n.WellFormed) (width : Nat) :
    magnitude? (n.chars width) = some n.value := by
  have hstop : ∀ c ∈ (n.fractionChars ++ n.exponentChars width).head?, c.isDigit = false := by
    unfold fractionChars
    split
    · intro c hc
      rw [head?_exponentChars width n c hc]
      decide
    · rintro _ ⟨⟩
      decide
  obtain ⟨htake, hdrop⟩ := Script.takeWhile_append_stop h.whole hstop
  unfold magnitude? chars
  simp only [htake, hdrop, readFraction_append h, if_neg h.whole_ne]
  rw [exponent?_exponentChars, Option.map_some]
  rfl

end Numeral

/-! ## Layouts -/

namespace Numeral

/-- The parts lay out digits with the point `places` after their start. -/
structure LaysOut (n : Numeral) (digits : List Char) (places : ℤ) : Prop where
  wellFormed : n.WellFormed
  value : n.value = (Nat.ofDigitChars 10 digits 0 : ℚ) * 10 ^ (places - digits.length)

/-- All digits behind the point, after zeros. -/
def below (count : ℕ) (digits : List Char) : Numeral :=
  ⟨['0'], List.replicate count '0' ++ digits, none⟩

/-- All digits before the point, followed by zeros. -/
def above (count : ℕ) (digits : List Char) : Numeral :=
  ⟨digits ++ List.replicate count '0', ['0'], none⟩

/-- The first digits before the point and the others behind it. -/
def cut (count : ℕ) (digits : List Char) (exponent : Option ℤ) : Numeral :=
  ⟨digits.take count, digits.drop count, exponent⟩

variable {digits : List Char}

theorem laysOut_below (hdigits : ∀ c ∈ digits, c.isDigit = true) (count : ℕ) :
    (below count digits).LaysOut digits (-count) := by
  constructor
  case wellFormed =>
    exact ⟨List.cons_ne_nil _ _, List.forall_mem_singleton.mpr (by decide),
      List.forall_mem_append.mpr ⟨isDigit_of_mem_zeros, hdigits⟩⟩
  case value =>
    have hzeros : ['0'] ++ (List.replicate count '0' ++ digits) =
        List.replicate (count + 1) '0' ++ digits := rfl
    show assemble ['0'] (List.replicate count '0' ++ digits) 0 = _
    rw [assemble, hzeros, Nat.ofDigitChars_append, Nat.ofDigitChars_replicate_zero, Nat.mul_zero,
      List.length_append, List.length_replicate]
    congr 2
    omega

theorem laysOut_above (hne : digits ≠ []) (hdigits : ∀ c ∈ digits, c.isDigit = true) (count : ℕ) :
    (above count digits).LaysOut digits (digits.length + count) := by
  constructor
  case wellFormed =>
    exact ⟨fun h => hne (List.append_eq_nil_iff.mp h).1,
      List.forall_mem_append.mpr ⟨hdigits, isDigit_of_mem_zeros⟩,
      List.forall_mem_singleton.mpr (by decide)⟩
  case value =>
    have hzeros : digits ++ List.replicate count '0' ++ ['0'] =
        digits ++ List.replicate (count + 1) '0' := by
      rw [List.append_assoc, ← List.replicate_succ']
    have hplaces : (digits.length : ℤ) + count - digits.length = (count + 1 : ℕ) + (0 - 1) := by
      omega
    show assemble (digits ++ List.replicate count '0') ['0'] 0 = _
    rw [assemble, hzeros, Nat.ofDigitChars_append, Nat.ofDigitChars_replicate_zero, hplaces,
      zpow_add₀ (by norm_num), zpow_natCast, List.length_singleton]
    push_cast
    ring

/-- An exponent makes up for the place at which the digits are cut. -/
theorem laysOut_cut (hne : digits ≠ []) (hdigits : ∀ c ∈ digits, c.isDigit = true) (count : ℕ)
    (hpos : 0 < count) (hcount : count ≤ digits.length) (exponent : Option ℤ) :
    (cut count digits exponent).LaysOut digits (exponent.getD 0 + count) := by
  constructor
  case wellFormed =>
    refine ⟨fun h => ?_, fun c hc => hdigits c (List.mem_of_mem_take hc),
      fun c hc => hdigits c (List.mem_of_mem_drop hc)⟩
    rcases List.take_eq_nil_iff.mp h with hzero | hnil
    · exact hpos.ne' hzero
    · exact hne hnil
  case value =>
    show assemble (digits.take count) (digits.drop count) (exponent.getD 0) = _
    rw [assemble, List.take_append_drop, List.length_drop]
    congr 2
    omega

/-- The parts of digits with the point `places` after their start. -/
def ofDigits (digits : List Char) (places : ℤ) : Numeral :=
  if -4 < places ∧ places ≤ 16 then
    if places ≤ 0 then below (-places).toNat digits
    else if digits.length ≤ places.toNat then above (places.toNat - digits.length) digits
    else cut places.toNat digits none
  else cut 1 digits (some (places - 1))

theorem laysOut_ofDigits (hne : digits ≠ []) (hdigits : ∀ c ∈ digits, c.isDigit = true)
    (places : ℤ) : (ofDigits digits places).LaysOut digits places := by
  have hlength := List.length_pos_of_ne_nil hne
  unfold ofDigits
  split
  · split
    · next hplaces =>
      have h := laysOut_below hdigits (-places).toNat
      rwa [show -((-places).toNat : ℤ) = places by omega] at h
    · split
      · next hplaces hwhole =>
        have h := laysOut_above hne hdigits (places.toNat - digits.length)
        rwa [show (digits.length : ℤ) + (places.toNat - digits.length : ℕ) = places by omega] at h
      · next hplaces hwhole =>
        have h := laysOut_cut hne hdigits places.toNat (by omega) (by omega) none
        rwa [show (none : Option ℤ).getD 0 + (places.toNat : ℤ) = places by
          rw [Option.getD_none]; omega] at h
  · have h := laysOut_cut hne hdigits 1 Nat.one_pos hlength (some (places - 1))
    rwa [show (some (places - 1)).getD 0 + ((1 : ℕ) : ℤ) = places by
      rw [Option.getD_some]; omega] at h

/-- An exponent of zero is never written. -/
theorem exponent_ofDigits_ne (digits : List Char) (places : ℤ) :
    (ofDigits digits places).exponent ≠ some 0 := by
  unfold ofDigits
  split
  · split
    · nofun
    · split <;> nofun
  · intro h
    have hzero : places - 1 = 0 := Option.some.inj h
    omega

/-! ## Texts of decimals -/

theorem chars_of_exponent_none {n : Numeral} (h : n.exponent = none) (hfraction : n.fraction ≠ [])
    (width : Nat) : n.chars width = n.whole ++ '.' :: n.fraction := by
  rw [chars, fractionChars, if_neg hfraction, exponentChars, h]
  simp

theorem chars_cut_one (digits : List Char) (e : ℤ) (width : Nat) :
    (cut 1 digits (some e)).chars width =
      digits.take 1 ++ ((if digits.drop 1 = [] then [] else '.' :: digits.drop 1) ++
        (exponentText width e).toList) := rfl

theorem toList_positionalText {places : ℤ} {digits : String} (hne : digits.toList ≠ [])
    (h : -4 < places ∧ places ≤ 16) (width : Nat) :
    (positionalText digits places).toList = (ofDigits digits.toList places).chars width := by
  unfold positionalText ofDigits
  rw [if_pos h, ← String.length_toList]
  split
  · have hfraction : (below (-places).toNat digits.toList).fraction ≠ [] :=
      fun hnil => hne (List.append_eq_nil_iff.mp hnil).2
    have hzeros := String.toList_ofList (l := List.replicate (-places).toNat '0')
    rw [chars_of_exponent_none rfl hfraction, padZeros, String.toList_append, String.toList_append,
      ← String.length_toList, Nat.add_sub_cancel_left, hzeros]
    rfl
  · dsimp only
    split
    · rw [chars_of_exponent_none rfl (List.cons_ne_nil _ _), String.toList_append,
        String.toList_append, String.toList_ofList]
      rfl
    · next hwhole =>
      have hfraction : (cut places.toNat digits.toList none).fraction ≠ [] :=
        fun hnil => hwhole (List.drop_eq_nil_iff.mp hnil)
      rw [chars_of_exponent_none rfl hfraction, String.toList_append, String.toList_append,
        List.append_assoc, String.toList_ofList, String.toList_ofList (l := List.drop _ _)]
      rfl

theorem toList_leadingDigitText {digits : String} :
    (leadingDigitText digits).toList =
      digits.toList.take 1 ++
        if digits.toList.drop 1 = [] then [] else '.' :: digits.toList.drop 1 := by
  unfold leadingDigitText
  split
  · next hd => rw [hd]; rfl
  · next d hd => rw [hd, String.toList_ofList]; rfl
  · next d rest hrest hd =>
    have hne : (d :: rest).drop 1 ≠ [] := hrest
    rw [hd, String.toList_ofList, if_neg hne]
    rfl

end Numeral

namespace Decimal

/-- The parts of the numeral that is written for a decimal. -/
def numeral (d : Decimal) : Numeral :=
  .ofDigits (Nat.toDigits 10 d.digits) ((Nat.toDigits 10 d.digits).length + d.exponent)

theorem laysOut_numeral (d : Decimal) : d.numeral.LaysOut (Nat.toDigits 10 d.digits)
    ((Nat.toDigits 10 d.digits).length + d.exponent) :=
  Numeral.laysOut_ofDigits Nat.toDigits_ne_nil (fun _ => Script.isDigit_of_mem_toDigits) _

/-- A decimal is written by its parts in every width. -/
theorem toList_text (width : Nat) (d : Decimal) :
    (d.text width).toList = d.numeral.chars width := by
  unfold text numeral
  dsimp only
  rw [← String.length_toList, Nat.toList_repr]
  split
  · next h =>
    have hne : (Nat.repr d.digits).toList ≠ [] := by
      rw [Nat.toList_repr]
      exact Nat.toDigits_ne_nil
    rw [Numeral.toList_positionalText hne h width, Nat.toList_repr]
  · next h =>
    rw [Numeral.ofDigits, if_neg h, Numeral.chars_cut_one, String.toList_append,
      Numeral.toList_leadingDigitText, Nat.toList_repr, List.append_assoc]

/-- A decimal is read back from its text in every width. -/
theorem magnitude?_text (width : Nat) (d : Decimal) :
    Numeral.magnitude? (d.text width).toList = some ((d.digits : ℚ) * 10 ^ d.exponent) := by
  have hlays := d.laysOut_numeral
  rw [toList_text, Numeral.magnitude?_chars hlays.wellFormed, hlays.value,
    Nat.ofDigitChars_ten_toDigits, add_sub_cancel_left]

end Decimal
end SchemaScript
