import SchemaScript.Number.Layout
import SchemaScript.Proofs.Expr.Spelling
import SchemaScript.Proofs.Text.Layout

/-!
# Lines of numbers

A number is written on one line.

The texts of integers are digits behind a minus sign.  Those of doubles are made of digits, zeros
that fill up, the point, the letter of the exponent and signs, or they are one of the words of their
style (`Double.isFullLine_text`).
-/

namespace SchemaScript

open Text

/-! ## Visible characters -/

/-- Visible characters make a line. -/
theorem Text.isFullLine_of_isVisible {s : String} {c : Char} {rest : List Char}
    (hs : s.toList = c :: rest) (h : ∀ d ∈ s.toList, isVisible d = true) : IsFullLine s := by
  constructor
  case ne =>
    rintro rfl
    cases hs
  case single =>
    refine isLine_iff.mpr fun d hd => ?_
    have hvisible := h d hd
    simp only [isVisible, Bool.and_eq_true, decide_eq_true_eq] at hvisible
    rw [isLineEnd]
    simp only [Bool.or_eq_false_iff, Bool.and_eq_false_iff, decide_eq_false_iff_not,
      beq_eq_false_iff_ne]
    omega

theorem Script.Spells.isFullLine {s : String} {v : Value} (h : Script.Spells s.toList v) :
    IsFullLine s := by
  obtain ⟨c, rest, hs, _⟩ := h.starts
  exact isFullLine_of_isVisible hs h.visible

/-! ## Integers -/

theorem isFullLine_intText (n : Int) : IsFullLine (intText n) :=
  (Script.Spells.integer n).isFullLine

theorem isFullLine_repr (n : Nat) : IsFullLine (Nat.repr n) := by
  have htext : intText (n : Int) = Nat.repr n := if_neg (by omega)
  exact htext ▸ isFullLine_intText n

/-! ## Doubles -/

theorem isLine_zeros (n : Nat) : isLine (String.ofList (List.replicate n '0')) = true :=
  isLine_replicate (by decide) n

theorem isLine_stretch {s : String} {chars : List Char} (hs : isLine s = true)
    (h : chars ⊆ s.toList) : isLine (String.ofList chars) = true := by
  refine isLine_iff.mpr fun c hc => isLine_iff.mp hs c (h ?_)
  rwa [String.toList_ofList] at hc

theorem isLine_padZeros {s : String} (h : isLine s = true) (width : Nat) :
    isLine (padZeros width s) = true := by
  rw [padZeros, isLine_append, isLine_zeros, h]
  rfl

theorem isFullLine_exponentText (width : Nat) (e : Int) : IsFullLine (exponentText width e) := by
  have hsign : IsFullLine (if e < 0 then "e-" else "e+") := by
    split
    · decide
    · decide
  exact hsign.append_line (isLine_padZeros (isFullLine_repr _).single width)

theorem isFullLine_positionalText {digits : String} (h : isLine digits = true) (places : Int) :
    IsFullLine (positionalText digits places) := by
  have hpoint : IsFullLine "." := by decide
  unfold positionalText
  split
  · have hzero : IsFullLine "0." := by decide
    exact hzero.append_line (isLine_padZeros h _)
  · dsimp only
    split
    · have hend : IsFullLine ".0" := by decide
      refine hend.line_append ?_
      rw [isLine_append, h, isLine_zeros]
      rfl
    · have hwhole := hpoint.line_append (isLine_stretch h (List.take_subset places.toNat _))
      exact hwhole.append_line (isLine_stretch h (List.drop_subset _ _))

theorem isLine_leadingDigitText {digits : String} (h : isLine digits = true) :
    isLine (leadingDigitText digits) = true := by
  rw [isLine_iff] at h
  unfold leadingDigitText
  split
  · decide
  · next d hd =>
    rw [hd] at h
    rwa [isLine_iff, String.toList_ofList]
  · next d rest _ hd =>
    rw [hd, List.forall_mem_cons] at h
    rw [isLine_iff, String.toList_ofList, List.forall_mem_cons, List.forall_mem_cons]
    exact ⟨h.1, by decide, h.2⟩

theorem Decimal.isFullLine_text (exponentWidth : Nat) (d : Decimal) :
    IsFullLine (d.text exponentWidth) := by
  have hdigits := (isFullLine_repr d.digits).single
  unfold Decimal.text
  dsimp only
  split
  · exact isFullLine_positionalText hdigits _
  · exact (isFullLine_exponentText _ _).line_append (isLine_leadingDigitText hdigits)

/-- A double is written on one line in every style with words on one line. -/
theorem Double.isFullLine_text {style : DoubleStyle} (hnan : IsFullLine style.nan)
    (hinfinity : IsFullLine style.infinity) (d : Double) : IsFullLine (d.text style) := by
  have hmagnitude : IsFullLine (d.magnitudeText style.exponentWidth) := by
    unfold magnitudeText
    split
    · decide
    · exact Decimal.isFullLine_text _ _
  unfold text
  split
  · exact hnan
  · split
    · exact isFullLine_intText _
    · refine IsFullLine.line_append ?_ ?_
      · split
        · decide
        · decide
      · split
        · exact hinfinity
        · exact hmagnitude

end SchemaScript
