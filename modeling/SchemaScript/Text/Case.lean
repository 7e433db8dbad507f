import SchemaScript.Text.CaseTable
import SchemaScript.Text.DigitTable
import SchemaScript.Text.LetterTable

/-!
# Letter case and digits

The capital form and the small form of a single character, and the tests for a capital letter, a
small letter and a digit.

On ASCII the rule is short: the letters `a` to `z` and `A` to `Z` are exchanged and nothing else
moves, and the digits are `0` to `9`.  Beyond ASCII the tables decide.  A form can have several
characters, so `upper` and `lower` give a list.  No form depends on the neighbours of a character:
the capital form of a text is the capital forms of its characters in a row.

A letter is a capital if it has a small form of its own, and small if it has a capital form of its
own.  Some letters have no other form, and some characters are a capital and a small letter in one
and so neither.
-/

namespace SchemaScript.Text

/-! ## Case -/

/-- The code that a run gives to a code, if the run covers it. -/
def CaseRun.image? (r : CaseRun) (code : Nat) : Option Nat :=
  if r.first ≤ code ∧ code ≤ r.last ∧ (code - r.first) % r.step = 0 then
    some (Int.toNat (code + r.shift))
  else
    none

/-- The form of a character by a table of long forms and a table of runs. -/
def mappedBy (specials : List (Nat × List Nat)) (runs : List CaseRun) (c : Char) : List Char :=
  match specials.lookup c.toNat with
  | some codes => codes.map Char.ofNat
  | none =>
    match runs.findSome? (·.image? c.toNat) with
    | some code => [Char.ofNat code]
    | none => [c]

/-- The capital form of a character. -/
def upper (c : Char) : List Char :=
  if c.toNat < 128 then [c.toUpper] else mappedBy upperSpecials upperRuns c

/-- The small form of a character. -/
def lower (c : Char) : List Char :=
  if c.toNat < 128 then [c.toLower] else mappedBy lowerSpecials lowerRuns c

/-- The capital form of a text. -/
def uppercase (s : String) : String :=
  String.ofList (s.toList.flatMap upper)

/-! ## Classes -/

/-- Whether a code lies in one of the ranges. -/
def inRanges (ranges : List (Nat × Nat)) (code : Nat) : Bool :=
  ranges.any fun r => decide (r.1 ≤ code ∧ code ≤ r.2)

/-- Whether a character stands for a digit. -/
def isDigit (c : Char) : Bool :=
  inRanges digitRanges c.toNat

/-- Whether a character is a capital letter. -/
def isCapital (c : Char) : Bool :=
  lower c != [c] && !inRanges mixedRanges c.toNat || inRanges loneCapitalRanges c.toNat

/-- Whether a character is a small letter. -/
def isSmall (c : Char) : Bool :=
  upper c != [c] && !inRanges mixedRanges c.toNat || inRanges loneSmallRanges c.toNat

/-! ## ASCII -/

theorem upper_of_ascii {c : Char} (h : c.toNat < 128) : upper c = [c.toUpper] := by
  simp [upper, h]

theorem lower_of_ascii {c : Char} (h : c.toNat < 128) : lower c = [c.toLower] := by
  simp [lower, h]

example : upper 'ß' = ['S', 'S'] := by decide +kernel
example : upper 'ǆ' = ['Ǆ'] ∧ lower 'Ǆ' = ['ǆ'] := by decide +kernel
example : isCapital 'É' = true ∧ isSmall 'é' = true ∧ isSmall 'ª' = true := by decide +kernel
example : isCapital 'ǅ' = false ∧ isSmall 'ǅ' = false := by decide +kernel
example : isDigit '²' = true ∧ isDigit '½' = false := by decide +kernel

end SchemaScript.Text
