import SchemaScript.Proofs.Text.Unquoted

/-!
# String literals of scripts

A reader for the string literals of a script, and which texts stand for themselves in them.

The reader goes through a literal character by character.  Behind a backslash it is in a state of
its own until the escape is complete (`LiteralState`).  It knows the letters for single characters,
escapes with two or four hexadecimal digits or with digits in braces, and line breaks that are left
out.  A line feed or carriage return without a backslash is refused, and so are octal escapes, as in
every module.  The value of a literal is a sequence of UTF-16 units.

An escape takes more units than it stands for.  So a text between quotation marks is read as itself
if and only if each of its characters stands for itself (`readLiteral_eq_some_iff`).  It makes no
difference where the reader takes the literal to end.
-/

namespace SchemaScript.Script

open Text

/-! ## The reader -/

/-- Where the reader of a string literal is. -/
inductive LiteralState where
  /-- Between characters. -/
  | plain
  /-- Behind a backslash. -/
  | escape
  /-- Behind an escaped zero, which no digit may follow. -/
  | zero
  /-- Behind an escaped carriage return, which a line feed belongs to. -/
  | carriage
  /-- Before the last digit of an escape and a count of others, with the value so far. -/
  | hex (others value : Nat)
  /-- Behind the letter of an escape with four digits or with braces. -/
  | unicode
  /-- Between the braces of an escape, with the value of the digits if there were any. -/
  | braces (value : Option Nat)

/-- What a character of a string literal does. -/
inductive LiteralStep where
  | refuse
  | close
  /-- Gives units to the value, and the reader goes on. -/
  | read (units : List Nat) (next : LiteralState)

namespace LiteralState

def plainStep (c : Char) : LiteralStep :=
  if c = '\x22' then .close
  else if c = '\\' then .read [] .escape
  else if c = '\n' ∨ c = '\r' then .refuse
  else .read (utf16 c) .plain

def escapeStep (c : Char) : LiteralStep :=
  match c with
  | 'b' => .read [0x08] .plain
  | 't' => .read [0x09] .plain
  | 'n' => .read [0x0a] .plain
  | 'v' => .read [0x0b] .plain
  | 'f' => .read [0x0c] .plain
  | 'r' => .read [0x0d] .plain
  | '0' => .read [0] .zero
  | 'x' => .read [] (.hex 1 0)
  | 'u' => .read [] .unicode
  | '\r' => .read [] .carriage
  | '\n' => .read [] .plain
  | '\u2028' => .read [] .plain
  | '\u2029' => .read [] .plain
  | c => if c.isDigit then .refuse else .read (utf16 c) .plain

def hexStep (others value : Nat) (c : Char) : LiteralStep :=
  match hexValue? c, others with
  | none, _ => .refuse
  | some digit, 0 => .read [value * 16 + digit] .plain
  | some digit, others + 1 => .read [] (.hex others (value * 16 + digit))

/-- The units of a code point, which may be a surrogate. -/
def pointUnits (n : Nat) : List Nat :=
  if n.isValidChar then utf16 (Char.ofNat n) else [n]

def bracesStep (value : Option Nat) (c : Char) : LiteralStep :=
  if c = '\x7d' then
    match value with
    | none => .refuse
    | some n => .read (pointUnits n) .plain
  else
    match hexValue? c with
    | none => .refuse
    | some digit =>
      let n := value.getD 0 * 16 + digit
      if n < 0x110000 then .read [] (.braces (some n)) else .refuse

/-- What a character does where the reader is. -/
def step : LiteralState → Char → LiteralStep
  | .plain, c => plainStep c
  | .escape, c => escapeStep c
  | .zero, c => if c.isDigit then .refuse else plainStep c
  | .carriage, c => if c = '\n' then .read [] .plain else plainStep c
  | .hex others value, c => hexStep others value c
  | .unicode, c => if c = '\x7b' then .read [] (.braces none) else hexStep 3 0 c
  | .braces value, c => bracesStep value c

end LiteralState

/-- The units up to the closing quotation mark, and what follows the mark. -/
def readLiteral : LiteralState → List Char → Option (List Nat × List Char)
  | _, [] => none
  | state, c :: rest =>
    match state.step c with
    | .refuse => none
    | .close => some ([], rest)
    | .read units next => (readLiteral next rest).map fun p => (units ++ p.1, p.2)

example : readLiteral .plain "\\x61b\\u\x7b63\x7d\\\nd\" e".toList =
    some ([0x61, 0x62, 0x63, 0x64], " e".toList) := by decide +kernel

/-! ## Units of escapes -/

theorem length_utf16 (c : Char) : 1 ≤ (utf16 c).length ∧ (utf16 c).length ≤ 2 := by
  unfold utf16
  split <;> simp

/-- How many units a state may give beyond those of the characters that are still to come. -/
def LiteralState.credit : LiteralState → Nat
  | .braces _ => 1
  | _ => 0

/-- A step closes the literal at a quotation mark only.  It gives no more units than those of its
character, apart from a credit. -/
def LiteralStep.Fits (c : Char) (credit : Nat) : LiteralStep → Prop
  | .refuse => True
  | .close => c = '\x22'
  | .read units next => units.length + next.credit ≤ (utf16 c).length + credit

namespace LiteralState

theorem length_pointUnits (n : Nat) : (pointUnits n).length ≤ 2 := by
  unfold pointUnits
  split
  · exact (length_utf16 _).2
  · exact Nat.le_succ 1

theorem plainStep_fits (c : Char) : (plainStep c).Fits c 0 := by
  unfold plainStep
  split
  · assumption
  split
  · exact Nat.zero_le _
  split
  · trivial
  · exact Nat.le_refl _

theorem escapeStep_fits (c : Char) : (escapeStep c).Fits c 0 := by
  have hlength := (length_utf16 c).1
  unfold escapeStep
  split
  case h_14 =>
    split
    · trivial
    · exact Nat.le_refl _
  all_goals
    simp only [LiteralStep.Fits, credit, List.length_cons, List.length_nil]
    omega

theorem hexStep_fits (others value : Nat) (c : Char) : (hexStep others value c).Fits c 0 := by
  unfold hexStep
  split
  · trivial
  · exact (length_utf16 c).1
  · exact Nat.zero_le _

theorem bracesStep_fits (value : Option Nat) (c : Char) : (bracesStep value c).Fits c 1 := by
  have hlength := (length_utf16 c).1
  unfold bracesStep
  split
  · split
    · trivial
    · next n =>
      have hpoint := length_pointUnits n
      simp only [LiteralStep.Fits, credit]
      omega
  · split
    · trivial
    · dsimp only
      split
      · simp only [LiteralStep.Fits, credit, List.length_nil]
        omega
      · trivial

theorem step_fits (state : LiteralState) (c : Char) : (state.step c).Fits c state.credit := by
  cases state with
  | plain => exact plainStep_fits c
  | escape => exact escapeStep_fits c
  | zero =>
    rw [step]
    split
    · trivial
    · exact plainStep_fits c
  | carriage =>
    rw [step]
    split
    · exact Nat.zero_le _
    · exact plainStep_fits c
  | hex others value => exact hexStep_fits others value c
  | unicode =>
    rw [step]
    split
    · exact (length_utf16 c).1
    · exact hexStep_fits 3 0 c
  | braces value => exact bracesStep_fits value c

end LiteralState

/-- A literal ends at a quotation mark, and its value has no more units than the text before it,
apart from the credit of the state. -/
theorem readLiteral_bound {state : LiteralState} {chars left : List Char} {units : List Nat}
    (h : readLiteral state chars = some (units, left)) :
    ∃ inner, chars = inner ++ '\x22' :: left ∧
      units.length ≤ (inner.flatMap utf16).length + state.credit := by
  induction chars generalizing state units with
  | nil => cases h
  | cons c rest ih =>
    have hfits := state.step_fits c
    rw [readLiteral] at h
    split at h
    · cases h
    · next hclose =>
      rw [hclose] at hfits
      cases h
      exact ⟨[], by rw [show c = '\x22' from hfits]; rfl, Nat.zero_le _⟩
    · next first next hread =>
      rw [hread] at hfits
      obtain ⟨⟨units', left'⟩, hrest, heq⟩ := Option.map_eq_some_iff.mp h
      cases heq
      obtain ⟨inner, hinner, hbound⟩ := ih hrest
      refine ⟨c :: inner, by rw [hinner]; rfl, ?_⟩
      have hfirst : first.length + next.credit ≤ (utf16 c).length + state.credit := hfits
      simp only [List.flatMap_cons, List.length_append]
      omega

/-! ## Texts that stand for themselves -/

/-- A character stands for itself in a string literal. -/
def IsVerbatim (c : Char) : Prop :=
  c ≠ '\x22' ∧ c ≠ '\\' ∧ c ≠ '\n' ∧ c ≠ '\r'

instance (c : Char) : Decidable (IsVerbatim c) := by
  unfold IsVerbatim; infer_instance

theorem readLiteral_verbatim {c : Char} (hc : IsVerbatim c) (rest : List Char) :
    readLiteral .plain (c :: rest) =
      (readLiteral .plain rest).map fun p => (utf16 c ++ p.1, p.2) := by
  obtain ⟨hquote, hbackslash, hfeed, hreturn⟩ := hc
  have hstep : LiteralState.plain.step c = .read (utf16 c) .plain := by
    rw [LiteralState.step, LiteralState.plainStep, if_neg hquote, if_neg hbackslash,
      if_neg (not_or.mpr ⟨hfeed, hreturn⟩)]
  rw [readLiteral, hstep]

/-- A text each of whose characters stands for itself. -/
def Verbatim (s : String) : Prop :=
  ∀ c ∈ s.toList, IsVerbatim c

instance (s : String) : Decidable (Verbatim s) :=
  List.decidableBAll _ _

/-- The UTF-16 units of a text. -/
def units (s : String) : List Nat :=
  s.toList.flatMap utf16

/-- What is read up to a quotation mark is part of the text before the last one. -/
theorem prefix_of_append_eq {inner text tail left : List Char} (htail : '\x22' ∉ tail)
    (h : text ++ '\x22' :: tail = inner ++ '\x22' :: left) : inner <+: text := by
  rcases List.append_eq_append_iff.mp h with ⟨more, rfl, hmore⟩ | ⟨more, rfl, _⟩
  · cases more with
    | nil => simp
    | cons c more =>
      obtain ⟨-, rfl⟩ := List.cons.inj hmore
      exact absurd (List.mem_append_right more List.mem_cons_self) htail
  · exact List.prefix_append _ _

theorem plainStep_of_not_verbatim {c : Char} (hc : ¬ IsVerbatim c) :
    LiteralState.plain.step c = .close ∨ LiteralState.plain.step c = .refuse ∨
      LiteralState.plain.step c = .read [] .escape := by
  rw [LiteralState.step, LiteralState.plainStep]
  split
  · exact .inl rfl
  · next hquote =>
    split
    · exact .inr (.inr rfl)
    · next hbackslash =>
      split
      · exact .inr (.inl rfl)
      · next hbreak => exact absurd ⟨hquote, hbackslash, not_or.mp hbreak⟩ hc

/-- A literal has fewer units than its text if the first character does not stand for itself. -/
theorem length_lt_of_not_verbatim {c : Char} (hc : ¬ IsVerbatim c) {text tail left : List Char}
    {units : List Nat} (htail : '\x22' ∉ tail)
    (h : readLiteral .plain (c :: (text ++ '\x22' :: tail)) = some (units, left)) :
    units.length < ((c :: text).flatMap utf16).length := by
  have hfirst := (length_utf16 c).1
  rw [List.flatMap_cons, List.length_append]
  rw [readLiteral] at h
  rcases plainStep_of_not_verbatim hc with hstep | hstep | hstep <;> rw [hstep] at h
  · cases h
    exact Nat.lt_of_lt_of_le hfirst (Nat.le_add_right _ _)
  · cases h
  · obtain ⟨⟨units', left'⟩, hread, heq⟩ := Option.map_eq_some_iff.mp h
    cases heq
    -- The literal may end before the end of the text, but not behind it.
    obtain ⟨inner, hinner, hbound⟩ := readLiteral_bound hread
    obtain ⟨more, rfl⟩ := prefix_of_append_eq htail hinner
    have hcredit : LiteralState.escape.credit = 0 := rfl
    simp only [List.flatMap_append, List.length_append, List.nil_append]
    omega

/-- A text between quotation marks is read as itself if and only if each of its characters stands
for itself. -/
theorem readLiteral_eq_some_iff {text tail : List Char} (htail : '\x22' ∉ tail)
    {left : List Char} :
    readLiteral .plain (text ++ '\x22' :: tail) = some (text.flatMap utf16, left) ↔
      left = tail ∧ ∀ c ∈ text, IsVerbatim c := by
  induction text with
  | nil => simp [readLiteral, LiteralState.step, LiteralState.plainStep, eq_comm]
  | cons c rest ih =>
    rw [List.cons_append, List.forall_mem_cons]
    by_cases hc : IsVerbatim c
    · rw [readLiteral_verbatim hc, and_iff_right hc, ← ih, Option.map_eq_some_iff]
      constructor
      · rintro ⟨⟨units, left'⟩, hread, heq⟩
        obtain ⟨hunits, rfl⟩ := Prod.mk.inj heq
        rw [List.flatMap_cons, List.append_right_inj] at hunits
        rw [hread, ← hunits]
      · intro hread
        exact ⟨_, hread, rfl⟩
    · exact iff_of_false (fun h => Nat.lt_irrefl _ (length_lt_of_not_verbatim hc htail h))
        fun h => hc h.2.1

end SchemaScript.Script
