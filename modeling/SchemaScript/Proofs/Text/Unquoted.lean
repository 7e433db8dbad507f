import SchemaScript.Text.Quoted

/-!
# Reading quoted text

The reader of a quoted text, as JSON and scripts read it.

The text between the quotation marks is a sequence of UTF-16 units.  `readUnits` gathers them up to
the closing mark.  An escape with four hexadecimal digits is one unit, and a character beyond the
first 65536 is two of them, in two escapes or on its own.  So characters are made of units only when
all of these are there (`ofUnits?`), and a surrogate that is not one of a pair makes none.

A quoted text is read back as it was, with all that follows it left over (`readText_quoted`), and
holds no characters but the printable ones of ASCII (`isVisible_quoted`).
-/

namespace SchemaScript.Text

/-! ## The reader -/

/-- The number that a hexadecimal digit stands for. -/
def hexValue? (c : Char) : Option Nat :=
  if c.isDigit then some (c.toNat - 0x30)
  else if 'a' ≤ c ∧ c ≤ 'f' then some (c.toNat - 0x57)
  else if 'A' ≤ c ∧ c ≤ 'F' then some (c.toNat - 0x37)
  else none

/-- The number that four hexadecimal digits stand for. -/
def unit? (a b c d : Char) : Option Nat := do
  let p ← hexValue? a
  let q ← hexValue? b
  let r ← hexValue? c
  let s ← hexValue? d
  return ((p * 16 + q) * 16 + r) * 16 + s

/-- The character that a letter after a backslash stands for. -/
def unescaped? : Char → Option Char
  | '\x22' => some '\x22'
  | '\\' => some '\\'
  | '/' => some '/'
  | 'b' => some '\x08'
  | 'f' => some '\x0c'
  | 'n' => some '\n'
  | 'r' => some '\r'
  | 't' => some '\t'
  | _ => none

/-- The UTF-16 units of a character. -/
def utf16 (c : Char) : List Nat :=
  if c.toNat < 0x10000 then [c.toNat]
  else [0xd800 + (c.toNat - 0x10000) / 0x400, 0xdc00 + (c.toNat - 0x10000) % 0x400]

/-- The units up to the closing quotation mark, and what follows the mark. -/
def readUnits : List Char → Option (List Nat × List Char)
  | [] => none
  | '\x22' :: rest => some ([], rest)
  | '\\' :: 'u' :: a :: b :: c :: d :: rest => do
    let u ← unit? a b c d
    let (us, left) ← readUnits rest
    return (u :: us, left)
  | '\\' :: letter :: rest => do
    let c ← unescaped? letter
    let (us, left) ← readUnits rest
    return (utf16 c ++ us, left)
  | c :: rest =>
    if c.toNat < 0x20 then none
    else do
      let (us, left) ← readUnits rest
      return (utf16 c ++ us, left)

/-- Whether a unit is the first of a pair that stands for one character. -/
def isHighSurrogate (u : Nat) : Bool :=
  0xd800 ≤ u && u < 0xdc00

/-- Whether a unit is the second of a pair that stands for one character. -/
def isLowSurrogate (u : Nat) : Bool :=
  0xdc00 ≤ u && u < 0xe000

/-- The characters that units stand for. -/
def ofUnits? : List Nat → Option (List Char)
  | [] => some []
  | u :: rest =>
    if isHighSurrogate u then
      match rest with
      | [] => none
      | v :: rest =>
        if isLowSurrogate v then
          (ofUnits? rest).map
            (Char.ofNat (0x10000 + (u - 0xd800) * 0x400 + (v - 0xdc00)) :: ·)
        else none
    else if isLowSurrogate u then none
    else (ofUnits? rest).map (Char.ofNat u :: ·)

/-- The text up to the closing quotation mark, and what follows the mark. -/
def readText (chars : List Char) : Option (String × List Char) := do
  let (us, left) ← readUnits chars
  let cs ← ofUnits? us
  return (String.ofList cs, left)

/-! ## Units of characters -/

theorem ofUnits?_utf16 (c : Char) (us : List Nat) :
    ofUnits? (utf16 c ++ us) = (ofUnits? us).map (c :: ·) := by
  have hvalid : c.toNat < 0xd800 ∨ 0xdfff < c.toNat ∧ c.toNat < 0x110000 := c.valid
  unfold utf16
  split
  · next h =>
    have hhigh : isHighSurrogate c.toNat = false := by
      simp only [isHighSurrogate, Bool.and_eq_false_iff, decide_eq_false_iff_not]
      omega
    have hlow : isLowSurrogate c.toNat = false := by
      simp only [isLowSurrogate, Bool.and_eq_false_iff, decide_eq_false_iff_not]
      omega
    cases us <;> simp [ofUnits?, hhigh, hlow]
  · next h =>
    have hhigh : isHighSurrogate (0xd800 + (c.toNat - 0x10000) / 0x400) = true := by
      simp only [isHighSurrogate, Bool.and_eq_true, decide_eq_true_eq]
      omega
    have hlow : isLowSurrogate (0xdc00 + (c.toNat - 0x10000) % 0x400) = true := by
      simp only [isLowSurrogate, Bool.and_eq_true, decide_eq_true_eq]
      omega
    have hcode : 0x10000 + (0xd800 + (c.toNat - 0x10000) / 0x400 - 0xd800) * 0x400 +
        (0xdc00 + (c.toNat - 0x10000) % 0x400 - 0xdc00) = c.toNat := by
      omega
    simp only [List.cons_append, List.nil_append, ofUnits?, hhigh, hlow, hcode, if_true,
      Char.ofNat_toNat]

theorem ofUnits?_flatMap_utf16 (cs : List Char) : ofUnits? (cs.flatMap utf16) = some cs := by
  induction cs with
  | nil => rfl
  | cons c rest ih => rw [List.flatMap_cons, ofUnits?_utf16, ih, Option.map_some]

/-! ## Escapes -/

theorem hexValue?_hexDigit : ∀ n < 16, hexValue? (hexDigit n) = some n := by decide

theorem hex_four (n : Nat) :
    hex 4 n = [hexDigit (n / 0x1000 % 16), hexDigit (n / 0x100 % 16), hexDigit (n / 0x10 % 16),
      hexDigit (n % 16)] := by
  simp only [hex, List.nil_append, List.cons_append, Nat.div_div_eq_div_mul, Nat.reduceMul]

theorem readUnits_escapedUnit {n : Nat} (hn : n < 0x10000) (rest : List Char) :
    readUnits (escapedUnit n ++ rest) = (readUnits rest).map fun p => (n :: p.1, p.2) := by
  have hdigit (m : Nat) : hexValue? (hexDigit (m % 16)) = some (m % 16) :=
    hexValue?_hexDigit _ (Nat.mod_lt _ (by decide))
  have hsum : ((n / 0x1000 % 16 * 16 + n / 0x100 % 16) * 16 + n / 0x10 % 16) * 16 + n % 16 = n := by
    omega
  rw [escapedUnit, hex_four]
  simp only [List.cons_append, List.nil_append, readUnits, unit?, hdigit, bind, Option.bind, pure,
    hsum]
  cases readUnits rest <;> rfl

theorem readUnits_escapedUnits (c : Char) (rest : List Char) :
    readUnits (escapedUnits c.toNat ++ rest) =
      (readUnits rest).map fun p => (utf16 c ++ p.1, p.2) := by
  have hvalid : c.toNat < 0xd800 ∨ 0xdfff < c.toNat ∧ c.toNat < 0x110000 := c.valid
  unfold escapedUnits utf16
  split
  · next h => exact readUnits_escapedUnit h rest
  · next h =>
    rw [List.append_assoc, readUnits_escapedUnit (by omega), readUnits_escapedUnit (by omega),
      Option.map_map]
    rfl

/-- A short escape is read as its character. -/
theorem unescaped?_of_shortEscape? {c letter : Char} (h : shortEscape? c = some letter) :
    unescaped? letter = some c ∧ letter ≠ 'u' := by
  have heq {code : Nat} (hcode : c.toNat = code) : Char.ofNat code = c := by
    rw [← hcode, Char.ofNat_toNat]
  unfold shortEscape? at h
  split at h
  · next hc => cases h; rw [← heq hc]; decide
  split at h
  · next hc => cases h; rw [hc]; decide
  split at h
  · next hc => cases h; rw [hc]; decide
  split at h
  · next hc => cases h; rw [hc]; decide
  split at h
  · next hc => cases h; rw [hc]; decide
  split at h
  · next hc => cases h; rw [← heq hc]; decide
  split at h
  · next hc => cases h; rw [← heq hc]; decide
  · cases h

/-- A character without a short escape is neither a quotation mark nor a backslash. -/
theorem ne_of_shortEscape?_eq_none {c : Char} (h : shortEscape? c = none) :
    c ≠ '\x22' ∧ c ≠ '\\' := by
  constructor <;> rintro rfl <;> cases h

theorem readUnits_short {letter c : Char} (hletter : letter ≠ 'u')
    (h : unescaped? letter = some c) (rest : List Char) :
    readUnits ('\\' :: letter :: rest) = (readUnits rest).map fun p => (utf16 c ++ p.1, p.2) := by
  rw [readUnits]
  · rw [h]
    cases readUnits rest <;> rfl
  · intro _ _ _ _ _ heq
    exact absurd heq hletter

theorem readUnits_plain {c : Char} (hquote : c ≠ '\x22') (hbackslash : c ≠ '\\')
    (hc : 0x20 ≤ c.toNat) (rest : List Char) :
    readUnits (c :: rest) = (readUnits rest).map fun p => (utf16 c ++ p.1, p.2) := by
  rw [readUnits]
  · rw [if_neg (Nat.not_lt.mpr hc)]
    cases readUnits rest <;> rfl
  · exact hquote
  · intro _ _ _ _ _ heq
    exact absurd heq hbackslash
  · intro _ _ heq
    exact absurd heq hbackslash

/-- What stands for one character is read as its units. -/
theorem readUnits_quotedChar (c : Char) (rest : List Char) :
    readUnits (quotedChar c ++ rest) =
      (readUnits rest).map fun p => (utf16 c ++ p.1, p.2) := by
  unfold quotedChar
  cases hshort : shortEscape? c with
  | some letter =>
    obtain ⟨hc, hletter⟩ := unescaped?_of_shortEscape? hshort
    exact readUnits_short hletter hc rest
  | none =>
    obtain ⟨hquote, hbackslash⟩ := ne_of_shortEscape?_eq_none hshort
    show readUnits ((if _ then _ else _) ++ rest) = _
    split
    · next hc => exact readUnits_plain hquote hbackslash hc.1 rest
    · exact readUnits_escapedUnits c rest

/-! ## Quoted texts -/

theorem toList_quoted (s : String) :
    (quoted s).toList = '\x22' :: (s.toList.flatMap quotedChar ++ ['\x22']) := by
  rw [quoted, String.toList_ofList]
  rfl

theorem readUnits_flatMap_quotedChar (cs rest : List Char) :
    readUnits (cs.flatMap quotedChar ++ '\x22' :: rest) = some (cs.flatMap utf16, rest) := by
  induction cs with
  | nil => rfl
  | cons c cs ih =>
    rw [List.flatMap_cons, List.append_assoc, readUnits_quotedChar, ih]
    rfl

/-- A quoted text is read back behind its opening mark, up to its closing one. -/
theorem readText_quoted (s : String) (rest : List Char) :
    readText (s.toList.flatMap quotedChar ++ '\x22' :: rest) = some (s, rest) := by
  unfold readText
  rw [readUnits_flatMap_quotedChar]
  show ((ofUnits? (s.toList.flatMap utf16)).bind _) = _
  rw [ofUnits?_flatMap_utf16]
  exact congrArg (fun t => some (t, rest)) (String.ofList_toList)

/-! ## Characters of quoted texts -/

/-- Whether a character is a printable one of ASCII. -/
def isVisible (c : Char) : Bool :=
  0x20 ≤ c.toNat && c.toNat ≤ 0x7e

theorem isVisible_hexDigit : ∀ n < 16, isVisible (hexDigit n) = true := by decide

theorem isVisible_escapedUnit (n : Nat) : ∀ c ∈ escapedUnit n, isVisible c = true := by
  have hdigit (m : Nat) : isVisible (hexDigit (m % 16)) = true :=
    isVisible_hexDigit _ (Nat.mod_lt _ (by decide))
  rw [escapedUnit, hex_four]
  intro c hc
  simp only [List.mem_cons, List.not_mem_nil, or_false] at hc
  rcases hc with rfl | rfl | rfl | rfl | rfl | rfl
  · decide
  · decide
  all_goals exact hdigit _

theorem isVisible_escapedUnits (n : Nat) : ∀ c ∈ escapedUnits n, isVisible c = true := by
  unfold escapedUnits
  split
  · exact isVisible_escapedUnit n
  · intro c hc
    rcases List.mem_append.mp hc with hc | hc
    · exact isVisible_escapedUnit _ c hc
    · exact isVisible_escapedUnit _ c hc

theorem isVisible_of_unescaped? {letter c : Char} (h : unescaped? letter = some c) :
    isVisible letter = true := by
  unfold unescaped? at h
  split at h
  all_goals first | decide | cases h

theorem isVisible_quotedChar (c : Char) : ∀ d ∈ quotedChar c, isVisible d = true := by
  unfold quotedChar
  intro d hd
  cases hshort : shortEscape? c with
  | some letter =>
    rw [hshort] at hd
    rcases List.mem_cons.mp hd with rfl | hd
    · decide
    · rw [List.mem_singleton.mp hd]
      exact isVisible_of_unescaped? (unescaped?_of_shortEscape? hshort).1
  | none =>
    rw [hshort] at hd
    by_cases hc : 0x20 ≤ c.toNat ∧ c.toNat ≤ 0x7e
    · have hd : d = c := by simpa [hc] using hd
      rw [hd]
      simpa [isVisible] using hc
    · have hd : d ∈ escapedUnits c.toNat := by simpa only [if_neg hc] using hd
      exact isVisible_escapedUnits _ d hd

theorem isVisible_quoted (s : String) : ∀ c ∈ (quoted s).toList, isVisible c = true := by
  rw [toList_quoted]
  intro c hc
  simp only [List.mem_cons, List.mem_append, List.mem_flatMap, List.not_mem_nil, or_false] at hc
  rcases hc with rfl | ⟨d, _, hc⟩ | rfl
  · decide
  · exact isVisible_quotedChar d c hc
  · decide

end SchemaScript.Text
