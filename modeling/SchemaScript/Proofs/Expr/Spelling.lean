import Mathlib.Data.List.Forall2
import SchemaScript.Proofs.Expr.Script
import SchemaScript.Proofs.Text.Joined

/-!
# Texts that spell values

A text *spells* a value (`Script.Spells`) if the reader takes it for the value wherever it stands,
as long as what follows it goes on with neither a word nor a number (`Script.Stops`).  Only texts of
printable characters of ASCII count, and only those with a start from which the reader sees that a
list does not end there.

Each form of literal spells its value: words, integers with or without a sign, quoted texts, lists,
and tables whose members spell a key and a value.  The forms with parts are put together of texts
that spell the parts, with a comma and a blank between them (`Script.joined`).  The number that the
reader carries is bounded by the length of a text: every mark of a literal pays for one step inward.
-/

namespace SchemaScript.Script

open Text

/-! ## Ends of words -/

/-- A text does not go on with a word or a number. -/
def Stops (rest : List Char) : Prop :=
  ∀ c ∈ rest.head?, isIdentifierRest c = false

theorem Stops.cons {c : Char} (h : isIdentifierRest c = false) (rest : List Char) :
    Stops (c :: rest) := by
  intro d hd
  rw [← Option.some.inj hd]
  exact h

theorem Stops.isDigit {rest : List Char} (h : Stops rest) : ∀ c ∈ rest.head?, c.isDigit = false :=
  fun c hc => (Bool.or_eq_false_iff.mp (h c hc)).2

/-- A run is cut where the characters of its kind end. -/
theorem takeWhile_append_stop {p : Char → Bool} {run rest : List Char} (hrun : ∀ c ∈ run, p c = true)
    (hrest : ∀ c ∈ rest.head?, p c = false) :
    (run ++ rest).takeWhile p = run ∧ (run ++ rest).dropWhile p = rest := by
  rw [List.takeWhile_append_of_pos hrun, List.dropWhile_append_of_pos hrun]
  cases rest with
  | nil => simp
  | cons c rest => simp [hrest c rfl]

theorem skipBlanks_cons {c : Char} (h : isBlank c = false) (rest : List Char) :
    skipBlanks (c :: rest) = c :: rest := by
  simp [skipBlanks, h]

theorem readName_append {c : Char} {inner rest : List Char} (hc : isIdentifierStart c = true)
    (hinner : ∀ d ∈ inner, isIdentifierRest d = true) (hrest : Stops rest) :
    readName (c :: inner ++ rest) = some (String.ofList (c :: inner), rest) := by
  obtain ⟨htake, hdrop⟩ := takeWhile_append_stop hinner hrest
  rw [List.cons_append, readName, if_pos hc, htake, hdrop]

/-! ## Characters of words and numbers -/

theorem isAlpha_iff_toNat {c : Char} : c.isAlpha = true ↔
    0x41 ≤ c.toNat ∧ c.toNat ≤ 0x5a ∨ 0x61 ≤ c.toNat ∧ c.toNat ≤ 0x7a := by
  have hupper : c.isUpper = true ↔ 0x41 ≤ c.toNat ∧ c.toNat ≤ 0x5a := by
    show decide (c.val ≥ 'A'.val ∧ c.val ≤ 'Z'.val) = true ↔ _
    rw [decide_eq_true_eq, ge_iff_le, UInt32.le_iff_toNat_le, UInt32.le_iff_toNat_le]
    rfl
  have hlower : c.isLower = true ↔ 0x61 ≤ c.toNat ∧ c.toNat ≤ 0x7a := by
    show (decide (c.val ≥ 'a'.val) && decide (c.val ≤ 'z'.val)) = true ↔ _
    rw [Bool.and_eq_true, decide_eq_true_eq, decide_eq_true_eq, ge_iff_le,
      UInt32.le_iff_toNat_le, UInt32.le_iff_toNat_le]
    rfl
  rw [← hupper, ← hlower]
  show (c.isUpper || c.isLower) = true ↔ _
  rw [Bool.or_eq_true]

theorem isDigit_iff {c : Char} : c.isDigit = true ↔ 0x30 ≤ c.toNat ∧ c.toNat ≤ 0x39 :=
  Char.isDigit_iff_toNat

theorem isVisible_of_isIdentifierRest {c : Char} (h : isIdentifierRest c = true) :
    isVisible c = true := by
  simp only [isIdentifierRest, isIdentifierStart, Bool.or_eq_true, beq_iff_eq, isAlpha_iff_toNat,
    isDigit_iff] at h
  rw [isVisible, Bool.and_eq_true, decide_eq_true_eq, decide_eq_true_eq]
  rcases h with ((h | rfl) | rfl) | h
  · omega
  · decide
  · decide
  · omega

/-- A character of a kind is not one that is not of the kind. -/
theorem ne_of_kind {p : Char → Bool} {c d : Char} (hc : p c = true) (hd : p d = false) :
    c ≠ d := by
  rintro rfl
  rw [hc] at hd
  cases hd

theorem isIdentifierStart_of_isDigit {c : Char} (h : c.isDigit = true) :
    isIdentifierStart c = false := by
  have halpha : c.isAlpha = false := by
    rw [Bool.eq_false_iff, ne_eq, isAlpha_iff_toNat]
    have hrange := isDigit_iff.mp h
    omega
  rw [isIdentifierStart, halpha, beq_false_of_ne (ne_of_kind h (by decide)),
    beq_false_of_ne (ne_of_kind h (by decide))]
  rfl

theorem isBlank_of_isIdentifierRest {c : Char} (h : isIdentifierRest c = true) :
    isBlank c = false := by
  rw [isBlank, beq_false_of_ne (ne_of_kind h (by decide)),
    beq_false_of_ne (ne_of_kind h (by decide)), beq_false_of_ne (ne_of_kind h (by decide)),
    beq_false_of_ne (ne_of_kind h (by decide))]
  rfl

/-! ## Digits -/

theorem head?_toDigits (n : Nat) : (Nat.toDigits 10 n).head? = some '0' → n = 0 := by
  induction n using Nat.strongRecOn with
  | ind n ih =>
    intro h
    by_cases hn : n < 10
    · rw [Nat.toDigits_of_lt_base hn] at h
      have hall : ∀ m < 10, [m.digitChar].head? = some '0' → m = 0 := by decide
      exact hall n hn h
    · rw [Nat.toDigits_of_base_le (by decide) (Nat.not_lt.mp hn),
        List.head?_append_of_ne_nil _ Nat.toDigits_ne_nil] at h
      have hfirst := ih (n / 10) (by omega) h
      omega

theorem ofDigits?_toDigits (n : Nat) : ofDigits? (Nat.toDigits 10 n) = some n := by
  have hvalue : Nat.ofDigitChars 10 (Nat.toDigits 10 n) 0 = n :=
    Nat.ofDigitChars_toDigits (by decide) (by decide)
  have hhead := head?_toDigits n
  match hdigits : Nat.toDigits 10 n with
  | [] => exact absurd hdigits Nat.toDigits_ne_nil
  | [c] => rw [ofDigits?, ← hdigits, hvalue]
  | c :: d :: rest =>
    have hc : c ≠ '0' := by
      rintro rfl
      have hn : n = 0 := hhead (by rw [hdigits]; rfl)
      have hzero : Nat.toDigits 10 0 = ['0'] := by decide
      rw [hn, hzero] at hdigits
      cases hdigits
    rw [ofDigits?, if_neg hc, ← hdigits, hvalue]
    simp

theorem isDigit_of_mem_toDigits {n : Nat} {c : Char} (hc : c ∈ Nat.toDigits 10 n) :
    c.isDigit = true :=
  Nat.isDigit_of_mem_toDigits (by decide) (by decide) hc

theorem readNat_toDigits (n : Nat) {rest : List Char} (hrest : Stops rest) :
    readNat (Nat.toDigits 10 n ++ rest) = some (n, rest) := by
  obtain ⟨htake, hdrop⟩ :=
    takeWhile_append_stop (fun _ hc => isDigit_of_mem_toDigits (n := n) hc) hrest.isDigit
  rw [readNat, htake, hdrop, ofDigits?_toDigits, Option.map_some]

/-! ## Texts of values -/

/-- A text is read as a value wherever it stands. -/
structure Spells (text : List Char) (v : Value) : Prop where
  /-- It is made of printable characters of ASCII. -/
  visible : ∀ c ∈ text, isVisible c = true
  /-- It starts with neither a blank nor the end of a list. -/
  starts : ∃ c inner, text = c :: inner ∧ isBlank c = false ∧ c ≠ ']'
  /-- The reader takes it for the value and leaves what follows. -/
  read : ∀ {fuel : Nat} {rest : List Char}, text.length ≤ fuel → Stops rest →
    readValue fuel (text ++ rest) = some (v, rest)

/-- Where no mark stands, there is a word or a number. -/
theorem readValue_unmarked {c : Char} (hc : isIdentifierRest c = true) (fuel : Nat)
    (rest : List Char) :
    readValue (fuel + 1) (c :: rest) =
      match readName (c :: rest) with
      | some (name, rest) => (word? name).map fun v => (v, rest)
      | none => (readNat (c :: rest)).map fun p => (.scalar (.int p.1), p.2) := by
  rw [readValue, skipBlanks_cons (isBlank_of_isIdentifierRest hc)]
  split
  · next heq => exact absurd (List.cons.inj heq).1 (ne_of_kind hc (by decide))
  · next heq => exact absurd (List.cons.inj heq).1 (ne_of_kind hc (by decide))
  · next heq => exact absurd (List.cons.inj heq).1 (ne_of_kind hc (by decide))
  · next heq => exact absurd (List.cons.inj heq).1 (ne_of_kind hc (by decide))
  · rfl

/-- A blank before a value is passed over. -/
theorem readValue_blank (fuel : Nat) (chars : List Char) :
    readValue fuel (' ' :: chars) = readValue fuel chars := by
  cases fuel with
  | zero => rw [readValue, readValue]
  | succ fuel =>
    rw [readValue, readValue]
    rfl

namespace Spells

/-- A text with a character of its own at the start spells what the reader takes it for. -/
theorem of_read {c : Char} {inner : List Char} {v : Value}
    (hvisible : ∀ d ∈ c :: inner, isVisible d = true) (hblank : isBlank c = false) (hc : c ≠ ']')
    (hread : ∀ {fuel : Nat} {rest : List Char}, inner.length ≤ fuel → Stops rest →
      readValue (fuel + 1) (c :: (inner ++ rest)) = some (v, rest)) : Spells (c :: inner) v := by
  refine ⟨hvisible, ⟨c, inner, rfl, hblank, hc⟩, ?_⟩
  intro fuel rest hfuel hrest
  cases fuel with
  | zero => cases hfuel
  | succ fuel => exact hread (Nat.le_of_succ_le_succ hfuel) hrest

/-- A word spells the value that it stands for. -/
theorem word {c : Char} {inner : List Char} {v : Value} (hc : isIdentifierStart c = true)
    (hall : inner.all isIdentifierRest = true)
    (hword : word? (String.ofList (c :: inner)) = some v) : Spells (c :: inner) v := by
  have hfirst : isIdentifierRest c = true := by
    rw [isIdentifierRest, hc]
    rfl
  have hinner : ∀ d ∈ inner, isIdentifierRest d = true := List.all_eq_true.mp hall
  have hboth : ∀ d ∈ c :: inner, isIdentifierRest d = true :=
    List.forall_mem_cons.mpr ⟨hfirst, hinner⟩
  refine of_read (fun d hd => isVisible_of_isIdentifierRest (hboth d hd))
    (isBlank_of_isIdentifierRest hfirst) (ne_of_kind hfirst (by decide)) ?_
  intro fuel rest _ hrest
  have hname := readName_append hc hinner hrest
  rw [List.cons_append] at hname
  rw [readValue_unmarked hfirst, hname]
  show (word? _).map _ = _
  rw [hword, Option.map_some]

theorem null : Spells "null".toList (.scalar .null) := by
  have hword : Spells ['n', 'u', 'l', 'l'] (.scalar .null) :=
    word (by decide) (by decide) rfl
  exact hword

theorem bool (b : Bool) : Spells (if b then "true" else "false").toList (.scalar (.bool b)) := by
  cases b with
  | true =>
    have hword : Spells ['t', 'r', 'u', 'e'] (.scalar (.bool true)) :=
      word (by decide) (by decide) rfl
    exact hword
  | false =>
    have hword : Spells ['f', 'a', 'l', 's', 'e'] (.scalar (.bool false)) :=
      word (by decide) (by decide) rfl
    exact hword

theorem digits (n : Nat) : Spells (Nat.toDigits 10 n) (.scalar (.int n)) := by
  have hall : ∀ d ∈ Nat.toDigits 10 n, isIdentifierRest d = true := fun d hd => by
    rw [isIdentifierRest, isDigit_of_mem_toDigits hd, Bool.or_true]
  obtain ⟨c, inner, hdigits⟩ := List.exists_cons_of_ne_nil (Nat.toDigits_ne_nil (n := n) (b := 10))
  have hc : c ∈ Nat.toDigits 10 n := hdigits ▸ List.mem_cons_self
  have hread {rest : List Char} (hrest : Stops rest) := readNat_toDigits n hrest
  rw [hdigits] at hall hread ⊢
  refine of_read (fun d hd => isVisible_of_isIdentifierRest (hall d hd))
    (isBlank_of_isIdentifierRest (hall c List.mem_cons_self))
    (ne_of_kind (hall c List.mem_cons_self) (by decide)) ?_
  intro fuel rest _ hrest
  have hname : readName (c :: (inner ++ rest)) = none := by
    rw [readName, isIdentifierStart_of_isDigit (isDigit_of_mem_toDigits hc)]
    rfl
  have hnat := hread hrest
  rw [List.cons_append] at hnat
  rw [readValue_unmarked (hall c List.mem_cons_self), hname]
  show (readNat _).map _ = _
  rw [hnat, Option.map_some]

theorem minus {n : Nat} (hn : n ≠ 0) : Spells ('-' :: Nat.toDigits 10 n) (.scalar (.int (-n))) := by
  refine of_read ?_ (by decide) (by decide) ?_
  · intro d hd
    rcases List.mem_cons.mp hd with rfl | hd
    · decide
    · exact (digits n).visible d hd
  · intro fuel rest _ hrest
    show (readNegative _).map _ = _
    rw [readNegative, readNat_toDigits n hrest, Option.bind_some, if_neg hn, Option.map_some]

theorem integer (n : Int) : Spells (intText n).toList (.scalar (.int n)) := by
  have hrepr (m : Nat) : (Nat.repr m).toList = Nat.toDigits 10 m := String.toList_ofList
  unfold intText
  split
  · next hn =>
    have hneg := minus (n := n.natAbs) (by omega)
    rw [show (-(n.natAbs : Int)) = n by omega] at hneg
    rw [String.toList_append, hrepr]
    exact hneg
  · next hn =>
    have hpos := digits n.natAbs
    rw [show (n.natAbs : Int) = n by omega] at hpos
    rw [hrepr]
    exact hpos

theorem text (s : String) : Spells (quoted s).toList (.text s) := by
  have hvisible := isVisible_quoted s
  rw [toList_quoted] at hvisible ⊢
  refine of_read hvisible (by decide) (by decide) ?_
  intro fuel rest _ _
  show (readText _).map _ = _
  rw [List.append_assoc, List.singleton_append, readText_quoted, Option.map_some]

end Spells

/-! ## Literals with parts -/

/-- Texts one after the other, with a comma and a blank between them. -/
def joined (parts : List (List Char)) : List Char :=
  [',', ' '].intercalate parts

theorem toList_intercalate_comma (parts : List String) :
    (", ".intercalate parts).toList = joined (parts.map String.toList) :=
  String.toList_intercalate

theorem joined_cons_cons (p q : List Char) (parts : List (List Char)) :
    joined (p :: q :: parts) = p ++ ',' :: ' ' :: joined (q :: parts) := by
  rw [joined, List.intercalate_cons_cons, List.append_assoc]
  rfl

theorem joined_singleton (p : List Char) : joined [p] = p := by
  rw [joined, List.intercalate_singleton]

/-- A property of characters holds in joined texts if it holds in each and of what joins them. -/
theorem forall_mem_joined {p : Char → Prop} (hcomma : p ',') (hblank : p ' ')
    {parts : List (List Char)} (h : ∀ part ∈ parts, ∀ c ∈ part, p c) : ∀ c ∈ joined parts, p c :=
  forall_mem_intercalate (by simp [hcomma, hblank]) h

theorem readItems_blank (fuel : Nat) (chars : List Char) :
    readItems fuel (' ' :: chars) = readItems fuel chars := by
  cases fuel with
  | zero => rw [readItems, readItems]
  | succ fuel => rw [readItems, readItems, readValue_blank]

/-- Texts of values are read one after the other, up to the end of the list. -/
theorem readItems_joined {part : List Char} {parts : List (List Char)} {v : Value}
    {vs : List Value} (hv : Spells part v) (h : List.Forall₂ Spells parts vs) {fuel : Nat}
    (hfuel : (joined (part :: parts)).length < fuel) (rest : List Char) :
    readItems fuel (joined (part :: parts) ++ ']' :: rest) = some (v :: vs, rest) := by
  induction h generalizing part v fuel with
  | nil =>
    rw [joined_singleton] at hfuel ⊢
    cases fuel with
    | zero => cases hfuel
    | succ fuel =>
      rw [readItems, hv.read (Nat.le_of_lt_succ hfuel) (Stops.cons (by decide) rest)]
      rfl
  | @cons next v' parts vs hv' _ ih =>
    rw [joined_cons_cons] at hfuel ⊢
    rw [List.length_append, List.length_cons, List.length_cons] at hfuel
    cases fuel with
    | zero => cases hfuel
    | succ fuel =>
      have hnext : readItems fuel (joined (next :: parts) ++ ']' :: rest) =
          some (v' :: vs, rest) := ih hv' (by omega)
      rw [List.append_assoc, List.cons_append, readItems,
        hv.read (by omega) (Stops.cons (by decide) _)]
      show (readItems fuel (' ' :: (joined (next :: parts) ++ ']' :: rest))).map _ = _
      rw [readItems_blank, hnext, Option.map_some]

/-- Where a list does not end at once, its items follow. -/
theorem readValue_items {c : Char} (hblank : isBlank c = false) (hc : c ≠ ']') (fuel : Nat)
    (rest : List Char) :
    readValue (fuel + 1) ('[' :: c :: rest) =
      (readItems fuel (c :: rest)).map fun p => (.list p.1, p.2) := by
  rw [readValue, skipBlanks_cons (by decide)]
  simp only [skipBlanks_cons hblank]
  split
  · next heq => exact absurd (List.cons.inj heq).1 hc
  · rfl

/-- A list of texts that spell values spells the list of the values. -/
theorem Spells.list {parts : List (List Char)} {vs : List Value}
    (h : List.Forall₂ Spells parts vs) : Spells ('[' :: (joined parts ++ [']'])) (.list vs) := by
  have hvisible : ∀ part ∈ parts, ∀ c ∈ part, isVisible c = true :=
    ((List.forall₂_and_left _ _).mp (h.imp fun _ _ hv => ⟨hv.visible, hv⟩)).1
  refine of_read ?_ (by decide) (by decide) ?_
  · intro c hc
    simp only [List.mem_cons, List.mem_append, List.not_mem_nil, or_false] at hc
    rcases hc with rfl | hc | rfl
    · decide
    · exact forall_mem_joined (by decide) (by decide) hvisible c hc
    · decide
  · intro fuel rest hfuel _
    rw [List.append_assoc, List.singleton_append]
    cases h with
    | nil => rfl
    | @cons part v parts vs hv hrest =>
      rw [List.length_append] at hfuel
      have hitems := readItems_joined hv hrest hfuel rest
      obtain ⟨c, inner, rfl, hblank, hc⟩ := hv.starts
      obtain ⟨tail, htail⟩ : ∃ tail, joined ((c :: inner) :: parts) = c :: tail := by
        cases parts with
        | nil => exact ⟨inner, joined_singleton _⟩
        | cons next parts => exact ⟨_, joined_cons_cons _ _ _⟩
      rw [htail] at hitems ⊢
      rw [List.cons_append] at hitems ⊢
      rw [readValue_items hblank hc, hitems, Option.map_some]

/-! ## Keys and members -/

/-- A text is read as a key where a colon follows. -/
structure SpellsKey (text : List Char) (key : String) : Prop where
  /-- It is made of printable characters of ASCII. -/
  visible : ∀ c ∈ text, isVisible c = true
  /-- It starts with neither a blank nor the end of a table. -/
  starts : ∃ c inner, text = c :: inner ∧ isBlank c = false ∧ c ≠ '\x7d'
  /-- The reader takes it for the key and leaves what follows. -/
  read : ∀ rest, readKey (text ++ ':' :: rest) = some (key, ':' :: rest)

/-- A text is that of a key, a colon, a blank and a text that spells a value. -/
def SpellsMember (text : List Char) (entry : Value × Value) : Prop :=
  ∃ key keyText valueText, text = keyText ++ ':' :: ' ' :: valueText ∧ SpellsKey keyText key ∧
    entry.1 = .text key ∧ Spells valueText entry.2

/-- Whether a text is an identifier of ASCII. -/
def isIdentifier : List Char → Bool
  | [] => false
  | c :: rest => isIdentifierStart c && rest.all isIdentifierRest

theorem isBareRest_iff {chars : List Char} :
    isBareRest chars = true ↔ (∀ c ∈ chars, isIdentifierRest c = true) ∨
      ∃ before, chars = before ++ ['\n'] ∧ ∀ c ∈ before, isIdentifierRest c = true := by
  fun_induction isBareRest chars with
  | case1 => exact iff_of_true rfl (.inl nofun)
  | case2 => exact iff_of_true rfl (.inr ⟨[], rfl, nofun⟩)
  | case3 c rest hlast ih =>
    rw [Bool.and_eq_true, ih, List.forall_mem_cons]
    constructor
    · rintro ⟨hc, hrest | ⟨before, rfl, hbefore⟩⟩
      · exact .inl ⟨hc, hrest⟩
      · exact .inr ⟨c :: before, rfl, List.forall_mem_cons.mpr ⟨hc, hbefore⟩⟩
    · rintro (⟨hc, hrest⟩ | ⟨before, heq, hbefore⟩)
      · exact ⟨hc, .inl hrest⟩
      · cases before with
        | nil => exact absurd (List.cons.inj heq).2 (hlast (List.cons.inj heq).1)
        | cons d before =>
          obtain ⟨rfl, rfl⟩ := List.cons.inj heq
          rw [List.forall_mem_cons] at hbefore
          exact ⟨hbefore.1, .inr ⟨before, rfl, hbefore.2⟩⟩

/-- A key is written bare if it is an identifier, and also with one line feed after it. -/
theorem isBareKey_iff {chars : List Char} :
    isBareKey chars = true ↔ isIdentifier chars = true ∨
      ∃ name, chars = name ++ ['\n'] ∧ isIdentifier name = true := by
  cases chars with
  | nil => simp [isBareKey, isIdentifier]
  | cons c rest =>
    rw [isBareKey, isIdentifier, Bool.and_eq_true, Bool.and_eq_true, isBareRest_iff,
      List.all_eq_true]
    constructor
    · rintro ⟨hc, hrest | ⟨before, rfl, hbefore⟩⟩
      · exact .inl ⟨hc, hrest⟩
      · refine .inr ⟨c :: before, rfl, ?_⟩
        rw [isIdentifier, hc, List.all_eq_true.mpr hbefore]
        rfl
    · rintro (⟨hc, hrest⟩ | ⟨name, heq, hname⟩)
      · exact ⟨hc, .inl hrest⟩
      · cases name with
        | nil => cases hname
        | cons d before =>
          obtain ⟨rfl, rfl⟩ := List.cons.inj heq
          rw [isIdentifier, Bool.and_eq_true, List.all_eq_true] at hname
          exact ⟨hname.1, .inr ⟨before, rfl, hname.2⟩⟩

/-- An identifier is read as the key that it is. -/
theorem SpellsKey.identifier {chars : List Char} (h : isIdentifier chars = true) :
    SpellsKey chars (String.ofList chars) := by
  cases chars with
  | nil => cases h
  | cons c inner =>
    rw [isIdentifier, Bool.and_eq_true, List.all_eq_true] at h
    have hfirst : isIdentifierRest c = true := by
      rw [isIdentifierRest, h.1]
      rfl
    have hall : ∀ d ∈ c :: inner, isIdentifierRest d = true :=
      List.forall_mem_cons.mpr ⟨hfirst, h.2⟩
    refine ⟨fun d hd => isVisible_of_isIdentifierRest (hall d hd), ⟨c, inner, rfl,
      isBlank_of_isIdentifierRest hfirst, ne_of_kind hfirst (by decide)⟩, fun rest => ?_⟩
    rw [readKey]
    · exact readName_append h.1 h.2 (Stops.cons (by decide) rest)
    · intro _ heq
      exact absurd (List.cons.inj heq).1 (ne_of_kind hfirst (by decide))

/-- A quoted text is read as the key that it quotes. -/
theorem SpellsKey.quoted (key : String) : SpellsKey (quoted key).toList key := by
  refine ⟨isVisible_quoted key, ?_, fun rest => ?_⟩
  · rw [toList_quoted]
    exact ⟨_, _, rfl, by decide, by decide⟩
  · rw [toList_quoted, List.cons_append, readKey, List.append_assoc, List.singleton_append,
      readText_quoted]

/-- A key without a line feed at its end is read from the way it is written, bare or quoted. -/
theorem SpellsKey.propertyName {key : String} (hlast : key.toList.getLast? ≠ some '\n') :
    SpellsKey (propertyName key).toList key := by
  unfold SchemaScript.propertyName
  split
  · next hbare =>
    rcases isBareKey_iff.mp hbare with hkey | ⟨name, heq, _⟩
    · have hspells := SpellsKey.identifier hkey
      rwa [String.ofList_toList] at hspells
    · exact absurd (by rw [heq, List.getLast?_concat]) hlast
  · exact SpellsKey.quoted key

theorem SpellsMember.visible {text : List Char} {entry : Value × Value}
    (h : SpellsMember text entry) : ∀ c ∈ text, isVisible c = true := by
  obtain ⟨key, keyText, valueText, rfl, hkey, _, hvalue⟩ := h
  intro c hc
  simp only [List.mem_append, List.mem_cons] at hc
  rcases hc with hc | rfl | rfl | hc
  · exact hkey.visible c hc
  · decide
  · decide
  · exact hvalue.visible c hc

/-- What is read of one member, up to what stands behind its value. -/
theorem SpellsMember.read {text : List Char} {entry : Value × Value} (h : SpellsMember text entry)
    {fuel : Nat} {rest : List Char} (hfuel : text.length ≤ fuel) (hrest : Stops rest) :
    readMembers (fuel + 1) (text ++ rest) =
      match skipBlanks rest with
      | ',' :: rest => (readMembers fuel rest).map fun p => (entry :: p.1, p.2)
      | '\x7d' :: rest => some ([entry], rest)
      | _ => none := by
  obtain ⟨key, keyText, valueText, rfl, hkey, hentry, hvalue⟩ := h
  obtain ⟨c, inner, hc, hblank, _⟩ := hkey.starts
  have hread := hkey.read (' ' :: valueText ++ rest)
  have hskip : skipBlanks (keyText ++ ':' :: (' ' :: valueText ++ rest)) =
      keyText ++ ':' :: (' ' :: valueText ++ rest) := by
    rw [hc]
    exact skipBlanks_cons hblank _
  rw [List.length_append, List.length_cons, List.length_cons] at hfuel
  rw [List.append_assoc, List.cons_append, readMembers, hskip, hread]
  show ((readValue fuel (' ' :: (valueText ++ rest))).bind _) = _
  rw [readValue_blank, hvalue.read (by omega) hrest, Option.bind_some]
  exact hentry ▸ rfl

theorem readMembers_blank (fuel : Nat) (chars : List Char) :
    readMembers fuel (' ' :: chars) = readMembers fuel chars := by
  cases fuel with
  | zero => rw [readMembers, readMembers]
  | succ fuel =>
    rw [readMembers, readMembers]
    rfl

/-- Texts of members are read one after the other, up to the end of the table. -/
theorem readMembers_joined {part : List Char} {parts : List (List Char)} {entry : Value × Value}
    {entries : List (Value × Value)} (hentry : SpellsMember part entry)
    (h : List.Forall₂ SpellsMember parts entries) {fuel : Nat}
    (hfuel : (joined (part :: parts)).length < fuel) (rest : List Char) :
    readMembers fuel (joined (part :: parts) ++ ' ' :: '\x7d' :: rest) =
      some (entry :: entries, rest) := by
  induction h generalizing part entry fuel with
  | nil =>
    rw [joined_singleton] at hfuel ⊢
    cases fuel with
    | zero => cases hfuel
    | succ fuel =>
      rw [hentry.read (Nat.le_of_lt_succ hfuel) (Stops.cons (by decide) _)]
      rfl
  | @cons next entry' parts entries hentry' _ ih =>
    rw [joined_cons_cons] at hfuel ⊢
    rw [List.length_append, List.length_cons, List.length_cons] at hfuel
    cases fuel with
    | zero => cases hfuel
    | succ fuel =>
      have hnext : readMembers fuel (joined (next :: parts) ++ ' ' :: '\x7d' :: rest) =
          some (entry' :: entries, rest) := ih hentry' (by omega)
      rw [List.append_assoc, List.cons_append,
        hentry.read (by omega) (Stops.cons (by decide) _)]
      show (readMembers fuel
        (' ' :: (joined (next :: parts) ++ ' ' :: '\x7d' :: rest))).map _ = _
      rw [readMembers_blank, hnext, Option.map_some]

/-- Where a table does not end at once, its members follow. -/
theorem readValue_members {c : Char} (hblank : isBlank c = false) (hc : c ≠ '\x7d') (fuel : Nat)
    (rest : List Char) :
    readValue (fuel + 1) ('\x7b' :: ' ' :: c :: rest) =
      (readMembers fuel (c :: rest)).map fun p => (.table (Value.tableOf p.1), p.2) := by
  have hskip : skipBlanks (' ' :: c :: rest) = c :: rest := skipBlanks_cons hblank rest
  rw [readValue, skipBlanks_cons (by decide)]
  simp only [hskip]
  split
  · next heq => exact absurd (List.cons.inj heq).1 hc
  · rfl

theorem Spells.emptyTable : Spells ['\x7b', '\x7d'] (.table []) :=
  of_read (List.all_eq_true.mp (by decide)) (by decide) (by decide) fun _ _ => rfl

/-- Texts that spell members spell the table of these. -/
theorem Spells.table {part : List Char} {parts : List (List Char)} {entry : Value × Value}
    {entries : List (Value × Value)} (hentry : SpellsMember part entry)
    (h : List.Forall₂ SpellsMember parts entries) :
    Spells ('\x7b' :: ' ' :: (joined (part :: parts) ++ [' ', '\x7d']))
      (.table (Value.tableOf (entry :: entries))) := by
  have hall := List.Forall₂.cons hentry h
  have hvisible : ∀ text ∈ part :: parts, ∀ c ∈ text, isVisible c = true :=
    ((List.forall₂_and_left _ _).mp (hall.imp fun _ _ hm => ⟨hm.visible, hm⟩)).1
  refine of_read ?_ (by decide) (by decide) ?_
  · intro c hc
    simp only [List.mem_cons, List.mem_append, List.not_mem_nil, or_false] at hc
    rcases hc with rfl | rfl | hc | rfl | rfl
    · decide
    · decide
    · exact forall_mem_joined (by decide) (by decide) hvisible c hc
    · decide
    · decide
  · intro fuel rest hfuel _
    rw [List.length_cons, List.length_append] at hfuel
    have hmembers : readMembers fuel (joined (part :: parts) ++ ' ' :: '\x7d' :: rest) =
        some (entry :: entries, rest) := readMembers_joined hentry h (by omega) rest
    obtain ⟨c, tail, htail, hblank, hc⟩ : ∃ c tail, joined (part :: parts) = c :: tail ∧
        isBlank c = false ∧ c ≠ '\x7d' := by
      obtain ⟨key, keyText, valueText, rfl, hkey, _, _⟩ := hentry
      obtain ⟨c, inner, rfl, hblank, hc⟩ := hkey.starts
      refine ⟨c, ?_⟩
      cases parts with
      | nil => exact ⟨_, joined_singleton _, hblank, hc⟩
      | cons next parts => exact ⟨_, joined_cons_cons _ _ _, hblank, hc⟩
    rw [htail] at hmembers ⊢
    rw [List.cons_append] at hmembers
    rw [List.cons_append, List.cons_append, List.cons_append, List.append_assoc,
      readValue_members hblank hc]
    show (readMembers fuel (c :: (tail ++ ' ' :: '\x7d' :: rest))).map _ = _
    rw [hmembers, Option.map_some]

end SchemaScript.Script
