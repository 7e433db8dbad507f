import Mathlib.Data.List.Induction
import SchemaScript.Name
import SchemaScript.Proofs.Text.Case

/-!
# Spellings of a name in camel case

Which names become a given name of two words in camel case, such as `toString`.

Small letters are only ever left as they are, so they stand in the name as they do in camel case
(`camelRest_eq_append_iff`).  The capital of the second word stands there itself, or after
underscores any letter with this capital form (`camelRest_eq_capital_iff`).  The first letter can be
any letter with the small form, and underscores at the end are lost.

`TwoWords.Spells` says this of a name without the rule that goes through it, and
`TwoWords.Lawful.lowerCamelCase_eq_iff` shows that it is the rule.
-/

namespace SchemaScript

open Text (isSmallAscii)

/-! ## Letters that are left as they are -/

theorem camelRest_nil (up : Bool) : camelRest up [] = [] := rfl

theorem camelRest_cons (up : Bool) (c : Char) (rest : List Char) :
    camelRest up (c :: rest) =
      if c = '_' then camelRest true rest
      else if Text.isDigit c then c :: camelRest true rest
      else if up then Text.upper c ++ camelRest false rest
      else c :: camelRest false rest := rfl

theorem camelChars_cons (c : Char) (rest : List Char) :
    camelChars (c :: rest) =
      if c = '_' ∨ Text.isDigit c then camelRest false (c :: rest)
      else Text.lower c ++ camelRest false rest := rfl

theorem camelRest_underscores (k : Nat) (up : Bool) (rest : List Char) :
    camelRest up (List.replicate k '_' ++ rest) = camelRest (up || decide (0 < k)) rest := by
  induction k generalizing up with
  | zero => simp
  | succ k ih =>
    rw [List.replicate_succ, List.cons_append, camelRest_cons, if_pos rfl, ih]
    simp

/-- Where a capital is due no small letter comes first. -/
theorem camelRest_true_ne {x : Char} (hx : isSmallAscii x = true) (s w : List Char) :
    camelRest true s ≠ x :: w := by
  induction s with
  | nil => exact (List.cons_ne_nil _ _).symm
  | cons c rest ih =>
    rw [camelRest_cons]
    split
    · exact ih
    · split
      · next hdigit =>
        intro h
        rw [(List.cons.inj h).1, Text.isDigit_of_isSmallAscii hx] at hdigit
        cases hdigit
      · rw [if_pos rfl]
        intro h
        obtain ⟨first, more, hupper⟩ := List.exists_cons_of_ne_nil (Text.upper_ne_nil c)
        rw [hupper, List.cons_append] at h
        have hmem : x ∈ Text.upper c := by
          rw [hupper, (List.cons.inj h).1]
          exact List.mem_cons_self
        exact Text.small_not_mem_upper hx hmem

theorem camelRest_eq_cons_iff {x : Char} (hx : isSmallAscii x = true) {s w : List Char} :
    camelRest false s = x :: w ↔ ∃ rest, s = x :: rest ∧ camelRest false rest = w := by
  have hmark : x ≠ '_' := by
    rintro rfl
    cases hx
  have hdigit := Text.isDigit_of_isSmallAscii hx
  constructor
  · intro h
    cases s with
    | nil => cases h
    | cons c rest =>
      rw [camelRest_cons] at h
      split at h
      · exact absurd h (camelRest_true_ne hx rest w)
      · split at h
        · next hc =>
          rw [(List.cons.inj h).1, hdigit] at hc
          cases hc
        · rw [if_neg Bool.false_ne_true] at h
          obtain ⟨rfl, hrest⟩ := List.cons.inj h
          exact ⟨rest, rfl, hrest⟩
  · rintro ⟨rest, rfl, rfl⟩
    rw [camelRest_cons, if_neg hmark, hdigit, if_neg Bool.false_ne_true, if_neg Bool.false_ne_true]

/-- Small letters come first in camel case exactly if they come first in the name. -/
theorem camelRest_eq_append_iff {word : List Char} (hword : ∀ x ∈ word, isSmallAscii x = true)
    {s w : List Char} :
    camelRest false s = word ++ w ↔ ∃ rest, s = word ++ rest ∧ camelRest false rest = w := by
  induction word generalizing s with
  | nil => simp
  | cons x word ih =>
    have hrest : ∀ y ∈ word, isSmallAscii y = true := fun y hy => hword y (List.mem_cons_of_mem _ hy)
    rw [List.cons_append, camelRest_eq_cons_iff (hword x List.mem_cons_self)]
    constructor
    · rintro ⟨rest, rfl, hcamel⟩
      obtain ⟨rest, rfl, hend⟩ := (ih hrest).mp hcamel
      exact ⟨rest, rfl, hend⟩
    · rintro ⟨rest, rfl, hcamel⟩
      exact ⟨word ++ rest, rfl, (ih hrest).mpr ⟨rest, rfl, hcamel⟩⟩

/-- Only underscores are lost without a trace. -/
theorem camelRest_eq_nil_iff {up : Bool} {s : List Char} :
    camelRest up s = [] ↔ ∃ k, s = List.replicate k '_' := by
  constructor
  · intro h
    induction s generalizing up with
    | nil => exact ⟨0, rfl⟩
    | cons c rest ih =>
      rw [camelRest_cons] at h
      split at h
      · next hmark =>
        obtain ⟨k, rfl⟩ := ih h
        exact ⟨k + 1, by rw [hmark, List.replicate_succ]⟩
      · split at h
        · cases h
        · split at h
          · exact absurd (List.append_eq_nil_iff.mp h).1 (Text.upper_ne_nil c)
          · cases h
  · rintro ⟨k, rfl⟩
    have hmarks := camelRest_underscores k up []
    rw [List.append_nil] at hmarks
    rw [hmarks, camelRest_nil]

/-- A name in camel case has no underscores. -/
theorem underscore_not_mem_camelRest (up : Bool) (s : List Char) : '_' ∉ camelRest up s := by
  induction s generalizing up with
  | nil => exact List.not_mem_nil
  | cons c rest ih =>
    rw [camelRest_cons]
    split
    · exact ih true
    · next hc =>
      have hne : '_' ≠ c := fun heq => hc heq.symm
      split
      · exact List.not_mem_cons_of_ne_of_not_mem hne (ih true)
      · split
        · rw [List.mem_append, not_or]
          exact ⟨fun hmem => hc (Text.eq_underscore_of_mem_upper hmem), ih false⟩
        · exact List.not_mem_cons_of_ne_of_not_mem hne (ih false)

theorem underscore_not_mem_camelChars (s : List Char) : '_' ∉ camelChars s := by
  cases s with
  | nil => exact List.not_mem_nil
  | cons c rest =>
    rw [camelChars_cons]
    split
    · exact underscore_not_mem_camelRest false _
    · next hc =>
      rw [List.mem_append, not_or]
      exact ⟨fun hmem => hc (.inl (Text.eq_underscore_of_mem_lower hmem)),
        underscore_not_mem_camelRest false rest⟩

/-! ## Two words -/

/-- The letters of a name of two words in camel case, with those that can stand for two of them. -/
structure TwoWords where
  /-- The first letter. -/
  head : Char
  /-- What the name can start with instead. -/
  heads : List Char
  /-- The rest of the first word. -/
  first : List Char
  /-- The capital of the second word. -/
  capital : Char
  /-- What the second word can start with after an underscore. -/
  capitals : List Char
  /-- The rest of the second word. -/
  second : List Char

namespace TwoWords

/-- The characters of the name. -/
def chars (w : TwoWords) : List Char :=
  w.head :: (w.first ++ w.capital :: w.second)

/-- A name is the two words, where underscores can stand between them and at the end, and each word
can start with other letters. -/
def Spells (w : TwoWords) (name : String) : Prop :=
  ∃ h ∈ w.heads, ∃ between c after,
    name.toList = h :: (w.first ++ (List.replicate between '_' ++
      c :: (w.second ++ List.replicate after '_'))) ∧
      if between = 0 then c = w.capital else c ∈ w.capitals

/-- The letters that can stand for two of the name are all that have the same form. -/
structure Lawful (w : TwoWords) : Prop where
  heads : ∀ {h}, w.head ∈ Text.lower h → h ∈ w.heads
  lower_heads : ∀ h ∈ w.heads, Text.lower h = [w.head] ∧ h ≠ '_' ∧ Text.isDigit h = false
  head : isSmallAscii w.head = true
  first : ∀ x ∈ w.first, isSmallAscii x = true
  capitals : ∀ {c}, Text.upper c = [w.capital] → c ∈ w.capitals
  upper_capitals : ∀ c ∈ w.capitals, Text.upper c = [w.capital]
  letters : ∀ c ∈ w.capital :: w.capitals, c ≠ '_' ∧ Text.isDigit c = false
  second : ∀ x ∈ w.second, isSmallAscii x = true
  second_ne_nil : w.second ≠ []

variable {w : TwoWords}

/-- Whether words are lawful.  Which letters have the form of another is looked at only for the
sources of this one. -/
def isLawful (w : TwoWords) : Bool :=
  let heads := Text.sources Text.lowerSpecials Text.lowerRuns w.head.toNat
  let capitals := Text.sources Text.upperSpecials Text.upperRuns w.capital.toNat
  isSmallAscii w.head && decide (w.capital.toNat ≠ 0 ∧ w.capital.toNat < 128) &&
    (heads.all fun n => decide (w.head ∈ Text.lower (Char.ofNat n) → Char.ofNat n ∈ w.heads)) &&
    (capitals.all fun n =>
      decide (Text.upper (Char.ofNat n) = [w.capital] → Char.ofNat n ∈ w.capitals)) &&
    (w.heads.all fun h => decide (Text.lower h = [w.head] ∧ h ≠ '_' ∧ Text.isDigit h = false)) &&
    (w.capitals.all fun c => decide (Text.upper c = [w.capital])) &&
    ((w.capital :: w.capitals).all fun c => decide (c ≠ '_' ∧ Text.isDigit c = false)) &&
    w.first.all isSmallAscii && w.second.all isSmallAscii && decide (w.second ≠ [])

theorem lawful_of_isLawful (h : w.isLawful = true) : w.Lawful := by
  simp only [isLawful, Bool.and_eq_true, decide_eq_true_eq] at h
  obtain ⟨⟨⟨⟨⟨⟨⟨⟨⟨hhead, hcapital⟩, hheads⟩, hcapitals⟩, hlower⟩, hupper⟩, hletters⟩, hfirst⟩,
    hsecond⟩, hne⟩ := h
  constructor
  case heads =>
    intro c hmem
    have hbounds := Text.bounds_of_isSmallAscii hhead
    exact of_decide_eq_true (Text.of_mem_lower (fun c => decide (w.head ∈ Text.lower c → c ∈ w.heads))
      hmem (by omega) (by omega) hheads) hmem
  case capitals =>
    intro c heq
    exact of_decide_eq_true (Text.of_mem_upper
      (fun c => decide (Text.upper c = [w.capital] → c ∈ w.capitals)) (heq ▸ List.mem_cons_self)
      hcapital.1 hcapital.2 hcapitals) heq
  case lower_heads => exact fun c hmem => of_decide_eq_true (List.all_eq_true.mp hlower c hmem)
  case upper_capitals => exact fun c hmem => of_decide_eq_true (List.all_eq_true.mp hupper c hmem)
  case letters => exact fun c hmem => of_decide_eq_true (List.all_eq_true.mp hletters c hmem)
  case head => exact hhead
  case first => exact List.all_eq_true.mp hfirst
  case second => exact List.all_eq_true.mp hsecond
  case second_ne_nil => exact hne

/-- A letter whose capital form is the start of the second word stands for the capital alone: a form
of several letters would put a capital where the word goes on with a small letter. -/
theorem Lawful.of_upper_append (hw : w.Lawful) {c : Char} {rest : List Char}
    (h : Text.upper c ++ rest = w.capital :: w.second) : c ∈ w.capitals ∧ rest = w.second := by
  obtain ⟨x, word, hsecond⟩ := List.exists_cons_of_ne_nil hw.second_ne_nil
  obtain ⟨first, more, hupper⟩ := List.exists_cons_of_ne_nil (Text.upper_ne_nil c)
  rw [hupper, List.cons_append] at h
  obtain ⟨rfl, hrest⟩ := List.cons.inj h
  cases more with
  | nil => exact ⟨hw.capitals hupper, hrest⟩
  | cons y more =>
    rw [hsecond, List.cons_append] at hrest
    have hx : isSmallAscii x = true := hw.second x (hsecond ▸ List.mem_cons_self)
    refine absurd ?_ (Text.small_not_mem_upper (c := c) hx)
    rw [hupper, (List.cons.inj hrest).1]
    exact List.mem_cons_of_mem _ List.mem_cons_self

/-- The capital comes first in camel case exactly if it comes first in the name, or one of the
letters with this form after underscores. -/
theorem Lawful.camelRest_eq_capital_iff (hw : w.Lawful) {up : Bool} {s : List Char} :
    camelRest up s = w.capital :: w.second ↔
      ∃ between c rest, s = List.replicate between '_' ++ c :: rest ∧
        (if between = 0 ∧ up = false then c = w.capital else c ∈ w.capitals) ∧
        camelRest false rest = w.second := by
  constructor
  · intro h
    induction s generalizing up with
    | nil => cases h
    | cons c rest ih =>
      rw [camelRest_cons] at h
      split at h
      · next hmark =>
        obtain ⟨between, d, rest', rfl, hd, hrest⟩ := ih h
        refine ⟨between + 1, d, rest', by rw [hmark, List.replicate_succ]; rfl, ?_, hrest⟩
        rw [if_neg (by simp)] at hd ⊢
        exact hd
      · split at h
        · next hdigit =>
          rw [(List.cons.inj h).1, (hw.letters _ List.mem_cons_self).2] at hdigit
          cases hdigit
        · split at h
          · next hup =>
            obtain ⟨hc, hrest⟩ := hw.of_upper_append h
            refine ⟨0, c, rest, rfl, ?_, hrest⟩
            rw [if_neg (by simp [hup])]
            exact hc
          · next hup =>
            obtain ⟨rfl, hrest⟩ := List.cons.inj h
            refine ⟨0, _, rest, rfl, ?_, hrest⟩
            rw [if_pos ⟨rfl, eq_false_of_ne_true hup⟩]
  · rintro ⟨between, c, rest, rfl, hc, hrest⟩
    have hletter : c ∈ w.capital :: w.capitals := by
      split at hc
      · exact hc ▸ List.mem_cons_self
      · exact List.mem_cons_of_mem _ hc
    obtain ⟨hmark, hdigit⟩ := hw.letters c hletter
    rw [camelRest_underscores, camelRest_cons, if_neg hmark, hdigit, if_neg Bool.false_ne_true, hrest]
    split at hc
    · next hnone =>
      rw [hnone.1, hnone.2, hc]
      rfl
    · next hsome =>
      rw [if_pos, hw.upper_capitals c hc]
      · rfl
      · cases up <;> simp_all [Nat.pos_iff_ne_zero]

theorem Lawful.camelRest_eq_words_iff (hw : w.Lawful) {s : List Char} :
    camelRest false s = w.first ++ w.capital :: w.second ↔
      ∃ between c after, s = w.first ++ (List.replicate between '_' ++
        c :: (w.second ++ List.replicate after '_')) ∧
          if between = 0 then c = w.capital else c ∈ w.capitals := by
  rw [camelRest_eq_append_iff hw.first]
  constructor
  · rintro ⟨s, rfl, hs⟩
    obtain ⟨between, c, rest, rfl, hc, hrest⟩ := hw.camelRest_eq_capital_iff.mp hs
    rw [← List.append_nil w.second, camelRest_eq_append_iff hw.second] at hrest
    obtain ⟨rest, rfl, hnil⟩ := hrest
    obtain ⟨after, rfl⟩ := camelRest_eq_nil_iff.mp hnil
    exact ⟨between, c, after, rfl, by simpa using hc⟩
  · rintro ⟨between, c, after, rfl, hc⟩
    refine ⟨_, rfl, hw.camelRest_eq_capital_iff.mpr ⟨between, c, _, rfl, by simpa using hc, ?_⟩⟩
    have hend := (camelRest_eq_append_iff hw.second).mpr
      ⟨List.replicate after '_', rfl, camelRest_eq_nil_iff.mpr ⟨after, rfl⟩⟩
    rwa [List.append_nil] at hend

/-- The first letter comes first in camel case exactly if a letter that can stand for it comes first
in the name. -/
theorem Lawful.camelChars_eq_cons_iff (hw : w.Lawful) {s rest : List Char} :
    camelChars s = w.head :: rest ↔ ∃ h ∈ w.heads, ∃ s', s = h :: s' ∧ camelRest false s' = rest := by
  constructor
  · intro h
    cases s with
    | nil => cases h
    | cons c s =>
      rw [camelChars_cons] at h
      split at h
      · next hmark =>
        obtain ⟨_, heq, _⟩ := (camelRest_eq_cons_iff hw.head).mp h
        rw [(List.cons.inj heq).1] at hmark
        rcases hmark with hmark | hdigit
        · have hhead := hw.head
          rw [hmark] at hhead
          cases hhead
        · rw [Text.isDigit_of_isSmallAscii hw.head] at hdigit
          cases hdigit
      · have hmem : w.head ∈ Text.lower c := by
          obtain ⟨first, more, hlower⟩ := List.exists_cons_of_ne_nil (Text.lower_ne_nil c)
          rw [hlower, List.cons_append] at h
          rw [hlower, (List.cons.inj h).1]
          exact List.mem_cons_self
        have hc := hw.heads hmem
        rw [(hw.lower_heads c hc).1] at h
        exact ⟨c, hc, s, rfl, (List.cons.inj h).2⟩
  · rintro ⟨c, hc, s', rfl, rfl⟩
    obtain ⟨hlower, hmark, hdigit⟩ := hw.lower_heads c hc
    rw [camelChars_cons, if_neg (by simp [hmark, hdigit]), hlower, List.singleton_append]

/-- A name becomes the two words in camel case exactly if it spells them. -/
theorem Lawful.lowerCamelCase_eq_iff (hw : w.Lawful) (name : String) :
    lowerCamelCase name = String.ofList w.chars ↔ w.Spells name := by
  rw [lowerCamelCase, String.ofList_inj, chars, hw.camelChars_eq_cons_iff, Spells]
  constructor
  · rintro ⟨h, hh, s, hname, hs⟩
    obtain ⟨between, c, after, rfl, hc⟩ := hw.camelRest_eq_words_iff.mp hs
    exact ⟨h, hh, between, c, after, hname, hc⟩
  · rintro ⟨h, hh, between, c, after, hname, hc⟩
    exact ⟨h, hh, _, hname, hw.camelRest_eq_words_iff.mpr ⟨between, c, after, rfl, hc⟩⟩

end TwoWords

end SchemaScript
