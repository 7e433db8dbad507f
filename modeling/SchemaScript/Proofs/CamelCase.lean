import SchemaScript.Proofs.Spelling

/-!
# Camel case by position

What a name becomes in camel case, character by character.

The rule goes through the name with a flag that tells whether a capital is due.  The flag is set
exactly if the character before is an underscore or a digit, however many of them there are in a
row.  So what stands for a character depends on it and on the one before it only (`camelForm`), and
a name in camel case is made of what stands for its positions (`camelChars_eq_flatMap`).

On ASCII every form is one character, and it differs in case only.  So the rule keeps a name up to
underscores and case (`folded_camelRest`), and it does nothing more to what it has made, for all
capitals that are due are there already (`camelRest_camelRest`).  The one exception is the first
letter, which the rule makes small at the start of a name and a capital after an underscore.
-/

namespace SchemaScript

/-! ## Positions -/

/-- Whether a letter becomes a capital after a character. -/
def raisesNext (c : Char) : Bool :=
  decide (c = '_') || Text.isDigit c

/-- What stands in camel case for a character, if a given one is before it in the name. -/
def camelForm (before : Option Char) (c : Char) : List Char :=
  if c = '_' then []
  else if Text.isDigit c then [c]
  else
    match before with
    | none => Text.lower c
    | some b => if raisesNext b then Text.upper c else [c]

/-- The character before a position. -/
def charBefore? (s : List Char) : Nat → Option Char
  | 0 => none
  | i + 1 => s[i]?

/-- What stands in camel case for a position of a name. -/
def camelAt (s : List Char) (i : Nat) : List Char :=
  match s[i]? with
  | some c => camelForm (charBefore? s i) c
  | none => []

theorem flatMap_camelAt_cons (c : Char) (rest : List Char) :
    (List.range (c :: rest).length).flatMap (camelAt (c :: rest)) =
      camelForm none c ++ (List.range rest.length).flatMap fun i => camelAt (c :: rest) (i + 1) := by
  rw [List.length_cons, List.range_succ_eq_map, List.flatMap_cons, List.flatMap_map]
  rfl

theorem flatMap_camelAt_cons_cons (b c : Char) (rest : List Char) :
    (List.range (c :: rest).length).flatMap (fun i => camelAt (b :: c :: rest) (i + 1)) =
      camelForm (some b) c ++
        (List.range rest.length).flatMap fun i => camelAt (c :: rest) (i + 1) := by
  rw [List.length_cons, List.range_succ_eq_map, List.flatMap_cons, List.flatMap_map]
  rfl

theorem raisesNext_underscore : raisesNext '_' = true := rfl

theorem raisesNext_of_isDigit {c : Char} (h : Text.isDigit c = true) : raisesNext c = true := by
  rw [raisesNext, h, Bool.or_true]

theorem raisesNext_eq_false_iff {c : Char} :
    raisesNext c = false ↔ c ≠ '_' ∧ Text.isDigit c = false := by
  rw [raisesNext, Bool.or_eq_false_iff, decide_eq_false_iff_not]

/-- Behind a character the flag tells whether the next letter is raised by it. -/
theorem camelRest_cons_eq (up : Bool) (c : Char) (rest : List Char) :
    camelRest up (c :: rest) =
      (if c = '_' then [] else if Text.isDigit c then [c] else if up then Text.upper c else [c]) ++
        camelRest (raisesNext c) rest := by
  rw [camelRest_cons]
  by_cases hc : c = '_'
  · rw [if_pos hc, if_pos hc, hc, raisesNext_underscore, List.nil_append]
  · rw [if_neg hc, if_neg hc]
    by_cases hdigit : Text.isDigit c = true
    · rw [if_pos hdigit, if_pos hdigit, raisesNext_of_isDigit hdigit, List.singleton_append]
    · rw [if_neg hdigit, if_neg hdigit,
        raisesNext_eq_false_iff.mpr ⟨hc, Bool.eq_false_iff.mpr hdigit⟩]
      split
      · rfl
      · rw [List.singleton_append]

theorem camelRest_eq_flatMap (b : Char) (rest : List Char) :
    camelRest (raisesNext b) rest =
      (List.range rest.length).flatMap fun i => camelAt (b :: rest) (i + 1) := by
  induction rest generalizing b with
  | nil => rfl
  | cons c rest ih => rw [flatMap_camelAt_cons_cons, ← ih c, camelRest_cons_eq, camelForm]

theorem camelChars_eq_flatMap (s : List Char) :
    camelChars s = (List.range s.length).flatMap (camelAt s) := by
  cases s with
  | nil => rfl
  | cons c rest =>
    rw [flatMap_camelAt_cons, ← camelRest_eq_flatMap, camelChars_cons, camelForm]
    by_cases hc : c = '_'
    · rw [if_pos (.inl hc), if_pos hc, camelRest_cons_eq, if_pos hc]
    · by_cases hdigit : Text.isDigit c = true
      · rw [if_pos (.inr hdigit), if_neg hc, if_pos hdigit, camelRest_cons_eq, if_neg hc,
          if_pos hdigit]
      · rw [if_neg (not_or.mpr ⟨hc, hdigit⟩), if_neg hc, if_neg hdigit,
          raisesNext_eq_false_iff.mpr ⟨hc, Bool.eq_false_iff.mpr hdigit⟩]

/-! ## Steps of the rule -/

theorem ne_underscore_of_isDigit {c : Char} (h : Text.isDigit c = true) : c ≠ '_' := by
  rintro rfl
  cases h

theorem camelRest_digit {c : Char} (h : Text.isDigit c = true) (up : Bool) (rest : List Char) :
    camelRest up (c :: rest) = c :: camelRest true rest := by
  rw [camelRest_cons, if_neg (ne_underscore_of_isDigit h), if_pos h]

theorem camelRest_letter {c : Char} (h : raisesNext c = false) (up : Bool) (rest : List Char) :
    camelRest up (c :: rest) = (if up then Text.upper c else [c]) ++ camelRest false rest := by
  obtain ⟨hmark, hdigit⟩ := raisesNext_eq_false_iff.mp h
  rw [camelRest_cons_eq, if_neg hmark, if_neg (Bool.eq_false_iff.mp hdigit), h]

theorem camelChars_mark {c : Char} (h : raisesNext c = true) (rest : List Char) :
    camelChars (c :: rest) = camelRest false (c :: rest) := by
  rw [raisesNext, Bool.or_eq_true, decide_eq_true_eq] at h
  rw [camelChars_cons, if_pos h]

theorem camelChars_letter {c : Char} (h : raisesNext c = false) (rest : List Char) :
    camelChars (c :: rest) = Text.lower c ++ camelRest false rest := by
  obtain ⟨hmark, hdigit⟩ := raisesNext_eq_false_iff.mp h
  rw [camelChars_cons, if_neg (not_or.mpr ⟨hmark, Bool.eq_false_iff.mp hdigit⟩)]

/-- The three ways in which the rule goes on at a character. -/
theorem name_cases (c : Char) : c = '_' ∨ Text.isDigit c = true ∨ raisesNext c = false := by
  rw [raisesNext_eq_false_iff, ← Bool.not_eq_true]
  tauto

/-! ## Forms of ASCII -/

/-- What camel case relies on in a character of ASCII after which no letter is raised. -/
structure PlainForms (c : Char) : Prop where
  ascii_upper : c.toUpper.toNat < 128
  ascii_lower : c.toLower.toNat < 128
  raises_upper : raisesNext c.toUpper = false
  raises_lower : raisesNext c.toLower = false
  upper_upper : c.toUpper.toUpper = c.toUpper
  lower_upper : c.toUpper.toLower = c.toLower
  lower_lower : c.toLower.toLower = c.toLower
  letter : c.toLower = c.toUpper ↔ c.isAlpha = false

theorem plainForms_of_ascii {c : Char} (h : c.toNat < 128) (hc : raisesNext c = false) :
    PlainForms c := by
  have hkept : ∀ n < 128, (Char.ofNat n).toUpper.toNat < 128 ∧ (Char.ofNat n).toLower.toNat < 128 ∧
      (Char.ofNat n).toUpper.isDigit = (Char.ofNat n).isDigit ∧
        (Char.ofNat n).toLower.isDigit = (Char.ofNat n).isDigit := by decide +kernel
  have hforms : ∀ n < 128, (Char.ofNat n).toUpper.toUpper = (Char.ofNat n).toUpper ∧
      (Char.ofNat n).toUpper.toLower = (Char.ofNat n).toLower ∧
        (Char.ofNat n).toLower.toLower = (Char.ofNat n).toLower ∧
          ((Char.ofNat n).toLower = (Char.ofNat n).toUpper ↔ (Char.ofNat n).isAlpha = false) := by
    decide +kernel
  have hkept' := hkept _ h
  have hforms' := hforms _ h
  rw [Char.ofNat_toNat] at hkept' hforms'
  obtain ⟨hupper, hlower, hupperDigit, hlowerDigit⟩ := hkept'
  obtain ⟨hupperUpper, hupperLower, hlowerLower, hletter⟩ := hforms'
  obtain ⟨_, hupperMark, hlowerMark⟩ := Text.forms_of_ascii h
  obtain ⟨hmark, hdigit⟩ := raisesNext_eq_false_iff.mp hc
  rw [Text.isDigit_of_ascii h] at hdigit
  refine ⟨hupper, hlower, ?_, ?_, hupperUpper, hupperLower, hlowerLower, hletter⟩
  · rw [raisesNext_eq_false_iff, Text.isDigit_of_ascii hupper, hupperDigit]
    exact ⟨mt hupperMark hmark, hdigit⟩
  · rw [raisesNext_eq_false_iff, Text.isDigit_of_ascii hlower, hlowerDigit]
    exact ⟨mt hlowerMark hmark, hdigit⟩

/-! ## What is kept -/

/-- All characters of a name are of ASCII. -/
def IsAscii (s : List Char) : Prop :=
  ∀ c ∈ s, c.toNat < 128

instance : DecidablePred IsAscii :=
  List.decidableBAll fun c : Char => c.toNat < 128

/-- A name without underscores and with small letters only. -/
def folded (s : List Char) : List Char :=
  (s.filter (· ≠ '_')).map Char.toLower

theorem folded_cons {c : Char} (h : c ≠ '_') (s : List Char) :
    folded (c :: s) = c.toLower :: folded s := by
  simp [folded, h]

/-- A form that differs from its letter in case only is folded like the letter. -/
theorem folded_form {c x : Char} (hc : raisesNext c = false) (hx : raisesNext x = false)
    (hlower : x.toLower = c.toLower) {s t : List Char} (hrest : folded t = folded s) :
    folded (x :: t) = folded (c :: s) := by
  rw [folded_cons (raisesNext_eq_false_iff.mp hx).1, folded_cons (raisesNext_eq_false_iff.mp hc).1,
    hlower, hrest]

theorem folded_camelRest {s : List Char} (h : IsAscii s) (up : Bool) :
    folded (camelRest up s) = folded s := by
  induction s generalizing up with
  | nil => rfl
  | cons c rest ih =>
    obtain ⟨hc, hrest⟩ := List.forall_mem_cons.mp h
    rcases name_cases c with rfl | hdigit | hplain
    · exact ih hrest true
    · have hmark := ne_underscore_of_isDigit hdigit
      rw [camelRest_digit hdigit, folded_cons hmark, folded_cons hmark, ih hrest]
    · have hforms := plainForms_of_ascii hc hplain
      rw [camelRest_letter hplain]
      cases up with
      | false => exact folded_form hplain hplain rfl (ih hrest false)
      | true =>
        rw [if_pos rfl, Text.upper_of_ascii hc]
        exact folded_form hplain hforms.raises_upper hforms.lower_upper (ih hrest false)

theorem folded_camelChars {s : List Char} (h : IsAscii s) : folded (camelChars s) = folded s := by
  cases s with
  | nil => rfl
  | cons c rest =>
    obtain ⟨hc, hrest⟩ := List.forall_mem_cons.mp h
    by_cases hplain : raisesNext c = true
    · rw [camelChars_mark hplain]
      exact folded_camelRest h false
    · rw [Bool.not_eq_true] at hplain
      have hforms := plainForms_of_ascii hc hplain
      rw [camelChars_letter hplain, Text.lower_of_ascii hc]
      exact folded_form hplain hforms.raises_lower hforms.lower_lower (folded_camelRest hrest false)

/-! ## The rule once more -/

/-- The first character of a name that is no underscore. -/
def firstSpelled? (s : List Char) : Option Char :=
  s.find? (· ≠ '_')

theorem firstSpelled?_cons {c : Char} (h : c ≠ '_') (s : List Char) :
    firstSpelled? (c :: s) = some c := by
  simp [firstSpelled?, h]

/-- Where no capital is due that was not due before, nothing changes any more. -/
theorem camelRest_camelRest {s : List Char} (h : IsAscii s) {up again : Bool}
    (hup : again = true → up = true) : camelRest again (camelRest up s) = camelRest up s := by
  induction s generalizing up again with
  | nil => rfl
  | cons c rest ih =>
    obtain ⟨hc, hrest⟩ := List.forall_mem_cons.mp h
    rcases name_cases c with rfl | hdigit | hplain
    · exact ih hrest fun _ => rfl
    · rw [camelRest_digit hdigit, camelRest_digit hdigit, ih hrest fun _ => rfl]
    · have hforms := plainForms_of_ascii hc hplain
      have hend : camelRest false (camelRest false rest) = camelRest false rest := ih hrest id
      rw [camelRest_letter hplain]
      cases up with
      | false =>
        have hagain : again = false := Bool.eq_false_iff.mpr fun heq => absurd (hup heq) (by decide)
        rw [hagain, if_neg Bool.false_ne_true, List.singleton_append, camelRest_letter hplain, hend]
        rfl
      | true =>
        rw [if_pos rfl, Text.upper_of_ascii hc, List.singleton_append,
          camelRest_letter hforms.raises_upper, hend, Text.upper_of_ascii hforms.ascii_upper,
          hforms.upper_upper, ite_self]
        rfl

/-- Behind underscores the first letter is a capital, which the rule makes small again. -/
theorem camelChars_camelRest_iff {s : List Char} (h : IsAscii s) :
    camelChars (camelRest true s) = camelRest true s ↔
      ∀ c, firstSpelled? s = some c → c.isAlpha = false := by
  induction s with
  | nil => exact iff_of_true rfl nofun
  | cons c rest ih =>
    obtain ⟨hc, hrest⟩ := List.forall_mem_cons.mp h
    rcases name_cases c with rfl | hdigit | hplain
    · exact ih hrest
    · refine iff_of_true ?_ ?_
      · rw [camelRest_digit hdigit, camelChars_mark (raisesNext_of_isDigit hdigit),
          camelRest_digit hdigit, camelRest_camelRest hrest fun _ => rfl]
      · rw [firstSpelled?_cons (ne_underscore_of_isDigit hdigit)]
        rintro _ ⟨⟩
        exact Text.isAlpha_of_isDigit hc hdigit
    · have hforms := plainForms_of_ascii hc hplain
      rw [camelRest_letter hplain, if_pos rfl, Text.upper_of_ascii hc, List.singleton_append,
        camelChars_letter hforms.raises_upper, Text.lower_of_ascii hforms.ascii_upper,
        hforms.lower_upper, camelRest_camelRest hrest id, List.singleton_append, List.cons.injEq,
        and_iff_left rfl, hforms.letter, firstSpelled?_cons (raisesNext_eq_false_iff.mp hplain).1]
      simp

theorem camelChars_camelChars_iff {s : List Char} (h : IsAscii s) :
    camelChars (camelChars s) = camelChars s ↔
      s.head? ≠ some '_' ∨ ∀ c, firstSpelled? s = some c → c.isAlpha = false := by
  cases s with
  | nil => exact iff_of_true rfl (.inl nofun)
  | cons c rest =>
    obtain ⟨hc, hrest⟩ := List.forall_mem_cons.mp h
    rcases name_cases c with rfl | hdigit | hplain
    · rw [or_iff_right (by simp)]
      exact camelChars_camelRest_iff hrest
    · refine iff_of_true ?_ (.inl ?_)
      · rw [camelChars_mark (raisesNext_of_isDigit hdigit), camelRest_digit hdigit,
          camelChars_mark (raisesNext_of_isDigit hdigit), camelRest_digit hdigit,
          camelRest_camelRest hrest id]
      · simpa using ne_underscore_of_isDigit hdigit
    · have hforms := plainForms_of_ascii hc hplain
      refine iff_of_true ?_ (.inl ?_)
      · rw [camelChars_letter hplain, Text.lower_of_ascii hc, List.singleton_append,
          camelChars_letter hforms.raises_lower, Text.lower_of_ascii hforms.ascii_lower,
          hforms.lower_lower, camelRest_camelRest hrest id, List.singleton_append]
      · simpa using (raisesNext_eq_false_iff.mp hplain).1

/-- A name in camel case is made of what stands for its positions.  So on ASCII it is the name up to
underscores and case, and the rule changes it once more only where a name starts with an underscore
and its first letter comes before any digit. -/
theorem lowerCamelCase_by_position (name : String) :
    lowerCamelCase name =
        String.ofList ((List.range name.toList.length).flatMap (camelAt name.toList)) ∧
      (IsAscii name.toList →
        folded (lowerCamelCase name).toList = folded name.toList ∧
          (lowerCamelCase (lowerCamelCase name) = lowerCamelCase name ↔
            name.toList.head? ≠ some '_' ∨
              ∀ c, firstSpelled? name.toList = some c → c.isAlpha = false)) := by
  refine ⟨congrArg String.ofList (camelChars_eq_flatMap _), fun h => ⟨?_, ?_⟩⟩
  · rw [lowerCamelCase, String.toList_ofList]
    exact folded_camelChars h
  · rw [lowerCamelCase, lowerCamelCase, String.toList_ofList, String.ofList_inj]
    exact camelChars_camelChars_iff h

/-- Underscores at the start and in a row, a digit with a letter after it, and a capital. -/
theorem lowerCamelCase_by_position_of_raised :
    IsAscii "__foo__2barBaz".toList ∧ lowerCamelCase "__foo__2barBaz" = "Foo2BarBaz" ∧
      folded "Foo2BarBaz".toList = folded "__foo__2barBaz".toList ∧
        lowerCamelCase "Foo2BarBaz" ≠ "Foo2BarBaz" := by
  have hascii : IsAscii "__foo__2barBaz".toList := by decide
  have hcamel : lowerCamelCase "__foo__2barBaz" = "Foo2BarBaz" := by decide +kernel
  obtain ⟨hfolded, hagain⟩ := (lowerCamelCase_by_position "__foo__2barBaz").2 hascii
  rw [hcamel] at hfolded hagain
  refine ⟨hascii, hcamel, hfolded, fun heq => ?_⟩
  rcases hagain.mp heq with hhead | hletter
  · exact hhead (by decide)
  · exact absurd (hletter 'f' (by decide)) (by decide)

end SchemaScript
