import SchemaScript.Text.Case

/-!
# Letters with a given form

Which characters have a given character of ASCII in their capital or their small form.

Beyond ASCII a form is looked up in tables.  So a character with a given form is one of ASCII or
stands in the tables, and there are few of them (`sources`).  What is to be shown of all characters
with a given form has to be looked at only for these (`of_mem_upper`, `of_mem_lower`).

For some characters the tables have no form at all (`avoids`).  So no capital form has a small letter
in it (`small_not_mem_upper`), and a letter that was written in capitals can be told from one that
was left as it is.
-/

namespace SchemaScript.Text

variable {specials : List (Nat × List Nat)} {runs : List CaseRun} {c x : Char}

/-! ## Forms by tables -/

/-- The codes of ASCII, and those that tables give a form with the given code in it. -/
def sources (specials : List (Nat × List Nat)) (runs : List CaseRun) (code : Nat) : List Nat :=
  List.range 128 ++
    ((specials.filter fun e => e.2.contains code).map Prod.fst ++
      (runs.filter fun r =>
          decide (r.first ≤ (code : Int) - r.shift ∧ (code : Int) - r.shift ≤ r.last)).map fun r =>
        Int.toNat (code - r.shift))

theorem toNat_ofNat_eq {n : Nat} (h : Char.ofNat n = x) (hx : x.toNat ≠ 0) : n = x.toNat := by
  by_cases hvalid : n.isValidChar
  · rw [Char.ofNat, dif_pos hvalid] at h
    subst h
    rfl
  · rw [Char.ofNat, dif_neg hvalid] at h
    subst h
    exact absurd rfl hx

/-- A character in a form comes from a long form, from a run, or is the character itself. -/
theorem mem_mappedBy (h : x ∈ mappedBy specials runs c) :
    (∃ codes, (c.toNat, codes) ∈ specials ∧ x ∈ codes.map Char.ofNat) ∨
      (∃ r ∈ runs, (r.first ≤ c.toNat ∧ c.toNat ≤ r.last) ∧
        Char.ofNat (Int.toNat (c.toNat + r.shift)) = x) ∨ x = c := by
  unfold mappedBy at h
  split at h
  · next codes hcodes =>
    obtain ⟨before, after, hsplit, _⟩ := List.lookup_eq_some_iff.mp hcodes
    refine .inl ⟨codes, ?_, h⟩
    rw [hsplit]
    exact List.mem_append_right _ List.mem_cons_self
  · split at h
    · next code hcode =>
      obtain ⟨r, hr, himage⟩ := List.exists_of_findSome?_eq_some hcode
      unfold CaseRun.image? at himage
      split at himage
      · next hin =>
        rw [← Option.some.inj himage] at h
        exact .inr (.inl ⟨r, hr, ⟨hin.1, hin.2.1⟩, (List.mem_singleton.mp h).symm⟩)
      · cases himage
    · exact .inr (.inr (List.mem_singleton.mp h))

/-- A character of ASCII in a form leads back to a source of it. -/
theorem mem_sources (h : x ∈ mappedBy specials runs c) (hx : x.toNat ≠ 0) (hascii : x.toNat < 128) :
    c.toNat ∈ sources specials runs x.toNat := by
  rw [sources, List.mem_append, List.mem_append, List.mem_range]
  rcases mem_mappedBy h with ⟨codes, hcodes, hmem⟩ | ⟨r, hr, hin, hform⟩ | rfl
  · obtain ⟨n, hn, hnx⟩ := List.mem_map.mp hmem
    have hcode : codes.contains x.toNat = true :=
      List.contains_iff_mem.mpr (toNat_ofNat_eq hnx hx ▸ hn)
    exact .inr (.inl (List.mem_map.mpr ⟨_, List.mem_filter.mpr ⟨hcodes, hcode⟩, rfl⟩))
  · have hcode := toNat_ofNat_eq hform hx
    refine .inr (.inr (List.mem_map.mpr ⟨r, List.mem_filter.mpr ⟨hr, ?_⟩, by omega⟩))
    exact decide_eq_true (by omega)
  · exact .inl hascii

/-- Whether every long form has a character, and no code of a form by tables lies between bounds. -/
def avoids (specials : List (Nat × List Nat)) (runs : List CaseRun) (low high : Nat) : Bool :=
  (specials.all fun e => !e.2.isEmpty && e.2.all fun n => decide (n < low ∨ high < n)) &&
    runs.all fun r => decide (r.last + r.shift < low ∨ high < r.first + r.shift)

theorem mappedBy_ne_nil {low high : Nat} (h : avoids specials runs low high = true) :
    mappedBy specials runs c ≠ [] := by
  unfold mappedBy
  split
  · next codes hcodes =>
    obtain ⟨before, after, hsplit, _⟩ := List.lookup_eq_some_iff.mp hcodes
    have hmem : (c.toNat, codes) ∈ specials := by
      rw [hsplit]
      exact List.mem_append_right _ List.mem_cons_self
    have hentry := List.all_eq_true.mp (Bool.and_eq_true_iff.mp h).1 _ hmem
    simpa using (Bool.and_eq_true_iff.mp hentry).1
  · split <;> exact List.cons_ne_nil _ _

/-- A character between the bounds has no other source than itself. -/
theorem eq_of_mem_mappedBy {low high : Nat} (havoids : avoids specials runs low high = true)
    (hpos : 0 < low) (hlow : low ≤ x.toNat) (hhigh : x.toNat ≤ high)
    (h : x ∈ mappedBy specials runs c) : x = c := by
  obtain ⟨hspecials, hruns⟩ := Bool.and_eq_true_iff.mp havoids
  rcases mem_mappedBy h with ⟨codes, hcodes, hmem⟩ | ⟨r, hr, hin, hform⟩ | heq
  · obtain ⟨n, hn, hnx⟩ := List.mem_map.mp hmem
    have hcode := toNat_ofNat_eq hnx (by omega)
    have hentry := List.all_eq_true.mp hspecials _ hcodes
    have hout := of_decide_eq_true (List.all_eq_true.mp (Bool.and_eq_true_iff.mp hentry).2 n hn)
    omega
  · have hcode := toNat_ofNat_eq hform (by omega)
    have hout := of_decide_eq_true (List.all_eq_true.mp hruns r hr)
    omega
  · exact heq

/-! ## The forms of characters -/

theorem avoids_upper : avoids upperSpecials upperRuns 95 122 = true := by decide +kernel

theorem avoids_lower : avoids lowerSpecials lowerRuns 95 95 = true := by decide +kernel

/-- A capital form is that of ASCII or one by tables. -/
theorem upper_cases (c : Char) :
    c.toNat < 128 ∧ upper c = [c.toUpper] ∨
      128 ≤ c.toNat ∧ upper c = mappedBy upperSpecials upperRuns c := by
  rcases Nat.lt_or_ge c.toNat 128 with hc | hc
  · exact .inl ⟨hc, upper_of_ascii hc⟩
  · exact .inr ⟨hc, if_neg (Nat.not_lt.mpr hc)⟩

/-- A small form is that of ASCII or one by tables. -/
theorem lower_cases (c : Char) :
    c.toNat < 128 ∧ lower c = [c.toLower] ∨
      128 ≤ c.toNat ∧ lower c = mappedBy lowerSpecials lowerRuns c := by
  rcases Nat.lt_or_ge c.toNat 128 with hc | hc
  · exact .inl ⟨hc, lower_of_ascii hc⟩
  · exact .inr ⟨hc, if_neg (Nat.not_lt.mpr hc)⟩

theorem upper_ne_nil (c : Char) : upper c ≠ [] := by
  rcases upper_cases c with ⟨_, hform⟩ | ⟨_, hform⟩
  · rw [hform]
    exact List.cons_ne_nil _ _
  · rw [hform]
    exact mappedBy_ne_nil avoids_upper

theorem lower_ne_nil (c : Char) : lower c ≠ [] := by
  rcases lower_cases c with ⟨_, hform⟩ | ⟨_, hform⟩
  · rw [hform]
    exact List.cons_ne_nil _ _
  · rw [hform]
    exact mappedBy_ne_nil avoids_lower

/-- What holds of all sources of a character of ASCII holds of every character with it in its
capital form. -/
theorem of_mem_upper (p : Char → Bool) (h : x ∈ upper c) (hx : x.toNat ≠ 0)
    (hascii : x.toNat < 128)
    (hall : ((sources upperSpecials upperRuns x.toNat).all fun n => p (Char.ofNat n)) = true) :
    p c = true := by
  have hmem : c.toNat ∈ sources upperSpecials upperRuns x.toNat := by
    rcases upper_cases c with ⟨hc, _⟩ | ⟨_, hform⟩
    · exact List.mem_append_left _ (List.mem_range.mpr hc)
    · exact mem_sources (hform ▸ h) hx hascii
  have hp := List.all_eq_true.mp hall _ hmem
  rwa [Char.ofNat_toNat] at hp

/-- What holds of all sources of a character of ASCII holds of every character with it in its small
form. -/
theorem of_mem_lower (p : Char → Bool) (h : x ∈ lower c) (hx : x.toNat ≠ 0)
    (hascii : x.toNat < 128)
    (hall : ((sources lowerSpecials lowerRuns x.toNat).all fun n => p (Char.ofNat n)) = true) :
    p c = true := by
  have hmem : c.toNat ∈ sources lowerSpecials lowerRuns x.toNat := by
    rcases lower_cases c with ⟨hc, _⟩ | ⟨_, hform⟩
    · exact List.mem_append_left _ (List.mem_range.mpr hc)
    · exact mem_sources (hform ▸ h) hx hascii
  have hp := List.all_eq_true.mp hall _ hmem
  rwa [Char.ofNat_toNat] at hp

/-! ## Letters and underscores -/

/-- Whether a character is a small letter of ASCII. -/
def isSmallAscii (c : Char) : Bool :=
  decide ('a'.toNat ≤ c.toNat ∧ c.toNat ≤ 'z'.toNat)

theorem bounds_of_isSmallAscii (h : isSmallAscii c = true) : 97 ≤ c.toNat ∧ c.toNat ≤ 122 :=
  of_decide_eq_true h

theorem isDigit_of_isSmallAscii (h : isSmallAscii c = true) : isDigit c = false := by
  have hranges : (digitRanges.all fun r => decide (r.2 < 97 ∨ 122 < r.1)) = true := by
    decide +kernel
  have hbounds := bounds_of_isSmallAscii h
  rw [isDigit, inRanges, List.any_eq_false]
  intro r hr hin
  have hin' := of_decide_eq_true hin
  have hout := of_decide_eq_true (List.all_eq_true.mp hranges r hr)
  omega

/-- On ASCII the digits are those from zero to nine. -/
theorem isDigit_of_ascii (h : c.toNat < 128) : isDigit c = c.isDigit := by
  have hranges : ∀ r ∈ digitRanges, r = (48, 57) ∨ 128 ≤ r.1 := by decide +kernel
  have hfirst : (48, 57) ∈ digitRanges := by decide +kernel
  rw [Bool.eq_iff_iff, Char.isDigit_iff_toNat, isDigit, inRanges, List.any_eq_true]
  constructor
  · rintro ⟨r, hr, hin⟩
    have hin' := of_decide_eq_true hin
    rcases hranges r hr with rfl | hbeyond
    · exact hin'
    · omega
  · exact fun hdigit => ⟨_, hfirst, decide_eq_true hdigit⟩

theorem isAlpha_of_isDigit (h : c.toNat < 128) (hc : isDigit c = true) : c.isAlpha = false := by
  have hall : ∀ n < 128, (Char.ofNat n).isDigit = true → (Char.ofNat n).isAlpha = false := by
    decide +kernel
  have hdigit := hall _ h
  rw [Char.ofNat_toNat, ← isDigit_of_ascii h] at hdigit
  exact hdigit hc

/-- On ASCII no capital form is a small letter, and only an underscore has the form of one. -/
theorem forms_of_ascii (h : c.toNat < 128) :
    isSmallAscii c.toUpper = false ∧ (c.toUpper = '_' → c = '_') ∧ (c.toLower = '_' → c = '_') := by
  have hall : ∀ n < 128, isSmallAscii (Char.ofNat n).toUpper = false ∧
      ((Char.ofNat n).toUpper = '_' → Char.ofNat n = '_') ∧
      ((Char.ofNat n).toLower = '_' → Char.ofNat n = '_') := by decide +kernel
  have hc := hall _ h
  rwa [Char.ofNat_toNat] at hc

/-- No capital form has a small letter in it. -/
theorem small_not_mem_upper (hx : isSmallAscii x = true) : x ∉ upper c := by
  have hbounds := bounds_of_isSmallAscii hx
  intro h
  rcases upper_cases c with ⟨hc, hform⟩ | ⟨hc, hform⟩
  · rw [hform] at h
    rw [List.mem_singleton.mp h, (forms_of_ascii hc).1] at hx
    cases hx
  · have heq := eq_of_mem_mappedBy avoids_upper (by decide) (by omega) hbounds.2 (hform ▸ h)
    subst heq
    omega

/-- Only an underscore has an underscore in its capital form. -/
theorem eq_underscore_of_mem_upper (h : '_' ∈ upper c) : c = '_' := by
  rcases upper_cases c with ⟨hc, hform⟩ | ⟨_, hform⟩
  · exact (forms_of_ascii hc).2.1 (List.mem_singleton.mp (hform ▸ h)).symm
  · exact (eq_of_mem_mappedBy avoids_upper (by decide) (by decide) (by decide) (hform ▸ h)).symm

/-- Only an underscore has an underscore in its small form. -/
theorem eq_underscore_of_mem_lower (h : '_' ∈ lower c) : c = '_' := by
  rcases lower_cases c with ⟨hc, hform⟩ | ⟨_, hform⟩
  · exact (forms_of_ascii hc).2.2 (List.mem_singleton.mp (hform ▸ h)).symm
  · exact (eq_of_mem_mappedBy avoids_lower (by decide) (by decide) (by decide) (hform ▸ h)).symm

end SchemaScript.Text
