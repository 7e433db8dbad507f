import Mathlib.Data.List.TakeWhile
import SchemaScript.Parameters
import SchemaScript.Proofs.Table
import SchemaScript.Proofs.Text.Joined

/-!
# Parameters in one text

Which parameters come back as they were when they are written to a text and read from it.

The text is cut at its commas, and each piece at its first equals sign.  So no name that is read
holds a comma or an equals sign, and no value a comma (`Parameters.Separable`).  Where names and
values are of this form nothing in them is taken for a mark between them, and each pair has its own
piece of the text.  One pair alone is lost all the same: that of the empty name and the empty value,
whose piece is empty (`Parameters.entries_parse_join`).

Both together say exactly which parameters survive (`Parameters.parse_join_eq_self_iff`).
-/

namespace SchemaScript

namespace Parameters

/-! ## Pairs -/

/-- A pair without a mark where a mark would be read. -/
structure Separable (pair : String × String) : Prop where
  name : ',' ∉ pair.1.toList ∧ '=' ∉ pair.1.toList
  value : ',' ∉ pair.2.toList

/-- What a piece of a text is read as has no mark in it. -/
theorem separable_splitPair {piece : List Char} (h : ',' ∉ piece) :
    Separable (splitPair piece) := by
  simp only [splitPair]
  constructor
  · rw [String.toList_ofList]
    refine ⟨fun hmem => h ((List.takeWhile_sublist _).subset hmem), fun hmem => ?_⟩
    have hne := List.mem_takeWhile_imp hmem
    simp at hne
  · rw [String.toList_ofList]
    exact fun hmem => h ((List.dropWhile_sublist _).subset (List.mem_of_mem_drop hmem))

theorem toList_joinPair (pair : String × String) :
    (joinPair pair).toList =
      if pair.2 = "" then pair.1.toList else pair.1.toList ++ '=' :: pair.2.toList := by
  unfold joinPair
  split
  · rfl
  · rw [String.toList_append, String.toList_append, List.append_assoc]
    rfl

/-- A pair is read back from its own piece. -/
theorem splitPair_joinPair {pair : String × String} (h : Separable pair) :
    splitPair (joinPair pair).toList = pair := by
  have hname : ∀ c ∈ pair.1.toList, (c != '=') = true := by
    intro c hc
    have hne : c ≠ '=' := fun heq => h.name.2 (heq ▸ hc)
    simpa using hne
  rw [toList_joinPair]
  split
  · next hvalue =>
    have htake : pair.1.toList.takeWhile (· != '=') = pair.1.toList :=
      List.takeWhile_eq_self_iff.mpr hname
    have hdrop : pair.1.toList.dropWhile (· != '=') = [] := List.dropWhile_eq_nil_iff.mpr hname
    rw [splitPair, htake, hdrop, String.ofList_toList]
    exact Prod.ext rfl hvalue.symm
  · rw [splitPair, List.takeWhile_append_of_pos hname, List.dropWhile_append_of_pos hname]
    simp

theorem comma_not_mem_joinPair {pair : String × String} (h : Separable pair) :
    ',' ∉ (joinPair pair).toList := by
  rw [toList_joinPair]
  split
  · exact h.name.1
  · simpa using ⟨h.name.1, h.value⟩

/-- Only the pair of two empty texts has an empty piece. -/
theorem joinPair_isEmpty_iff (pair : String × String) :
    (joinPair pair).toList.isEmpty = true ↔ pair = ("", "") := by
  rw [toList_joinPair, Prod.ext_iff]
  split
  · next hvalue => simp [hvalue]
  · next hvalue => simp [hvalue]

/-! ## Parameters -/

/-- The text of parameters is cut into the pieces of their pairs. -/
theorem pieces_join {p : Parameters} (h : ∀ pair ∈ p.entries, Separable pair) :
    ((p.join.toList.splitOn ',').filter fun piece => !piece.isEmpty) =
      (p.entries.map fun pair => (joinPair pair).toList).filter fun piece => !piece.isEmpty := by
  have htext : p.join.toList =
      [','].intercalate (p.entries.map fun pair => (joinPair pair).toList) := by
    rw [join, String.toList_intercalate, List.map_map]
    rfl
  rw [htext]
  cases hentries : p.entries with
  | nil => rfl
  | cons first rest =>
    rw [← hentries, List.splitOn_intercalate]
    · intro piece hpiece
      obtain ⟨pair, hpair, rfl⟩ := List.mem_map.mp hpiece
      exact comma_not_mem_joinPair (h pair hpair)
    · rw [hentries]
      exact List.cons_ne_nil _ _

/-- Where no mark is in the way, all pairs but that of two empty texts are read back in order. -/
theorem entries_parse_join {p : Parameters} (hkeys : p.keys.Nodup)
    (h : ∀ pair ∈ p.entries, Separable pair) :
    (parse p.join).entries = p.entries.filter fun pair => pair ≠ ("", "") := by
  have hkept : p.entries.filter
        ((fun piece => !piece.isEmpty) ∘ fun pair => (joinPair pair).toList) =
      p.entries.filter fun pair => pair ≠ ("", "") := by
    refine List.filter_congr fun pair _ => ?_
    rw [Function.comp_apply, Bool.eq_iff_iff, Bool.not_eq_true', decide_eq_true_iff, ne_eq,
      ← joinPair_isEmpty_iff, Bool.not_eq_true]
  have hread : (p.entries.filter fun pair => pair ≠ ("", "")).map
        (splitPair ∘ fun pair => (joinPair pair).toList) =
      p.entries.filter fun pair => pair ≠ ("", "") := by
    refine (List.map_congr_left fun pair hpair => ?_).trans (List.map_id _)
    exact splitPair_joinPair (h pair (List.mem_of_mem_filter hpair))
  rw [parse, pieces_join h, List.filter_map, List.map_map, hkept, hread]
  exact Table.entries_ofList (hkeys.sublist (List.filter_sublist.map Prod.fst))

/-- The pairs in a text have no mark in them. -/
theorem separable_parse (text : String) :
    (∀ name ∈ (parse text).keys, ',' ∉ name.toList ∧ '=' ∉ name.toList) ∧
      ∀ value ∈ (parse text).values, ',' ∉ value.toList := by
  have hpairs : ∀ pair ∈ ((text.toList.splitOn ',').filter fun piece => !piece.isEmpty).map
      splitPair, Separable pair := by
    intro pair hpair
    obtain ⟨piece, hpiece, rfl⟩ := List.mem_map.mp hpair
    exact separable_splitPair (Text.not_mem_of_mem_splitOn (List.mem_of_mem_filter hpiece))
  constructor
  · intro name hname
    obtain ⟨pair, hpair, rfl⟩ := List.mem_map.mp (Table.mem_of_mem_keys_ofList hname)
    exact (hpairs pair hpair).name
  · intro value hvalue
    obtain ⟨pair, hpair, rfl⟩ := List.mem_map.mp (Table.mem_of_mem_values_ofList hvalue)
    exact (hpairs pair hpair).value

/-- Parameters survive being written to a text and read from it exactly if no name in them holds a
comma or an equals sign, no value a comma, and the empty name does not have the empty value. -/
theorem parse_join_eq_self_iff (p : Parameters) (hkeys : p.keys.Nodup) :
    parse p.join = p ↔
      (∀ name ∈ p.keys, ',' ∉ name.toList ∧ '=' ∉ name.toList) ∧
        (∀ value ∈ p.values, ',' ∉ value.toList) ∧ p.get? "" ≠ some "" := by
  have hempty : p.get? "" ≠ some "" ↔ ∀ pair ∈ p.entries, pair ≠ ("", "") := by
    rw [ne_eq, Table.get?_eq_some_iff hkeys, List.forall_mem_ne']
  have hseparable (h : (∀ name ∈ p.keys, ',' ∉ name.toList ∧ '=' ∉ name.toList) ∧
      ∀ value ∈ p.values, ',' ∉ value.toList) : ∀ pair ∈ p.entries, Separable pair :=
    fun pair hpair => ⟨h.1 _ (List.mem_map_of_mem hpair), h.2 _ (List.mem_map_of_mem hpair)⟩
  have hsurvive (h : ∀ pair ∈ p.entries, Separable pair) :
      parse p.join = p ↔ p.get? "" ≠ some "" := by
    rw [hempty, Table.eq_iff_entries, entries_parse_join hkeys h, List.filter_eq_self]
    simp
  constructor
  · intro hsame
    have hmarks := separable_parse p.join
    rw [hsame] at hmarks
    exact ⟨hmarks.1, hmarks.2, (hsurvive (hseparable hmarks)).mp hsame⟩
  · rintro ⟨hnames, hvalues, hnone⟩
    exact (hsurvive (hseparable ⟨hnames, hvalues⟩)).mpr hnone

/-- Parameters with an equals sign in a value, a name without a value and a value without a name. -/
def unusual : Parameters :=
  ⟨[("prefix", "a=b"), ("flag", ""), ("", "x")]⟩

theorem parse_join_eq_self_of_unusual : unusual.keys.Nodup ∧ parse unusual.join = unusual := by
  have hkeys : unusual.keys.Nodup := by decide
  exact ⟨hkeys, (parse_join_eq_self_iff unusual hkeys).mpr (by decide +kernel)⟩

end Parameters

end SchemaScript
