import Mathlib.Data.List.Perm.Basic
import SchemaScript.Wire.Reading

/-!
# Records by number

What is held under a number in a record, and that a record is no more than that.

Setting a number changes what is held under it and nothing else.  Records are in the order of their
numbers (`Record.Sorted`), so two records that hold the same under some numbers have the same
entries of these numbers (`Record.filter_eq_of_lookup_eq`).
-/

namespace SchemaScript.Wire

namespace Record

variable {r s : Record} {n m : Nat} {values : List Datum}

theorem lookup_cons_ite (m : Nat) (e : Nat × List Datum) (r : Record) :
    List.lookup m (e :: r) = if m = e.1 then some e.2 else r.lookup m := by
  rw [List.lookup_cons]
  split
  · next h => rw [if_pos (eq_of_beq h)]
  · next h => rw [if_neg (ne_of_beq_false h)]

theorem set_cons (n : Nat) (values : List Datum) (e : Nat × List Datum) (r : Record) :
    Record.set n values (e :: r) =
      if n < e.1 then (n, values) :: e :: r
      else if n = e.1 then (n, values) :: r
      else e :: Record.set n values r := rfl

theorem lookup_set (n m : Nat) (values : List Datum) (r : Record) :
    List.lookup m (Record.set n values r) = if m = n then some values else r.lookup m := by
  induction r with
  | nil => exact lookup_cons_ite m (n, values) []
  | cons e r ih =>
    rw [set_cons]
    split
    · rw [lookup_cons_ite]
    · split
      · next heq =>
        rw [lookup_cons_ite, lookup_cons_ite, ← heq]
        split <;> rfl
      · next hne =>
        rw [lookup_cons_ite, lookup_cons_ite, ih]
        split
        · next hm => rw [if_neg fun h => hne (h.symm.trans hm)]
        · rfl

/-- What is kept of all entries of a number is held as before. -/
theorem lookup_filter {q : Nat × List Datum → Bool} (h : ∀ values, q (m, values) = true) :
    List.lookup m (r.filter q) = r.lookup m := by
  induction r with
  | nil => rfl
  | cons e r ih =>
    rw [List.filter_cons, lookup_cons_ite]
    split
    · rw [lookup_cons_ite, ih]
    · next he =>
      rw [ih, if_neg]
      rintro rfl
      exact he (h e.2)

/-! ## The order of entries -/

/-- The entries are in ascending order of their numbers, and no number has two. -/
def Sorted (r : Record) : Prop :=
  r.Pairwise fun a b => a.1 < b.1

theorem Sorted.nodup (h : r.Sorted) : (r.map Prod.fst).Nodup := by
  rw [List.Nodup, List.pairwise_map]
  exact h.imp fun hlt => Nat.ne_of_lt hlt

theorem mem_set {e : Nat × List Datum} (h : e ∈ Record.set n values r) :
    e = (n, values) ∨ e ∈ r := by
  induction r with
  | nil => exact .inl (List.mem_singleton.mp h)
  | cons a r ih =>
    rw [set_cons] at h
    split at h
    · exact (List.mem_cons.mp h)
    · split at h
      · exact (List.mem_cons.mp h).imp id (List.mem_cons_of_mem _)
      · rcases List.mem_cons.mp h with rfl | h
        · exact .inr List.mem_cons_self
        · exact (ih h).imp id (List.mem_cons_of_mem _)

theorem Sorted.set (h : r.Sorted) (n : Nat) (values : List Datum) :
    Sorted (Record.set n values r) := by
  induction r with
  | nil => exact List.pairwise_singleton _ _
  | cons e r ih =>
    obtain ⟨hfirst, hrest⟩ := List.pairwise_cons.mp h
    rw [set_cons]
    split
    · next hlt =>
      refine List.pairwise_cons.mpr ⟨fun a ha => ?_, h⟩
      rcases List.mem_cons.mp ha with rfl | ha
      · exact hlt
      · exact Nat.lt_trans hlt (hfirst a ha)
    · split
      · next heq => exact List.pairwise_cons.mpr ⟨fun a ha => heq ▸ hfirst a ha, hrest⟩
      · next hge hne =>
        refine List.pairwise_cons.mpr ⟨fun a ha => ?_, ih hrest⟩
        rcases mem_set ha with rfl | ha
        · exact Nat.lt_of_le_of_ne (Nat.le_of_not_lt hge) (Ne.symm hne)
        · exact hfirst a ha

theorem Sorted.filter (h : r.Sorted) (q : Nat × List Datum → Bool) : Sorted (r.filter q) :=
  List.Pairwise.sublist List.filter_sublist h

theorem Sorted.mem_iff (h : r.Sorted) (e : Nat × List Datum) : e ∈ r ↔ r.lookup e.1 = some e.2 := by
  induction r with
  | nil => simp
  | cons a r ih =>
    obtain ⟨hfirst, hrest⟩ := List.pairwise_cons.mp h
    rw [lookup_cons_ite, List.mem_cons]
    constructor
    · rintro (rfl | he)
      · rw [if_pos rfl]
      · rw [if_neg (Nat.ne_of_gt (hfirst e he))]
        exact (ih hrest).mp he
    · intro he
      split at he
      · next heq => exact .inl (Prod.ext heq (Option.some.inj he).symm)
      · exact .inr ((ih hrest).mpr he)

/-- Entries of numbers under which two records hold the same. -/
theorem filter_eq_of_lookup_eq (hr : r.Sorted) (hs : s.Sorted) {q : Nat → Bool}
    (h : ∀ n, q n = true → r.lookup n = s.lookup n) :
    (r.filter fun e => q e.1) = s.filter fun e => q e.1 := by
  have hmem (e : Nat × List Datum) :
      e ∈ (r.filter fun e => q e.1) ↔ e ∈ s.filter fun e => q e.1 := by
    rw [List.mem_filter, List.mem_filter, hr.mem_iff, hs.mem_iff]
    exact and_congr_left fun hq => by rw [h e.1 hq]
  have nodup {q : Nat × List Datum → Bool} {r : Record} (h : r.Sorted) : (r.filter q).Nodup :=
    (h.filter q).imp fun hlt heq => Nat.ne_of_lt hlt (congrArg Prod.fst heq)
  have hperm := (List.perm_ext_iff_of_nodup (nodup hr) (nodup hs)).mpr hmem
  exact hperm.eq_of_pairwise (fun _ _ _ _ hab hba => absurd hba (Nat.lt_asymm hab)) (hr.filter _)
    (hs.filter _)

end Record

end SchemaScript.Wire
