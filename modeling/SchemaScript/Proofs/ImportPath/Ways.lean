import Mathlib.Data.List.Infix
import SchemaScript.ImportPath

/-!
# Ways between places

Where the way from a directory to a place leads, and what it ends with.

The way goes up to the deepest place above both and from there down to its target.  So whoever
follows it from the directory ends at the target (`Place.follow_componentsFrom`), and nothing
depends on what lies above both (`Place.componentsFrom_below`).

It ends with the last name of the target whenever it goes down at all.  It does not go down where
the target is the directory itself or lies above it: then the way is empty or ends with two dots
(`Place.getLast?_componentsFrom`).
-/

namespace SchemaScript.Place

/-! ## Names -/

/-- A component that is the name of a file or a directory. -/
structure IsName (n : String) : Prop where
  ne_empty : n ≠ ""
  ne_dot : n ≠ "."
  ne_dots : n ≠ ".."
  no_slash : '/' ∉ n.toList

instance (n : String) : Decidable (IsName n) :=
  decidable_of_iff (n ≠ "" ∧ n ≠ "." ∧ n ≠ ".." ∧ '/' ∉ n.toList)
    ⟨fun ⟨he, hd, hds, hs⟩ => ⟨he, hd, hds, hs⟩,
      fun h => ⟨h.ne_empty, h.ne_dot, h.ne_dots, h.no_slash⟩⟩

/-! ## Following components -/

theorem follow_append (p : Place) (as bs : List String) :
    p.follow (as ++ bs) = (p.follow as).follow bs :=
  List.foldl_append

@[simp] theorem follow_nil (p : Place) : p.follow [] = p := rfl

theorem follow_cons (p : Place) (c : String) (cs : List String) :
    p.follow (c :: cs) = (p.step c).follow cs := rfl

@[simp] theorem follow_cons_dot (p : Place) (cs : List String) :
    p.follow ("." :: cs) = p.follow cs := rfl

theorem step_name {n : String} (h : IsName n) (p : Place) : p.step n = ⟨p.up, p.names ++ [n]⟩ := by
  rw [step, if_neg (not_or.mpr ⟨h.ne_empty, h.ne_dot⟩), if_neg h.ne_dots]

theorem step_dots {p : Place} (h : p.names ≠ []) : p.step ".." = ⟨p.up, p.names.dropLast⟩ := by
  rw [step, if_neg (by decide), if_pos rfl, if_neg h]

/-- Names lead down. -/
theorem follow_names {ns : List String} (h : ∀ n ∈ ns, IsName n) (p : Place) :
    p.follow ns = ⟨p.up, p.names ++ ns⟩ := by
  induction ns generalizing p with
  | nil => rw [follow_nil, List.append_nil]
  | cons n rest ih =>
    have hn := h n List.mem_cons_self
    rw [follow_cons, step_name hn, ih (fun m hm => h m (List.mem_cons_of_mem n hm))]
    simp

/-- Two dots take back one name each, as long as there are names. -/
theorem follow_dots {p : Place} {k : Nat} (h : k ≤ p.names.length) :
    p.follow (List.replicate k "..") = ⟨p.up, p.names.take (p.names.length - k)⟩ := by
  induction k generalizing p with
  | zero => rw [List.replicate_zero, follow_nil, Nat.sub_zero, List.take_length]
  | succ k ih =>
    have hne : p.names ≠ [] := List.ne_nil_of_length_pos (Nat.lt_of_lt_of_le k.succ_pos h)
    have hk : k ≤ p.names.dropLast.length := by
      rw [List.length_dropLast]
      omega
    have hlength : p.names.length - 1 - k = p.names.length - (k + 1) := by omega
    rw [List.replicate_succ, follow_cons, step_dots hne, ih (p := ⟨p.up, p.names.dropLast⟩) hk,
      List.length_dropLast, hlength, List.dropLast_eq_take, List.take_take]
    congr 2
    omega

theorem mem_names_step {p : Place} {c n : String} (h : n ∈ (p.step c).names) :
    n ∈ p.names ∨ n = c := by
  unfold step at h
  split at h
  · exact .inl h
  split at h
  · split at h
    · cases h
    · exact .inl (List.mem_of_mem_dropLast h)
  · simpa using h

/-- The names of a place were there before or are components of the way to it. -/
theorem mem_names_follow {p : Place} {cs : List String} {n : String}
    (h : n ∈ (p.follow cs).names) : n ∈ p.names ∨ n ∈ cs := by
  induction cs generalizing p with
  | nil => exact .inl h
  | cons c rest ih =>
    rw [follow_cons] at h
    rcases ih h with h | h
    · rcases mem_names_step h with h | rfl
      · exact .inl h
      · exact .inr List.mem_cons_self
    · exact .inr (List.mem_cons_of_mem c h)

/-! ## Steps together -/

theorem commonSteps_cons (n : String) (as bs : List String) :
    commonSteps (n :: as) (n :: bs) = commonSteps as bs + 1 := by
  rw [commonSteps, if_pos rfl]

theorem commonSteps_le (as bs : List String) :
    commonSteps as bs ≤ as.length ∧ commonSteps as bs ≤ bs.length := by
  fun_induction commonSteps as bs with
  | case1 a as bs ih => exact ⟨Nat.succ_le_succ ih.1, Nat.succ_le_succ ih.2⟩
  | case2 => exact ⟨Nat.zero_le _, Nat.zero_le _⟩
  | case3 => exact ⟨Nat.zero_le _, Nat.zero_le _⟩

/-- The steps that two lists go together are the same names. -/
theorem take_commonSteps (as bs : List String) :
    as.take (commonSteps as bs) = bs.take (commonSteps as bs) := by
  fun_induction commonSteps as bs with
  | case1 a as bs ih => rw [List.take_succ_cons, List.take_succ_cons, ih]
  | case2 => rw [List.take_zero, List.take_zero]
  | case3 => rw [List.take_zero, List.take_zero]

theorem commonSteps_append (base as bs : List String) :
    commonSteps (base ++ as) (base ++ bs) = base.length + commonSteps as bs := by
  induction base with
  | nil => rw [List.nil_append, List.nil_append, List.length_nil, Nat.zero_add]
  | cons n rest ih =>
    rw [List.cons_append, List.cons_append, commonSteps_cons, ih, List.length_cons]
    omega

/-- A list goes together with another to its end just if the other starts with it. -/
theorem commonSteps_eq_length_iff {as bs : List String} :
    commonSteps as bs = bs.length ↔ bs <+: as := by
  constructor
  · intro h
    have htake := take_commonSteps as bs
    rw [h, List.take_length] at htake
    rw [← htake]
    exact List.take_prefix _ _
  · rintro ⟨rest, rfl⟩
    have happend := commonSteps_append bs rest []
    rw [List.append_nil] at happend
    exact happend.trans (by cases rest <;> rfl)

/-! ## The way to a place -/

variable {up : Nat} {here there : List String}

theorem componentsFrom_eq (up : Nat) (here there : List String) :
    (Place.mk up here).componentsFrom ⟨up, there⟩ =
      List.replicate (here.length - commonSteps here there) ".." ++
        there.drop (commonSteps here there) := by
  rw [componentsFrom, if_pos rfl]

/-- The way from a directory to a place leads there. -/
theorem follow_componentsFrom (h : ∀ n ∈ there, IsName n) :
    (Place.mk up here).follow ((Place.mk up here).componentsFrom ⟨up, there⟩) = ⟨up, there⟩ := by
  obtain ⟨hfrom, -⟩ := commonSteps_le here there
  have hnames : ∀ n ∈ there.drop (commonSteps here there), IsName n :=
    fun n hn => h n (List.mem_of_mem_drop hn)
  rw [componentsFrom_eq, follow_append, follow_dots (Nat.sub_le _ _), follow_names hnames,
    Nat.sub_sub_self hfrom, take_commonSteps, List.take_append_drop]

/-- What lies above both places makes no difference for the way. -/
theorem componentsFrom_below (base : Place) :
    (Place.mk base.up (base.names ++ here)).componentsFrom ⟨base.up, base.names ++ there⟩ =
      (Place.mk 0 here).componentsFrom ⟨0, there⟩ := by
  rw [componentsFrom_eq, componentsFrom_eq, commonSteps_append, List.length_append,
    Nat.add_sub_add_left, List.drop_append]
  simp

/-- A way consists of two dots and of names of its target. -/
theorem mem_componentsFrom {directory target : Place} {c : String}
    (h : c ∈ directory.componentsFrom target) : c = ".." ∨ c ∈ target.names := by
  unfold componentsFrom at h
  split at h
  · exact (List.mem_append.mp h).imp List.eq_of_mem_replicate List.mem_of_mem_drop
  · exact (List.mem_append.mp h).imp List.eq_of_mem_replicate id

/-- A way ends with the last name of its target, except where the target is the directory itself or
a place above it. -/
theorem getLast?_componentsFrom :
    ((Place.mk up here).componentsFrom ⟨up, there⟩).getLast? =
      if there <+: here then (if there = here then none else some "..") else there.getLast? := by
  rw [componentsFrom_eq]
  split
  · next habove =>
    rw [commonSteps_eq_length_iff.mpr habove, List.drop_length, List.append_nil,
      List.getLast?_replicate]
    have hiff : here.length - there.length = 0 ↔ there = here := by
      rw [Nat.sub_eq_zero_iff_le]
      exact ⟨habove.eq_of_length_le, fun heq => heq ▸ Nat.le_refl _⟩
    simp only [hiff]
  · next habove =>
    have hlt : commonSteps here there < there.length :=
      Nat.lt_of_le_of_ne (commonSteps_le here there).2 (mt commonSteps_eq_length_iff.mp habove)
    have hne : there.drop (commonSteps here there) ≠ [] := by
      rw [Ne, List.drop_eq_nil_iff]
      omega
    rw [List.getLast?_append_of_ne_nil _ hne, List.getLast?_drop, if_neg (by omega)]

end SchemaScript.Place
