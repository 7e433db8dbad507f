import Mathlib.Data.List.Forall2
import SchemaScript.Error

/-!
# Outcomes

Computations that end with a result or an error, one after the other.  Each lemma tells what a
success of the whole says about its parts.
-/

namespace SchemaScript.Outcome

variable {ε α β : Type}

theorem bind_eq_ok_iff {x : Except ε α} {f : α → Except ε β} {b : β} :
    (x >>= f) = .ok b ↔ ∃ a, x = .ok a ∧ f a = .ok b := by
  cases x with
  | error cause => simp [bind, Except.bind]
  | ok a => simp [bind, Except.bind]

/-- A check before something. -/
theorem check_eq_ok_iff {x : Except ε Unit} {f : Unit → Except ε β} {b : β} :
    (x >>= f) = .ok b ↔ x = .ok () ∧ f () = .ok b := by
  cases x with
  | error cause => simp [bind, Except.bind]
  | ok a => simp [bind, Except.bind]

theorem pure_eq_ok_iff {a b : α} : (pure a : Except ε α) = .ok b ↔ a = b := by
  simp [pure, Except.pure]

theorem map_eq_ok_iff {x : Except ε α} {f : α → β} {b : β} :
    x.map f = .ok b ↔ ∃ a, x = .ok a ∧ f a = b := by
  cases x with
  | error cause => simp [Except.map]
  | ok a => simp [Except.map]

theorem toOption_eq_some_iff {x : Except ε α} {a : α} : x.toOption = some a ↔ x = .ok a := by
  cases x with
  | error cause => simp [Except.toOption]
  | ok b => simp [Except.toOption]

theorem map_bind {γ : Type} (x : Except ε α) (f : α → Except ε β) (g : β → γ) :
    (x >>= f).map g = x >>= fun a => (f a).map g := by
  cases x <;> rfl

theorem bind_map {γ : Type} (x : Except ε α) (f : α → β) (g : β → Except ε γ) :
    (x.map f >>= g) = x >>= fun a => g (f a) := by
  cases x <;> rfl

theorem mapM_eq_ok_iff {f : α → Except ε β} {as : List α} {bs : List β} :
    as.mapM f = .ok bs ↔ List.Forall₂ (fun a b => f a = .ok b) as bs := by
  induction as generalizing bs with
  | nil => simp [pure, Except.pure, eq_comm]
  | cons a rest ih =>
    simp only [List.mapM_cons, bind_eq_ok_iff, pure_eq_ok_iff, List.forall₂_cons_left_iff]
    constructor
    · rintro ⟨b, hb, bs', hbs, rfl⟩
      exact ⟨b, bs', hb, ih.mp hbs, rfl⟩
    · rintro ⟨b, bs', hb, hbs, rfl⟩
      exact ⟨b, hb, bs', ih.mpr hbs, rfl⟩

theorem exists_of_mem_mapM {f : α → Except ε β} {as : List α} {bs : List β}
    (h : as.mapM f = .ok bs) {b : β} (hb : b ∈ bs) : ∃ a ∈ as, f a = .ok b := by
  induction mapM_eq_ok_iff.mp h with
  | nil => cases hb
  | @cons a b' as bs ha hrest ih =>
    rcases List.mem_cons.mp hb with rfl | hb
    · exact ⟨a, List.mem_cons_self, ha⟩
    · obtain ⟨a', ha', hab⟩ := ih (mapM_eq_ok_iff.mpr hrest) hb
      exact ⟨a', List.mem_cons_of_mem _ ha', hab⟩

theorem foldlM_concat_eq_ok_iff {f : β → α → Except ε β} {as : List α} {a : α} {b c : β} :
    (as ++ [a]).foldlM f b = .ok c ↔ ∃ b', as.foldlM f b = .ok b' ∧ f b' a = .ok c := by
  simp [List.foldlM_append, bind_eq_ok_iff]

/-! ## Results in order -/

/-- The results for the items of a list, each with its index, from an index on. -/
def eachFrom (f : Nat → α → Except ε β) : Nat → List α → Except ε (List β)
  | _, [] => .ok []
  | i, a :: rest => do
    let b ← f i a
    let bs ← eachFrom f (i + 1) rest
    return b :: bs

section

variable {f : Nat → α → Except ε β} {i : Nat} {as : List α} {bs : List β}

theorem eachFrom_cons {a : α} {b : β} (ha : f i a = .ok b) (h : eachFrom f (i + 1) as = .ok bs) :
    eachFrom f i (a :: as) = .ok (b :: bs) := by
  rw [eachFrom, ha]
  show (eachFrom f (i + 1) as >>= fun bs => pure (b :: bs)) = _
  rw [h]
  rfl

theorem exists_of_eachFrom_cons {a : α} (h : eachFrom f i (a :: as) = .ok bs) :
    ∃ b rest, f i a = .ok b ∧ eachFrom f (i + 1) as = .ok rest ∧ bs = b :: rest := by
  rw [eachFrom, bind_eq_ok_iff] at h
  obtain ⟨b, hb, h⟩ := h
  rw [bind_eq_ok_iff] at h
  obtain ⟨rest, hrest, h⟩ := h
  rw [pure_eq_ok_iff] at h
  exact ⟨b, rest, hb, hrest, h.symm⟩

theorem length_eachFrom (h : eachFrom f i as = .ok bs) : bs.length = as.length := by
  induction as generalizing i bs with
  | nil => cases h; rfl
  | cons a rest ih =>
    obtain ⟨b, bs', _, hrest, rfl⟩ := exists_of_eachFrom_cons h
    rw [List.length_cons, List.length_cons, ih hrest]

theorem eachFrom_concat {a : α} {b : β} (h : eachFrom f i as = .ok bs)
    (ha : f (i + as.length) a = .ok b) : eachFrom f i (as ++ [a]) = .ok (bs ++ [b]) := by
  induction as generalizing i bs with
  | nil =>
    cases h
    exact eachFrom_cons ha rfl
  | cons a' rest ih =>
    obtain ⟨b', bs', ha', hrest, rfl⟩ := exists_of_eachFrom_cons h
    have hlast : f (i + 1 + rest.length) a = .ok b := by
      rwa [List.length_cons, Nat.add_comm rest.length, ← Nat.add_assoc] at ha
    exact eachFrom_cons ha' (ih hrest hlast)

theorem exists_of_eachFrom_concat {a : α} (h : eachFrom f i (as ++ [a]) = .ok bs) :
    ∃ bs' b, eachFrom f i as = .ok bs' ∧ f (i + as.length) a = .ok b ∧ bs = bs' ++ [b] := by
  induction as generalizing i bs with
  | nil =>
    obtain ⟨b, rest, hb, hrest, rfl⟩ := exists_of_eachFrom_cons h
    cases hrest
    exact ⟨[], b, rfl, hb, rfl⟩
  | cons a' as ih =>
    obtain ⟨b', rest, hb', hrest, rfl⟩ := exists_of_eachFrom_cons h
    obtain ⟨bs', b, hbs', hb, rfl⟩ := ih hrest
    refine ⟨b' :: bs', b, eachFrom_cons hb' hbs', ?_, rfl⟩
    rwa [List.length_cons, Nat.add_comm as.length, ← Nat.add_assoc]

theorem getElem?_eachFrom (h : eachFrom f i as = .ok bs) {k : Nat} {b : β}
    (hb : bs[k]? = some b) : ∃ a, as[k]? = some a ∧ f (i + k) a = .ok b := by
  induction as generalizing i bs k with
  | nil => cases h; simp at hb
  | cons a rest ih =>
    obtain ⟨b', bs', ha, hrest, rfl⟩ := exists_of_eachFrom_cons h
    cases k with
    | zero =>
      rw [List.getElem?_cons_zero, Option.some.injEq] at hb
      exact ⟨a, rfl, hb ▸ ha⟩
    | succ k =>
      rw [List.getElem?_cons_succ] at hb
      obtain ⟨a', ha', hk⟩ := ih hrest hb
      refine ⟨a', ha', ?_⟩
      rwa [Nat.add_assoc, Nat.add_comm 1] at hk

/-- The result at a position is that of the item there. -/
theorem eachFrom_at (h : eachFrom f i as = .ok bs) {k : Nat} {a : α} {b : β}
    (ha : as[k]? = some a) (hb : bs[k]? = some b) : f (i + k) a = .ok b := by
  obtain ⟨a', ha', hk⟩ := getElem?_eachFrom h hb
  rw [Option.some.inj (ha.symm.trans ha')]
  exact hk

/-- Lists of the same length that belong together at each position are items and their results. -/
theorem eachFrom_of_getElem? (hlength : bs.length = as.length)
    (h : ∀ k a b, as[k]? = some a → bs[k]? = some b → f (i + k) a = .ok b) :
    eachFrom f i as = .ok bs := by
  induction as generalizing i bs with
  | nil => rw [List.length_eq_zero_iff.mp hlength]; rfl
  | cons a rest ih =>
    cases bs with
    | nil => cases hlength
    | cons b bs =>
      have hrest : eachFrom f (i + 1) rest = .ok bs := by
        refine ih (Nat.succ.inj hlength) fun k a' b' ha' hb' => ?_
        rw [Nat.add_assoc, Nat.add_comm 1]
        exact h (k + 1) a' b' ha' hb'
      exact eachFrom_cons (h 0 a b rfl rfl) hrest

theorem exists_of_mem_eachFrom (h : eachFrom f i as = .ok bs) {b : β} (hb : b ∈ bs) :
    ∃ j, ∃ a ∈ as, f j a = .ok b := by
  induction as generalizing i bs with
  | nil => cases h; cases hb
  | cons a rest ih =>
    obtain ⟨b', bs', ha, hrest, rfl⟩ := exists_of_eachFrom_cons h
    rcases List.mem_cons.mp hb with rfl | hb
    · exact ⟨i, a, List.mem_cons_self, ha⟩
    · obtain ⟨j, a', ha', hj⟩ := ih hrest hb
      exact ⟨j, a', List.mem_cons_of_mem _ ha', hj⟩

theorem exists_of_mem_of_eachFrom (h : eachFrom f i as = .ok bs) {a : α} (ha : a ∈ as) :
    ∃ j, ∃ b ∈ bs, f j a = .ok b := by
  induction as generalizing i bs with
  | nil => cases ha
  | cons a' rest ih =>
    obtain ⟨b, bs', hb, hrest, rfl⟩ := exists_of_eachFrom_cons h
    rcases List.mem_cons.mp ha with rfl | ha
    · exact ⟨i, b, List.mem_cons_self, hb⟩
    · obtain ⟨j, b', hb', hj⟩ := ih hrest ha
      exact ⟨j, b', List.mem_cons_of_mem _ hb', hj⟩

theorem forall₂_eachFrom {R : α → β → Prop} (hR : ∀ j, ∀ a ∈ as, ∀ b, f j a = .ok b → R a b)
    (h : eachFrom f i as = .ok bs) : List.Forall₂ R as bs := by
  induction as generalizing i bs with
  | nil => cases h; exact .nil
  | cons a rest ih =>
    obtain ⟨b, bs', ha, hrest, rfl⟩ := exists_of_eachFrom_cons h
    exact .cons (hR i a List.mem_cons_self b ha)
      (ih (fun j a' ha' => hR j a' (List.mem_cons_of_mem _ ha')) hrest)

/-- There are results for all items if there is one for each. -/
theorem exists_eachFrom (h : ∀ j, ∀ a ∈ as, ∃ b, f j a = .ok b) (i : Nat) :
    ∃ bs, eachFrom f i as = .ok bs := by
  induction as generalizing i with
  | nil => exact ⟨[], rfl⟩
  | cons a rest ih =>
    obtain ⟨b, hb⟩ := h i a List.mem_cons_self
    obtain ⟨bs, hbs⟩ := ih (fun j a' ha' => h j a' (List.mem_cons_of_mem _ ha')) (i + 1)
    exact ⟨b :: bs, eachFrom_cons hb hbs⟩

/-- What all results have in common with their items the lists have in common. -/
theorem flatMap_eachFrom {γ : Type} {view : β → List γ} {source : α → List γ}
    (hf : ∀ j, ∀ a ∈ as, ∀ b, f j a = .ok b → view b = source a) (h : eachFrom f i as = .ok bs) :
    bs.flatMap view = as.flatMap source := by
  induction as generalizing i bs with
  | nil => cases h; rfl
  | cons a rest ih =>
    obtain ⟨b, bs', ha, hrest, rfl⟩ := exists_of_eachFrom_cons h
    rw [List.flatMap_cons, List.flatMap_cons, hf i a List.mem_cons_self b ha,
      ih (fun j a' ha' => hf j a' (List.mem_cons_of_mem _ ha')) hrest]

/-- What is seen of each result, made of a changed item, is seen of the results in order. -/
theorem eachFrom_map_map {γ δ : Type} {source : α → δ} {view : β → γ} {g : Nat → δ → Except ε γ}
    (hg : ∀ j, ∀ a ∈ as, g j (source a) = (f j a).map view) :
    eachFrom g i (as.map source) = (eachFrom f i as).map (List.map view) := by
  induction as generalizing i with
  | nil => rfl
  | cons a rest ih =>
    have hrest : eachFrom g (i + 1) (rest.map source) =
        (eachFrom f (i + 1) rest).map (List.map view) :=
      ih fun j a' ha' => hg j a' (List.mem_cons_of_mem _ ha')
    simp only [List.map_cons, eachFrom, hg i a List.mem_cons_self, hrest]
    cases f i a with
    | error cause => rfl
    | ok b => cases eachFrom f (i + 1) rest <;> rfl

theorem eachFrom_map {γ : Type} {view : β → γ} {g : Nat → α → Except ε γ}
    (hg : ∀ j, ∀ a ∈ as, g j a = (f j a).map view) :
    eachFrom g i as = (eachFrom f i as).map (List.map view) := by
  rw [← eachFrom_map_map hg, List.map_id']

end

end SchemaScript.Outcome
