import Mathlib.Data.List.Forall2

/-!
# Related lists

Lists of the same length whose members are related position by position.
-/

namespace SchemaScript.Related

variable {α β γ κ : Type} {R S : α → β → Prop} {as : List α} {bs : List β}

theorem imp_mem (h : List.Forall₂ R as bs) (hS : ∀ a ∈ as, ∀ b ∈ bs, R a b → S a b) :
    List.Forall₂ S as bs := by
  refine List.forall₂_iff_zip.mpr ⟨h.length_eq, fun hab => ?_⟩
  obtain ⟨ha, hb⟩ := List.of_mem_zip hab
  exact hS _ ha _ hb (List.forall₂_zip h hab)

theorem imp_option {x : Option α} {y : Option β} (h : Option.Rel R x y)
    (hS : ∀ a b, R a b → S a b) : Option.Rel S x y := by
  cases h with
  | none => exact .none
  | some hab => exact .some (hS _ _ hab)

theorem option_refl {T : γ → γ → Prop} (hT : ∀ c, T c c) (x : Option γ) : Option.Rel T x x := by
  cases x with
  | none => exact .none
  | some c => exact .some (hT c)

theorem exists_option_left {x : Option α} {b : β} (h : Option.Rel R x (some b)) :
    ∃ a, x = some a ∧ R a b := by
  cases h with
  | some hab => exact ⟨_, rfl, hab⟩

theorem exists_right (h : List.Forall₂ R as bs) {a : α} (ha : a ∈ as) : ∃ b ∈ bs, R a b := by
  induction h with
  | nil => cases ha
  | cons hab _ ih =>
    rcases List.mem_cons.mp ha with rfl | ha
    · exact ⟨_, List.mem_cons_self, hab⟩
    · obtain ⟨b, hb, hR⟩ := ih ha
      exact ⟨b, List.mem_cons_of_mem _ hb, hR⟩

theorem exists_left (h : List.Forall₂ R as bs) {b : β} (hb : b ∈ bs) : ∃ a ∈ as, R a b :=
  exists_right h.flip hb

theorem of_map_eq {f : α → γ} {g : β → γ} (h : as.map f = bs.map g) :
    List.Forall₂ (fun a b => f a = g b) as bs := by
  rw [← List.forall₂_eq_eq_eq, List.forall₂_map_left_iff, List.forall₂_map_right_iff] at h
  exact h

theorem flatMap {f : α → List γ} {g : β → List κ} {T : γ → κ → Prop}
    (h : List.Forall₂ (fun a b => List.Forall₂ T (f a) (g b)) as bs) :
    List.Forall₂ T (as.flatMap f) (bs.flatMap g) := by
  induction h with
  | nil => exact .nil
  | cons hab _ ih =>
    rw [List.flatMap_cons, List.flatMap_cons]
    exact List.rel_append hab ih

/-- A relation to pairs is a relation to their first parts, through their second parts. -/
theorem of_zip {T : α × β → γ → Prop} {cs : List γ} (hR : List.Forall₂ R as bs)
    (hT : List.Forall₂ T (as.zip bs) cs) :
    List.Forall₂ (fun a c => ∃ b, R a b ∧ T (a, b) c) as cs := by
  induction hR generalizing cs with
  | nil => cases hT; exact .nil
  | cons hab _ ih =>
    cases hT with
    | cons hac hrest => exact .cons ⟨_, hab, hac⟩ (ih hrest)

theorem zip_right (h : List.Forall₂ R as bs) (cs : List γ) :
    List.Forall₂ (fun p q => R p.1 q.1 ∧ p.2 = q.2) (as.zip cs) (bs.zip cs) := by
  induction h generalizing cs with
  | nil => exact .nil
  | cons hab _ ih =>
    cases cs with
    | nil => exact .nil
    | cons c rest => exact .cons ⟨hab, rfl⟩ (ih rest)

/-- What is found beside a member of a key of its own is related to it. -/
theorem find?_zip [DecidableEq κ] {key : α → κ} (h : List.Forall₂ R as bs)
    (hn : (as.map key).Nodup) {a : α} (ha : a ∈ as) :
    ∃ b, R a b ∧ ((as.zip bs).find? fun p => key p.1 = key a).map Prod.snd = some b := by
  induction h with
  | nil => cases ha
  | @cons a₁ b₁ as bs hab _ ih =>
    rw [List.map_cons, List.nodup_cons] at hn
    rcases List.mem_cons.mp ha with rfl | ha
    · exact ⟨b₁, hab, by simp⟩
    · obtain ⟨b, hb, hfind⟩ := ih hn.2 ha
      have hne : key a₁ ≠ key a := fun heq => hn.1 (heq ▸ List.mem_map.mpr ⟨a, ha, rfl⟩)
      refine ⟨b, hb, ?_⟩
      rw [List.zip_cons_cons, List.find?_cons_of_neg (by simpa using hne)]
      exact hfind

end SchemaScript.Related
