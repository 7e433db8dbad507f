import Mathlib.Data.List.Infix

/-!
# Joined texts

What lists hold that are joined of parts or cut into them.

Everything in a list that is joined stands in a part or in what stands between the parts, and each
part stands in the list.  Cutting a list at a mark is the other way round, and no piece holds the
mark.
-/

namespace SchemaScript.Text

variable {α : Type}

/-- A part stands in the list that is joined of it and others. -/
theorem subset_intercalate {sep part : List α} {parts : List (List α)} (h : part ∈ parts) :
    part ⊆ sep.intercalate parts := by
  match parts with
  | [] => cases h
  | [only] =>
    rw [List.mem_singleton.mp h, List.intercalate_singleton]
    exact List.Subset.refl _
  | first :: next :: rest =>
    rw [List.intercalate_cons_cons, List.append_assoc]
    rcases List.mem_cons.mp h with rfl | h
    · exact List.subset_append_left _ _
    · exact List.subset_append_of_subset_right _
        (List.subset_append_of_subset_right _ (subset_intercalate h))

/-- The last part ends the list that is joined. -/
theorem intercalate_concat (sep part : List α) {parts : List (List α)} (h : parts ≠ []) :
    sep.intercalate (parts ++ [part]) = sep.intercalate parts ++ (sep ++ part) := by
  match parts with
  | [only] =>
    rw [List.singleton_append, List.intercalate_cons_cons, List.intercalate_singleton,
      List.intercalate_singleton, List.append_assoc]
  | first :: next :: rest =>
    have ih := intercalate_concat sep part (List.cons_ne_nil next rest)
    rw [List.cons_append, List.cons_append, List.intercalate_cons_cons, ← List.cons_append, ih,
      List.intercalate_cons_cons, List.append_assoc, List.append_assoc, List.append_assoc]

/-- A property holds in a joined list if it holds in each part and of what stands between them. -/
theorem forall_mem_intercalate {p : α → Prop} {sep : List α} {parts : List (List α)}
    (hsep : ∀ a ∈ sep, p a) (h : ∀ part ∈ parts, ∀ a ∈ part, p a) :
    ∀ a ∈ sep.intercalate parts, p a := by
  match parts with
  | [] => nofun
  | [part] =>
    rw [List.intercalate_singleton]
    exact h part List.mem_cons_self
  | part :: next :: rest =>
    have ih := forall_mem_intercalate hsep (List.forall_mem_cons.mp h).2
    rw [List.intercalate_cons_cons, List.forall_mem_append, List.forall_mem_append]
    exact ⟨⟨h part List.mem_cons_self, hsep⟩, ih⟩

/-- Texts are joined character by character. -/
theorem ofList_intercalate (sep : String) (parts : List (List Char)) :
    String.ofList (sep.toList.intercalate parts) =
      sep.intercalate (parts.map String.ofList) := by
  refine String.toList_inj.mp ?_
  rw [String.toList_ofList, String.toList_intercalate, List.map_map]
  exact congrArg _ (List.map_id'' (fun _ => String.toList_ofList) parts).symm

variable [DecidableEq α] {mark : α} {as piece : List α}

/-- A piece of a list that is cut at a mark stands in the list. -/
theorem subset_of_mem_splitOn (h : piece ∈ as.splitOn mark) : piece ⊆ as := by
  have hsubset : piece ⊆ [mark].intercalate (as.splitOn mark) := subset_intercalate h
  rwa [List.intercalate_splitOn] at hsubset

/-- No piece of a list that is cut at a mark holds the mark. -/
theorem not_mem_of_mem_splitOn (h : piece ∈ as.splitOn mark) : mark ∉ piece := by
  induction as generalizing piece with
  | nil =>
    rw [List.splitOn_nil, List.mem_singleton] at h
    rw [h]
    exact List.not_mem_nil
  | cons c rest ih =>
    obtain ⟨first, others, hrest⟩ := List.exists_cons_of_ne_nil (List.splitOn_ne_nil mark rest)
    rw [List.splitOn_cons_eq_if_modifyHead] at h
    split at h
    · rcases List.mem_cons.mp h with rfl | h
      · exact List.not_mem_nil
      · exact ih h
    · next hc =>
      rw [hrest, List.modifyHead_cons] at h
      rcases List.mem_cons.mp h with rfl | h
      · have hfirst : mark ∉ first := ih (hrest ▸ List.mem_cons_self)
        have hne : mark ≠ c := fun heq => hc (by simp [heq])
        exact fun hmem => (List.mem_cons.mp hmem).elim hne hfirst
      · exact ih (hrest ▸ List.mem_cons_of_mem first h)

end SchemaScript.Text
