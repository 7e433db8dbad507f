import Mathlib.Data.List.Nodup
import Mathlib.Data.List.Perm.Subperm
import SchemaScript.Draft.Basic

/-!
# Free names

What `Draft.freshName` finds: the name with the least count of dollar signs after it that is not
taken (`Draft.freshName_isFree`).

`Draft.IsFree` says this of a name without a search, by the names `Draft.dollared name k`.  The
search passes only taken names, and the names that it passes are all different, so as many steps as
there are taken names are enough.
-/

namespace SchemaScript.Draft

/-! ## Dollar signs -/

/-- A name with dollar signs after it. -/
def dollared (name : String) (count : Nat) : String :=
  name ++ String.ofList (List.replicate count '$')

theorem toList_dollared (name : String) (count : Nat) :
    (dollared name count).toList = name.toList ++ List.replicate count '$' := by
  simp [dollared]

@[simp] theorem dollared_zero (name : String) : dollared name 0 = name := by
  simp [dollared]

theorem dollared_succ (name : String) (count : Nat) :
    dollared (name ++ "$") count = dollared name (count + 1) := by
  apply String.toList_inj.mp
  simp [toList_dollared, List.replicate_succ]

theorem dollared_inj {name : String} {j k : Nat} (h : dollared name j = dollared name k) :
    j = k := by
  have hl := congrArg (fun s => s.toList.length) h
  simpa [toList_dollared] using hl

/-- The names with fewer dollar signs than a count, the plain name first. -/
def dollaredBelow (name : String) (count : Nat) : List String :=
  (List.range count).map (dollared name)

theorem length_dollaredBelow (name : String) (count : Nat) :
    (dollaredBelow name count).length = count := by
  simp [dollaredBelow]

theorem dollaredBelow_nodup (name : String) (count : Nat) : (dollaredBelow name count).Nodup := by
  refine List.Nodup.map ?_ List.nodup_range
  intro j k h
  exact dollared_inj h

/-! ## The least count -/

/-- A local name is the given name with the least count of dollar signs that makes it free. -/
def IsFree (taken : List String) (name localName : String) : Prop :=
  ∃ k, localName = dollared name k ∧ localName ∉ taken ∧ ∀ j < k, dollared name j ∈ taken

/-- Only the membership of the taken names matters. -/
theorem IsFree.congr {taken taken' : List String} {name localName : String}
    (hm : ∀ n, n ∈ taken ↔ n ∈ taken') (h : IsFree taken name localName) :
    IsFree taken' name localName := by
  obtain ⟨k, hk, hfree, hbelow⟩ := h
  exact ⟨k, hk, fun hn => hfree ((hm _).mpr hn), fun j hj => (hm _).mp (hbelow j hj)⟩

/-- A search of bounded length stops at a free name or has passed as many taken names as it has
steps. -/
theorem freshFrom_eq_dollared (taken : List String) :
    ∀ (steps : Nat) (name : String), ∃ k ≤ steps,
      freshFrom taken steps name = dollared name k ∧ (∀ j < k, dollared name j ∈ taken) ∧
        (k < steps → dollared name k ∉ taken)
  | 0, name => ⟨0, Nat.le_refl 0, by simp [freshFrom], by simp, by simp⟩
  | steps + 1, name => by
      by_cases hname : name ∈ taken
      · obtain ⟨k, hk, heq, hbelow, hfree⟩ := freshFrom_eq_dollared taken steps (name ++ "$")
        refine ⟨k + 1, by omega, ?_, ?_, ?_⟩
        · rw [freshFrom, if_pos hname, heq, dollared_succ]
        · intro j hj
          cases j with
          | zero => simpa using hname
          | succ j =>
              rw [← dollared_succ]
              exact hbelow j (by omega)
        · intro hlt
          rw [← dollared_succ]
          exact hfree (by omega)
      · refine ⟨0, by omega, ?_, by simp, ?_⟩
        · rw [freshFrom, if_neg hname, dollared_zero]
        · intro _
          simpa using hname

/-- So many different names as there are taken ones can all be taken, but not one more. -/
theorem not_all_taken (taken : List String) (name : String) :
    ¬ ∀ j ≤ taken.length, dollared name j ∈ taken := by
  intro hall
  have hsub : dollaredBelow name (taken.length + 1) ⊆ taken := by
    intro n hn
    obtain ⟨j, hj, rfl⟩ := List.mem_map.mp hn
    exact hall j (by rw [List.mem_range] at hj; omega)
  have hle := ((dollaredBelow_nodup name (taken.length + 1)).subperm hsub).length_le
  rw [length_dollaredBelow] at hle
  omega

theorem freshName_isFree (taken : List String) (name : String) :
    IsFree taken name (freshName taken name) := by
  obtain ⟨k, hk, heq, hbelow, hfree⟩ := freshFrom_eq_dollared taken taken.length name
  refine ⟨k, heq, ?_, hbelow⟩
  rw [freshName, heq]
  by_cases hlt : k < taken.length
  · exact hfree hlt
  · intro hmem
    refine not_all_taken taken name fun j hj => ?_
    by_cases hjk : j = k
    · rw [hjk]; exact hmem
    · exact hbelow j (by omega)

theorem freshName_not_mem (taken : List String) (name : String) :
    freshName taken name ∉ taken := by
  obtain ⟨_, _, hfree, _⟩ := freshName_isFree taken name
  exact hfree

end SchemaScript.Draft
