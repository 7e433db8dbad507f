import SchemaScript.Proofs.Table
import SchemaScript.Value

/-!
# Tables with texts for keys

The keys of a table of values can be any values, and some that differ fall together.  Different
texts never do, so a table whose keys are texts is the table of the pairs of these texts and their
values (`Value.tableOf_textEntries`).
-/

namespace SchemaScript.Value

/-- The entries of a table with texts for keys. -/
def textEntries (pairs : List (String × Value)) : List (Value × Value) :=
  pairs.map fun p => (.text p.1, p.2)

theorem exists_textEntries {entries : List (Value × Value)}
    (h : ∀ e ∈ entries, ∃ key, e.1 = .text key) : ∃ pairs, entries = textEntries pairs := by
  induction entries with
  | nil => exact ⟨[], rfl⟩
  | cons e rest ih =>
    obtain ⟨⟨key, hkey⟩, hrest⟩ := List.forall_mem_cons.mp h
    obtain ⟨pairs, rfl⟩ := ih hrest
    exact ⟨(key, e.2) :: pairs, congrArg (· :: textEntries pairs) (Prod.ext hkey rfl)⟩

theorem keys_textEntries (pairs : List (String × Value)) :
    (textEntries pairs).map Prod.fst = (pairs.map Prod.fst).map Value.text := by
  rw [textEntries, List.map_map, List.map_map]
  rfl

theorem same_text (s t : String) : (Value.text s).same (.text t) = decide (s = t) := by
  rw [text, text, same]
  by_cases h : s = t
  · subst h
    simp [Scalar.same, Scalar.number?, Scalar.isNaN]
  · simp [Scalar.same, Scalar.number?, h]

theorem putWhere_textEntries (key : String) (v : Value) (pairs : List (String × Value)) :
    Table.putWhere (·.same (.text key)) (.text key) v (textEntries pairs) =
      textEntries (Table.putWhere (· = key) key v pairs) := by
  induction pairs with
  | nil => rfl
  | cons p rest ih =>
    show (if (Value.text p.1).same (.text key) then _ else _) = textEntries (if _ then _ else _)
    rw [same_text]
    split
    · rfl
    · exact congrArg (List.cons _) ih

theorem tableOf_textEntries (pairs : List (String × Value)) :
    tableOf (textEntries pairs) = textEntries (Table.ofList pairs).entries := by
  induction pairs using List.reverseRecOn with
  | nil => rfl
  | append_singleton before p ih =>
    have hconcat : tableOf (textEntries (before ++ [p])) =
        Table.putWhere (·.same (.text p.1)) (.text p.1) p.2 (tableOf (textEntries before)) := by
      rw [textEntries, List.map_append, tableOf, List.foldl_append]
      rfl
    rw [hconcat, ih, putWhere_textEntries, Table.ofList_concat]
    rfl

end SchemaScript.Value
