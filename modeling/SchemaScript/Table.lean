/-!
# Tables

A table keeps pairs of a key and a value in the order in which the keys were first put in.  Putting
a key again replaces its value and leaves the key where it stands.

The view of a table is its list of entries.  `get?_put` and `keys_put` say what `put` does to it.
-/

namespace SchemaScript

/-- Pairs of a key and a value, in order. -/
structure Table (κ α : Type) where
  /-- The pairs, the oldest key first. -/
  entries : List (κ × α)
deriving Repr, BEq, DecidableEq

namespace Table

variable {κ α : Type}

/-- The table without entries. -/
def empty : Table κ α :=
  ⟨[]⟩

instance : EmptyCollection (Table κ α) := ⟨empty⟩

instance : Inhabited (Table κ α) := ⟨empty⟩

/-- The keys in order. -/
def keys (t : Table κ α) : List κ :=
  t.entries.map Prod.fst

/-- The values in the order of their keys. -/
def values (t : Table κ α) : List α :=
  t.entries.map Prod.snd

/-- Entries with the value of the first key that passes the test replaced, or a new entry last. -/
def putWhere (same : κ → Bool) (k : κ) (v : α) : List (κ × α) → List (κ × α)
  | [] => [(k, v)]
  | e :: rest => if same e.1 then (e.1, v) :: rest else e :: putWhere same k v rest

variable [DecidableEq κ]

/-- The value of a key. -/
def get? (t : Table κ α) (k : κ) : Option α :=
  t.entries.lookup k

/-- The table with the value of a key set. -/
def put (t : Table κ α) (k : κ) (v : α) : Table κ α :=
  ⟨putWhere (· = k) k v t.entries⟩

/-- The table of the pairs, put in one after the other. -/
def ofList (pairs : List (κ × α)) : Table κ α :=
  pairs.foldl (fun t p => t.put p.1 p.2) empty

/-! ## Laws -/

theorem lookup_putWhere (k j : κ) (v : α) (es : List (κ × α)) :
    (putWhere (· = k) k v es).lookup j = if j = k then some v else es.lookup j := by
  have other {a : κ} (h : ¬ j = a) : (j == a) = false := by simp [h]
  induction es with
  | nil => by_cases h : j = k <;> simp [putWhere, List.lookup_cons, h, other]
  | cons e rest ih =>
    obtain ⟨a, b⟩ := e
    by_cases ha : a = k
    · subst ha
      by_cases h : j = a <;> simp [putWhere, List.lookup_cons, h, other]
    · by_cases h : j = a
      · subst h
        simp [putWhere, ha]
      · simp [putWhere, List.lookup_cons, ha, other h, ih]

theorem get?_put (t : Table κ α) (k j : κ) (v : α) :
    (t.put k v).get? j = if j = k then some v else t.get? j :=
  lookup_putWhere k j v t.entries

theorem fst_putWhere (k : κ) (v : α) (es : List (κ × α)) :
    (putWhere (· = k) k v es).map Prod.fst =
      if k ∈ es.map Prod.fst then es.map Prod.fst else es.map Prod.fst ++ [k] := by
  induction es with
  | nil => simp [putWhere]
  | cons e rest ih =>
    by_cases h : e.1 = k
    · simp [putWhere, h]
    · have h' : ¬ k = e.1 := fun x => h x.symm
      by_cases hk : k ∈ rest.map Prod.fst
      · simp only [putWhere, h, decide_false, Bool.false_eq_true, if_false, List.map_cons, ih,
          List.mem_cons, h', false_or, if_pos hk]
      · simp only [putWhere, h, decide_false, Bool.false_eq_true, if_false, List.map_cons, ih,
          List.mem_cons, h', false_or, if_neg hk, List.cons_append]

theorem keys_put (t : Table κ α) (k : κ) (v : α) :
    (t.put k v).keys = if k ∈ t.keys then t.keys else t.keys ++ [k] :=
  fst_putWhere k v t.entries

end Table

end SchemaScript
