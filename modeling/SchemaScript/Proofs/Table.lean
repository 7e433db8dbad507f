import Mathlib.Data.List.Induction
import Mathlib.Data.List.Nodup
import SchemaScript.Table

/-!
# Tables without repeated keys

A table that is made by putting in pairs has every key once (`Table.keys_put_nodup`), so a key has
the value that stands with it among the entries (`Table.get?_eq_some_iff`).

`Table.entries_put_of_not_mem` and `Table.putWhere_map` say what putting does to the entries
themselves: a new key goes last, and the value of an old one is changed where it stands.  So pairs
whose keys are different already stand in the table that is made of them as they are
(`Table.entries_ofList`).
-/

namespace SchemaScript.Table

variable {κ α : Type}

theorem eq_iff_entries {t u : Table κ α} : t = u ↔ t.entries = u.entries := by
  cases t
  cases u
  simp

/-- Putting brings no value and no key but the new ones. -/
theorem mem_putWhere {same : κ → Bool} {k : κ} {v : α} {es : List (κ × α)} {e : κ × α}
    (h : e ∈ putWhere same k v es) :
    (e.2 = v ∧ (e.1 = k ∨ e.1 ∈ es.map Prod.fst)) ∨ e ∈ es := by
  induction es with
  | nil =>
    rw [putWhere, List.mem_singleton] at h
    exact Or.inl (by rw [h]; exact ⟨rfl, Or.inl rfl⟩)
  | cons e' rest ih =>
    rw [putWhere] at h
    split at h
    · rcases List.mem_cons.mp h with rfl | h
      · exact Or.inl ⟨rfl, Or.inr List.mem_cons_self⟩
      · exact Or.inr (List.mem_cons_of_mem _ h)
    · rcases List.mem_cons.mp h with rfl | h
      · exact Or.inr List.mem_cons_self
      · refine (ih h).imp ?_ (List.mem_cons_of_mem _)
        exact fun hnew => ⟨hnew.1, hnew.2.imp id (List.mem_cons_of_mem _)⟩

variable [DecidableEq κ]

/-! ## Entries and values -/

theorem mem_entries_of_get? {t : Table κ α} {k : κ} {v : α} (h : t.get? k = some v) :
    (k, v) ∈ t.entries := by
  obtain ⟨before, after, hsplit, _⟩ := List.lookup_eq_some_iff.mp h
  rw [hsplit]
  exact List.mem_append_right _ List.mem_cons_self

theorem mem_values_of_get? {t : Table κ α} {k : κ} {v : α} (h : t.get? k = some v) :
    v ∈ t.values :=
  List.mem_map.mpr ⟨(k, v), mem_entries_of_get? h, rfl⟩

theorem get?_eq_none_iff {t : Table κ α} {k : κ} : t.get? k = none ↔ k ∉ t.keys := by
  constructor
  · intro h hk
    obtain ⟨e, he, rfl⟩ := List.mem_map.mp hk
    have hne := List.lookup_eq_none_iff.mp h e he
    simp at hne
  · intro h
    refine List.lookup_eq_none_iff.mpr fun e he => ?_
    have hne : k ≠ e.1 := fun heq => h (List.mem_map.mpr ⟨e, he, heq.symm⟩)
    simpa using hne

theorem get?_of_mem {t : Table κ α} (hn : t.keys.Nodup) {k : κ} {v : α}
    (h : (k, v) ∈ t.entries) : t.get? k = some v := by
  cases t with
  | mk entries =>
    simp only [keys] at hn
    simp only [get?]
    induction entries with
    | nil => cases h
    | cons e rest ih =>
      simp only [List.map_cons, List.nodup_cons] at hn
      rcases List.mem_cons.mp h with heq | hrest
      · subst heq
        exact List.lookup_cons_self
      · have hne : (k == e.1) = false := by
          have hke : k ≠ e.1 := by
            intro heq
            exact hn.1 (List.mem_map.mpr ⟨(k, v), hrest, heq⟩)
          simpa using hke
        rw [List.lookup_cons, hne]
        exact ih hn.2 hrest

theorem get?_eq_some_iff {t : Table κ α} (hn : t.keys.Nodup) {k : κ} {v : α} :
    t.get? k = some v ↔ (k, v) ∈ t.entries :=
  ⟨mem_entries_of_get?, get?_of_mem hn⟩

/-- The value of a key where the entries are a function of their keys. -/
theorem lookup_map_pair (f : κ → α) (ks : List κ) (k : κ) :
    (ks.map fun j => (j, f j)).lookup k = if k ∈ ks then some (f k) else none := by
  induction ks with
  | nil => rfl
  | cons j rest ih =>
    rw [List.map_cons, List.lookup_cons]
    by_cases hj : k = j
    · simp [hj]
    · have hne : (k == j) = false := by simpa using hj
      simp [hne, ih, hj]

/-! ## Putting -/

theorem keys_put_nodup {t : Table κ α} (hn : t.keys.Nodup) (k : κ) (v : α) :
    (t.put k v).keys.Nodup := by
  rw [keys_put]
  split
  · exact hn
  · next hk => exact List.nodup_append.mpr ⟨hn, by simp, by
      intro a ha b hb
      rw [List.mem_singleton] at hb
      subst hb
      exact fun heq => hk (heq ▸ ha)⟩

theorem putWhere_of_not_mem (k : κ) (v : α) (es : List (κ × α)) (h : k ∉ es.map Prod.fst) :
    putWhere (· = k) k v es = es ++ [(k, v)] := by
  induction es with
  | nil => rfl
  | cons e rest ih =>
    simp only [List.map_cons, List.mem_cons, not_or] at h
    have hne : ¬ e.1 = k := fun heq => h.1 heq.symm
    simp [putWhere, hne, ih h.2]

theorem entries_put_of_not_mem {t : Table κ α} {k : κ} (h : k ∉ t.keys) (v : α) :
    (t.put k v).entries = t.entries ++ [(k, v)] :=
  putWhere_of_not_mem k v t.entries h

/-- Where the entries are a function of their keys, putting changes the function at one key. -/
theorem putWhere_map (k : κ) (v : α) (f : κ → α) (ks : List κ) (hn : ks.Nodup) (hk : k ∈ ks) :
    putWhere (· = k) k v (ks.map fun j => (j, f j)) =
      ks.map fun j => (j, if j = k then v else f j) := by
  induction ks with
  | nil => cases hk
  | cons j rest ih =>
    rw [List.nodup_cons] at hn
    by_cases hj : j = k
    · subst hj
      have hrest : rest.map (fun i => (i, f i)) = rest.map fun i => (i, if i = j then v else f i) := by
        refine List.map_congr_left fun i hi => ?_
        have hne : i ≠ j := fun heq => hn.1 (heq ▸ hi)
        simp [hne]
      simp [putWhere, hrest]
    · have hrest := ih hn.2 ((List.mem_cons.mp hk).resolve_left fun heq => hj heq.symm)
      simp only [List.map_cons, putWhere, hj, decide_false, Bool.false_eq_true, if_false, hrest]

/-! ## Tables of pairs -/

theorem ofList_concat (pairs : List (κ × α)) (p : κ × α) :
    ofList (pairs ++ [p]) = (ofList pairs).put p.1 p.2 := by
  rw [ofList, List.foldl_append]
  rfl

/-- Pairs of different keys stand in the table as they are. -/
theorem entries_ofList {pairs : List (κ × α)} (h : (pairs.map Prod.fst).Nodup) :
    (ofList pairs).entries = pairs := by
  induction pairs using List.reverseRecOn with
  | nil => rfl
  | append_singleton before p ih =>
    rw [List.map_append, List.nodup_append] at h
    have hbefore := ih h.1
    have hkey : p.1 ∉ (ofList before).keys := by
      rw [keys, hbefore]
      exact fun hmem => h.2.2 _ hmem _ (List.mem_singleton_self _) rfl
    rw [ofList_concat, entries_put_of_not_mem hkey, hbefore]

theorem mem_of_mem_keys_ofList {pairs : List (κ × α)} {k : κ} (h : k ∈ (ofList pairs).keys) :
    k ∈ pairs.map Prod.fst := by
  induction pairs using List.reverseRecOn with
  | nil => cases h
  | append_singleton before p ih =>
    rw [ofList_concat, keys_put] at h
    rw [List.map_append, List.mem_append]
    split at h
    · exact .inl (ih h)
    · exact (List.mem_append.mp h).imp ih id

theorem mem_of_mem_values_ofList {pairs : List (κ × α)} {v : α}
    (h : v ∈ (ofList pairs).values) : v ∈ pairs.map Prod.snd := by
  induction pairs using List.reverseRecOn with
  | nil => cases h
  | append_singleton before p ih =>
    rw [ofList_concat] at h
    rw [List.map_append, List.mem_append]
    obtain ⟨e, he, rfl⟩ := List.mem_map.mp h
    rcases mem_putWhere he with hnew | hold
    · exact .inr (List.mem_singleton.mpr hnew.1)
    · exact .inl (ih (List.mem_map_of_mem hold))

theorem mem_keys_ofList_iff {pairs : List (κ × α)} {k : κ} :
    k ∈ (ofList pairs).keys ↔ k ∈ pairs.map Prod.fst := by
  refine ⟨mem_of_mem_keys_ofList, fun h => ?_⟩
  induction pairs using List.reverseRecOn with
  | nil => cases h
  | append_singleton before p ih =>
    rw [List.map_append, List.mem_append] at h
    rw [ofList_concat, keys_put]
    rcases h with h | h
    · split
      · exact ih h
      · exact List.mem_append_left _ (ih h)
    · rw [List.map_singleton, List.mem_singleton] at h
      subst h
      split
      · assumption
      · exact List.mem_append_right _ (List.mem_singleton_self _)

theorem keys_ofList_nodup (pairs : List (κ × α)) : (ofList pairs).keys.Nodup := by
  induction pairs using List.reverseRecOn with
  | nil => exact List.nodup_nil
  | append_singleton before p ih =>
    rw [ofList_concat]
    exact keys_put_nodup ih p.1 p.2

/-! ## Keys under other names -/

section

variable {ι μ : Type}

/-- An entry with its key under another name, if the key has one. -/
def renamed (name? : ι → Option μ) (e : ι × α) : Option (μ × α) :=
  (name? e.1).map fun name => (name, e.2)

theorem renamed_of_none {name? : ι → Option μ} {k : ι} (h : name? k = none) (v : α) :
    renamed name? (k, v) = none := by
  rw [renamed, h, Option.map_none]

theorem renamed_of_some {name? : ι → Option μ} {k : ι} {name : μ} (h : name? k = some name)
    (v : α) : renamed name? (k, v) = some (name, v) := by
  rw [renamed, h, Option.map_some]

variable [DecidableEq ι] [DecidableEq μ] {name? : ι → Option μ}

/-- Putting a key among entries is putting its name among the entries with names. -/
theorem filterMap_putWhere (hname : ∀ j k name, name? j = some name → name? k = some name → j = k)
    (k : ι) (v : α) (es : List (ι × α)) :
    (putWhere (· = k) k v es).filterMap (renamed name?) =
      match name? k with
      | some name => putWhere (· = name) name v (es.filterMap (renamed name?))
      | none => es.filterMap (renamed name?) := by
  induction es with
  | nil =>
    cases hk : name? k with
    | none => rw [putWhere, List.filterMap_cons_none (renamed_of_none hk v)]
    | some name => rw [putWhere, List.filterMap_cons_some (renamed_of_some hk v)]; rfl
  | cons e rest ih =>
    obtain ⟨j, w⟩ := e
    rw [putWhere]
    by_cases hj : j = k
    · subst hj
      rw [if_pos (decide_eq_true rfl)]
      cases hk : name? j with
      | none =>
        rw [List.filterMap_cons_none (renamed_of_none hk v),
          List.filterMap_cons_none (renamed_of_none hk w)]
      | some name =>
        rw [List.filterMap_cons_some (renamed_of_some hk v),
          List.filterMap_cons_some (renamed_of_some hk w)]
        dsimp only
        rw [putWhere, if_pos (decide_eq_true rfl)]
    · rw [if_neg (by simpa using hj)]
      cases hother : name? j with
      | none =>
        rw [List.filterMap_cons_none (renamed_of_none hother w),
          List.filterMap_cons_none (renamed_of_none hother w), ih]
      | some other =>
        rw [List.filterMap_cons_some (renamed_of_some hother w),
          List.filterMap_cons_some (renamed_of_some hother w), ih]
        cases hk : name? k with
        | none => rfl
        | some name =>
          have hne : other ≠ name := fun heq => hj (hname j k name (heq ▸ hother) hk)
          dsimp only
          rw [putWhere, if_neg (by simpa using hne)]

/-- The entries with names of a table are the table of the pairs with names. -/
theorem filterMap_entries_ofList
    (hname : ∀ j k name, name? j = some name → name? k = some name → j = k)
    (pairs : List (ι × α)) :
    (ofList pairs).entries.filterMap (renamed name?) =
      (ofList (pairs.filterMap (renamed name?))).entries := by
  induction pairs using List.reverseRecOn with
  | nil => rfl
  | append_singleton before p ih =>
    rw [ofList_concat, List.filterMap_append]
    show (putWhere _ _ _ _).filterMap _ = _
    rw [filterMap_putWhere hname, ih]
    cases hp : name? p.1 with
    | none => rw [List.filterMap_cons_none (renamed_of_none hp p.2), List.filterMap_nil,
        List.append_nil]
    | some name =>
      rw [List.filterMap_cons_some (renamed_of_some hp p.2), List.filterMap_nil, ofList_concat]
      rfl

end

end SchemaScript.Table
