import SchemaScript.Proofs.Draft.FreshName
import SchemaScript.Proofs.Table

/-!
# Imports of a draft

What holds of the imports of a draft at every time, and what stays as it is once it holds.

`Draft.Sound` is the invariant.  The tables have every key once, the draft imports nothing from its
own module, every local name is taken, and no two symbols have the same local name.

`Draft.Leads` relates a draft to those that it can become.  Its steps are the only changes that are
made to a draft: a name is reserved, a symbol is requested, a line is written, the import statements
are placed, the indentation is set, something is told.  Along `Leads` the invariant is kept, the
local name of a symbol never changes (`Leads.localName?`), and a name that was reserved before
anything was imported is never a local name (`Leads.guards`).
-/

namespace SchemaScript.Draft

variable {d e : Draft} {s s' : Symbol} {l l' : String}

/-! ## Local names -/

theorem localName?_eq_bind (d : Draft) (s : Symbol) :
    d.localName? s = (d.imports.get? s.module).bind (·.get? s.name) := by
  simp only [localName?, importsFrom]
  cases d.imports.get? s.module with
  | none => rfl
  | some t => rfl

theorem localName?_importAs (d : Draft) (s s' : Symbol) (l : String) :
    (d.importAs s l).localName? s' = if s' = s then some l else d.localName? s' := by
  obtain ⟨m, n⟩ := s
  obtain ⟨m', n'⟩ := s'
  rw [localName?_eq_bind]
  simp only [importAs, Table.get?_put, Symbol.mk.injEq]
  by_cases hm : m' = m
  · subst hm
    by_cases hn : n' = n <;> simp [hn, Table.get?_put, localName?]
  · simp [hm, localName?_eq_bind]

/-! ## Requests -/

/-- A request gives the plain name of an own symbol, the local name of an imported one, and a free
name to any other, which is imported under it. -/
theorem request_cases (d : Draft) (s : Symbol) :
    (s.module = d.path ∧ d.request s = (s.name, d)) ∨
      (s.module ≠ d.path ∧ ∃ l, d.localName? s = some l ∧ d.request s = (l, d)) ∨
      (s.module ≠ d.path ∧ d.localName? s = none ∧
        d.request s = (freshName d.taken s.name, d.importAs s (freshName d.taken s.name))) := by
  by_cases hm : s.module = d.path
  · exact Or.inl ⟨hm, by rw [request, if_pos hm]⟩
  · refine Or.inr ?_
    cases hl : d.localName? s with
    | some l => exact Or.inl ⟨hm, l, rfl, by simp [request, hm, hl]⟩
    | none => exact Or.inr ⟨hm, rfl, by simp [request, hm, hl]⟩

/-- A name stands for a symbol: its own name in its own module, and its local name in any other. -/
def Names (d : Draft) (s : Symbol) (l : String) : Prop :=
  if s.module = d.path then l = s.name else d.localName? s = some l

theorem names_own (hm : s.module = d.path) : d.Names s l ↔ l = s.name := by
  simp [Names, hm]

theorem names_foreign (hm : s.module ≠ d.path) : d.Names s l ↔ d.localName? s = some l := by
  simp [Names, hm]

instance (d : Draft) (s : Symbol) (l : String) : Decidable (d.Names s l) := by
  unfold Names; infer_instance

@[simp] theorem path_request (d : Draft) (s : Symbol) : (d.request s).2.path = d.path := by
  rcases request_cases d s with ⟨_, h⟩ | ⟨_, l, _, h⟩ | ⟨_, _, h⟩ <;> rw [h]
  rfl

@[simp] theorem name_request (d : Draft) (s : Symbol) : (d.request s).2.name = d.name := by
  rcases request_cases d s with ⟨_, h⟩ | ⟨_, l, _, h⟩ | ⟨_, _, h⟩ <;> rw [h]
  rfl

theorem names_request (d : Draft) (s : Symbol) : (d.request s).2.Names s (d.request s).1 := by
  rcases request_cases d s with ⟨hm, h⟩ | ⟨hm, l, hl, h⟩ | ⟨hm, _, h⟩ <;> rw [h]
  · exact (names_own hm).mpr rfl
  · exact (names_foreign hm).mpr hl
  · refine (names_foreign (d := d.importAs s _) hm).mpr ?_
    rw [localName?_importAs, if_pos rfl]

/-! ## The invariant -/

/-- What holds of the imports of a draft at every time. -/
structure Sound (d : Draft) : Prop where
  modules_nodup : d.imports.keys.Nodup
  names_nodup : ∀ m t, d.imports.get? m = some t → t.keys.Nodup
  own : d.path ∉ d.imports.keys
  taken : ∀ s l, d.localName? s = some l → l ∈ d.taken
  apart : ∀ s s' l, d.localName? s = some l → d.localName? s' = some l → s = s'

theorem sound_new (name : String) (path : ImportPath) : (new name path).Sound := by
  have hnone : ∀ s, (new name path).localName? s = none := by
    intro s
    rw [localName?_eq_bind]
    rfl
  constructor
  · exact List.nodup_nil
  · intro m t h; cases h
  · exact List.not_mem_nil
  · intro s l h; rw [hnone] at h; cases h
  · intro s s' l h; rw [hnone] at h; cases h

/-- Only the imports, the taken names and the path matter. -/
theorem Sound.congr (h : d.Sound) (hp : e.path = d.path) (hi : e.imports = d.imports)
    (ht : d.taken ⊆ e.taken) : e.Sound := by
  have hl : ∀ s, e.localName? s = d.localName? s := by
    intro s
    rw [localName?_eq_bind, localName?_eq_bind, hi]
  constructor
  · rw [hi]; exact h.modules_nodup
  · rw [hi]; exact h.names_nodup
  · rw [hi, hp]; exact h.own
  · intro s l hs
    rw [hl] at hs
    exact ht (h.taken s l hs)
  · intro s s' l hs hs'
    rw [hl] at hs hs'
    exact h.apart s s' l hs hs'

theorem Sound.importAs (h : d.Sound) (hm : s.module ≠ d.path) (hl : l ∉ d.taken) :
    (d.importAs s l).Sound := by
  constructor
  · exact Table.keys_put_nodup h.modules_nodup _ _
  · intro m t ht
    simp only [Draft.importAs, Table.get?_put] at ht
    split at ht
    · cases ht
      refine Table.keys_put_nodup ?_ _ _
      cases hf : d.imports.get? s.module with
      | none => simp [importsFrom, hf, Table.empty, Table.keys]
      | some t => simpa [importsFrom, hf] using h.names_nodup _ t hf
    · exact h.names_nodup m t ht
  · simp only [Draft.importAs, Table.keys_put]
    split
    · exact h.own
    · simp only [List.mem_append, List.mem_singleton, not_or]
      exact ⟨h.own, fun heq => hm heq.symm⟩
  · intro s' l' hs'
    rw [localName?_importAs] at hs'
    split at hs'
    · cases hs'; exact List.mem_cons_self
    · exact List.mem_cons_of_mem _ (h.taken s' l' hs')
  · intro s₁ s₂ l' h₁ h₂
    rw [localName?_importAs] at h₁ h₂
    -- a symbol imported earlier has a taken name, and the new one has none
    split at h₁ <;> split at h₂
    · next e₁ e₂ => rw [e₁, e₂]
    · cases h₁; exact absurd (h.taken _ _ h₂) hl
    · cases h₂; exact absurd (h.taken _ _ h₁) hl
    · exact h.apart s₁ s₂ l' h₁ h₂

theorem Sound.request (h : d.Sound) (s : Symbol) : (d.request s).2.Sound := by
  rcases request_cases d s with ⟨_, hr⟩ | ⟨_, l, _, hr⟩ | ⟨hm, _, hr⟩ <;> rw [hr]
  · exact h
  · exact h
  · exact h.importAs hm (freshName_not_mem _ _)

/-! ## Specifiers -/

/-- The specifiers of import statements: every imported symbol with its local name. -/
def specifiersOf (imports : Table ImportPath (Table String String)) : List (Symbol × String) :=
  imports.entries.flatMap fun e => e.2.entries.map fun n => (⟨e.1, n.1⟩, n.2)

/-- The specifiers of the import statements of a draft. -/
def specifiers (d : Draft) : List (Symbol × String) :=
  specifiersOf d.imports

theorem Sound.mem_specifiers_iff (h : d.Sound) : (s, l) ∈ d.specifiers ↔ d.localName? s = some l := by
  rw [localName?_eq_bind, Option.bind_eq_some_iff]
  simp only [specifiers, specifiersOf, List.mem_flatMap, List.mem_map, Prod.mk.injEq]
  constructor
  · rintro ⟨e, he, n, hn, rfl, rfl⟩
    have hget := Table.get?_of_mem h.modules_nodup (v := e.2) he
    exact ⟨e.2, hget, Table.get?_of_mem (h.names_nodup _ _ hget) hn⟩
  · rintro ⟨t, ht, hl⟩
    exact ⟨(s.module, t), Table.mem_entries_of_get? ht, (s.name, l), Table.mem_entries_of_get? hl,
      rfl, rfl⟩

theorem Sound.symbols_nodup (h : d.Sound) : (d.specifiers.map Prod.fst).Nodup := by
  rw [specifiers, specifiersOf, List.map_flatMap, List.nodup_flatMap]
  constructor
  · intro e he
    have hget := Table.get?_of_mem h.modules_nodup (v := e.2) he
    have hnames := h.names_nodup _ _ hget
    rw [List.map_map, show Prod.fst ∘ (fun n : String × String => ((⟨e.1, n.1⟩ : Symbol), n.2)) =
      (fun n => (⟨e.1, n⟩ : Symbol)) ∘ Prod.fst from rfl, ← List.map_map]
    exact hnames.map fun a b hab => (Symbol.mk.inj hab).2
  · have hmodules : (d.imports.entries.map Prod.fst).Nodup := h.modules_nodup
    refine (List.pairwise_map.mp hmodules).imp fun hne => ?_
    intro x hx hy
    simp only [List.mem_map] at hx hy
    obtain ⟨_, ⟨_, _, rfl⟩, rfl⟩ := hx
    obtain ⟨_, ⟨_, _, rfl⟩, heq⟩ := hy
    exact hne (Symbol.mk.inj heq).1.symm

/-- The local names in the import statements are all different. -/
theorem Sound.localNames_nodup (h : d.Sound) : (d.specifiers.map Prod.snd).Nodup := by
  refine List.Nodup.map_on ?_ h.symbols_nodup.of_map
  rintro ⟨s, l⟩ hs ⟨s', l'⟩ hs' rfl
  rw [h.apart s s' l (h.mem_specifiers_iff.mp hs) (h.mem_specifiers_iff.mp hs')]

/-! ## Drafts that a draft can become -/

/-- A draft can become another one. -/
inductive Leads (start : Draft) : Draft → Prop where
  | refl : Leads start start
  | reserve {d : Draft} (h : Leads start d) (name : String) : Leads start (d.reserve name)
  | request {d : Draft} (h : Leads start d) (s : Symbol) : Leads start (d.request s).2
  | line {d : Draft} (h : Leads start d) (line : String) :
    Leads start { d with lines := d.lines ++ [line] }
  | mark {d : Draft} (h : Leads start d) : Leads start d.markImports
  | level {d : Draft} (h : Leads start d) (level : Nat) : Leads start { d with level := level }
  | tell {d : Draft} (h : Leads start d) (n : Notice) :
    Leads start { d with notices := d.notices ++ [n] }

namespace Leads

theorem trans {c : Draft} (h₁ : Leads c d) (h₂ : Leads d e) : Leads c e := by
  induction h₂ with
  | refl => exact h₁
  | reserve _ name ih => exact ih.reserve name
  | request _ s ih => exact ih.request s
  | line _ line ih => exact ih.line line
  | mark _ ih => exact ih.mark
  | level _ level ih => exact ih.level level
  | tell _ n ih => exact ih.tell n

theorem path_eq (h : Leads d e) : e.path = d.path := by
  induction h with
  | request _ s ih => rw [path_request, ih]
  | refl => rfl
  | reserve _ _ ih => exact ih
  | line _ _ ih => exact ih
  | mark _ ih => exact ih
  | level _ _ ih => exact ih
  | tell _ _ ih => exact ih

theorem name_eq (h : Leads d e) : e.name = d.name := by
  induction h with
  | request _ s ih => rw [name_request, ih]
  | refl => rfl
  | reserve _ _ ih => exact ih
  | line _ _ ih => exact ih
  | mark _ ih => exact ih
  | level _ _ ih => exact ih
  | tell _ _ ih => exact ih

theorem sound (h : Leads d e) (hd : d.Sound) : e.Sound := by
  induction h with
  | refl => exact hd
  | reserve _ name ih => exact ih.congr rfl rfl (List.subset_cons_self _ _)
  | request _ s ih => exact ih.request s
  | line _ _ ih => exact ih.congr rfl rfl (List.Subset.refl _)
  | mark _ ih => exact ih.congr rfl rfl (List.Subset.refl _)
  | level _ _ ih => exact ih.congr rfl rfl (List.Subset.refl _)
  | tell _ _ ih => exact ih.congr rfl rfl (List.Subset.refl _)

theorem taken_subset (h : Leads d e) : d.taken ⊆ e.taken := by
  induction h with
  | refl => exact List.Subset.refl _
  | reserve _ name ih => exact fun n hn => List.mem_cons_of_mem _ (ih hn)
  | @request e' _ s ih =>
    rcases request_cases e' s with ⟨_, hr⟩ | ⟨_, l, _, hr⟩ | ⟨_, _, hr⟩ <;> rw [hr]
    · exact ih
    · exact ih
    · exact fun n hn => List.mem_cons_of_mem _ (ih hn)
  | line _ _ ih => exact ih
  | mark _ ih => exact ih
  | level _ _ ih => exact ih
  | tell _ _ ih => exact ih

/-- An imported symbol keeps its local name. -/
theorem localName? (h : Leads d e) (hs : d.localName? s = some l) : e.localName? s = some l := by
  induction h with
  | @request e' _ s' ih =>
    rcases request_cases e' s' with ⟨_, hr⟩ | ⟨_, l', _, hr⟩ | ⟨_, hnone, hr⟩ <;> rw [hr]
    · exact ih
    · exact ih
    · rw [localName?_importAs]
      split
      · next heq => rw [heq, hnone] at ih; cases ih
      · exact ih
  | refl => exact hs
  | reserve _ _ ih => exact ih
  | line _ _ ih => exact ih
  | mark _ ih => exact ih
  | level _ _ ih => exact ih
  | tell _ _ ih => exact ih

theorem names (h : Leads d e) (hs : d.Names s l) : e.Names s l := by
  by_cases hm : s.module = d.path
  · rw [names_own hm] at hs
    exact (names_own (hm.trans h.path_eq.symm)).mpr hs
  · rw [names_foreign hm] at hs
    refine (names_foreign fun heq => hm (heq.trans h.path_eq)).mpr ?_
    exact h.localName? hs

end Leads

/-! ## Guarded names -/

/-- Names are taken by declarations and are no local names. -/
def Guards (d : Draft) (names : List String) : Prop :=
  ∀ n ∈ names, n ∈ d.taken ∧ ∀ s, d.localName? s ≠ some n

theorem guards_of_no_imports {names : List String} (hd : ∀ s, d.localName? s = none)
    (ht : names ⊆ d.taken) : d.Guards names := by
  intro n hn
  refine ⟨ht hn, fun s h => ?_⟩
  rw [hd] at h
  cases h

theorem Leads.guards {names : List String} (h : Leads d e) (hd : d.Guards names) :
    e.Guards names := by
  intro n hn
  refine ⟨h.taken_subset (hd n hn).1, ?_⟩
  induction h with
  | @request e' he s ih =>
    rcases request_cases e' s with ⟨_, hr⟩ | ⟨_, l, _, hr⟩ | ⟨_, _, hr⟩ <;> rw [hr]
    · exact ih
    · exact ih
    · intro s' hs'
      rw [localName?_importAs] at hs'
      split at hs'
      · -- a fresh name is not taken, and the guarded one is
        have hfresh := freshName_not_mem e'.taken s.name
        rw [Option.some.inj hs'] at hfresh
        exact hfresh (he.taken_subset (hd n hn).1)
      · exact ih s' hs'
  | refl => exact (hd n hn).2
  | reserve _ _ ih => exact ih
  | line _ _ ih => exact ih
  | mark _ ih => exact ih
  | level _ _ ih => exact ih
  | tell _ _ ih => exact ih

end SchemaScript.Draft
