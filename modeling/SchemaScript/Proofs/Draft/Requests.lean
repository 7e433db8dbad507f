import SchemaScript.Proofs.Draft.Growth

/-!
# Requests before a failure

What is left behind by an edit that asks for symbols and then fails.

An edit that writes nothing is described by its *demands*: the symbols that its parts ask for, in
order, and the parts that fail.  `Edit.Demands` says that an edit does nothing but make certain
demands, up to the first that fails.  So a failed edit leaves the draft in which the symbols before
the failure were requested (`Demand.granted`), apart from notices.

A draft *knows* a symbol that has a name in it.  A request of a known symbol changes nothing, and
one of any other symbol adds an import, so what a failed edit leaves shows in the imports if and
only if it asked for a symbol that was not known (`Draft.imports_requestAll_iff`).
-/

namespace SchemaScript

namespace Draft

variable {d e : Draft} {s : Symbol} {ss : List Symbol}

/-! ## Known symbols -/

/-- A symbol has a name in a draft. -/
def Knows (d : Draft) (s : Symbol) : Prop :=
  s.module = d.path ∨ (d.localName? s).isSome

instance (d : Draft) (s : Symbol) : Decidable (d.Knows s) := by
  unfold Knows; infer_instance

theorem knows_iff_exists_names : d.Knows s ↔ ∃ l, d.Names s l := by
  unfold Knows
  by_cases hm : s.module = d.path
  · simp only [hm, true_or, true_iff]
    exact ⟨s.name, (names_own hm).mpr rfl⟩
  · simp only [hm, false_or, names_foreign hm]
    exact Option.isSome_iff_exists

theorem Leads.knows (h : d.Leads e) (hs : d.Knows s) : e.Knows s := by
  obtain ⟨l, hl⟩ := knows_iff_exists_names.mp hs
  exact knows_iff_exists_names.mpr ⟨l, h.names hl⟩

/-- Only the path and the imports matter. -/
theorem Knows.congr (h : d.Knows s) (hp : e.path = d.path) (hi : e.imports = d.imports) :
    e.Knows s := by
  unfold Knows at h ⊢
  rwa [hp, localName?_eq_bind, hi, ← localName?_eq_bind]

theorem request_of_knows (h : d.Knows s) : (d.request s).2 = d := by
  rcases request_cases d s with ⟨_, hr⟩ | ⟨_, l, _, hr⟩ | ⟨hm, hnone, _⟩
  · rw [hr]
  · rw [hr]
  · rcases h with hown | hsome
    · exact absurd hown hm
    · rw [hnone] at hsome
      cases hsome

theorem request_of_not_knows (h : ¬ d.Knows s) :
    (d.request s).2 = d.importAs s (freshName d.taken s.name) := by
  rcases request_cases d s with ⟨hm, _⟩ | ⟨_, l, hl, _⟩ | ⟨_, _, hr⟩
  · exact absurd (Or.inl hm) h
  · exact absurd (Or.inr (Option.isSome_iff_exists.mpr ⟨l, hl⟩)) h
  · rw [hr]

/-! ## Requests in a row -/

/-- The draft after requests in order. -/
def requestAll (d : Draft) (ss : List Symbol) : Draft :=
  ss.foldl (fun d s => (d.request s).2) d

@[simp] theorem requestAll_nil (d : Draft) : d.requestAll [] = d := rfl

@[simp] theorem requestAll_cons (d : Draft) (s : Symbol) (ss : List Symbol) :
    d.requestAll (s :: ss) = (d.request s).2.requestAll ss := rfl

theorem requestAll_append (d : Draft) (ss ss' : List Symbol) :
    d.requestAll (ss ++ ss') = (d.requestAll ss).requestAll ss' :=
  List.foldl_append

theorem grows_requestAll {allowed : Symbol → Prop} (d : Draft) (ss : List Symbol)
    (h : ∀ s ∈ ss, allowed s) : d.Grows allowed [] (d.requestAll ss) := by
  induction ss generalizing d with
  | nil => exact .refl d
  | cons s ss ih =>
    rw [List.forall_mem_cons] at h
    exact (Grows.request d h.1).trans_silent (ih _ h.2)

theorem knows_requestAll (d : Draft) (hs : s ∈ ss) : (d.requestAll ss).Knows s := by
  induction ss generalizing d with
  | nil => cases hs
  | cons s' ss ih =>
    rcases List.mem_cons.mp hs with rfl | hs
    · have hleads := (grows_requestAll (d.request s).2 ss fun _ _ => trivial).leads
      exact hleads.knows (knows_iff_exists_names.mpr ⟨_, names_request d s⟩)
    · exact ih _ hs

theorem requestAll_of_knows (h : ∀ s ∈ ss, d.Knows s) : d.requestAll ss = d := by
  induction ss with
  | nil => rfl
  | cons s ss ih =>
    rw [List.forall_mem_cons] at h
    rw [requestAll_cons, request_of_knows h.1, ih h.2]

/-- Requests leave the imports as they are if and only if every symbol was known. -/
theorem imports_requestAll_iff :
    (d.requestAll ss).imports = d.imports ↔ ∀ s ∈ ss, d.Knows s := by
  constructor
  · intro h s hs
    have hleads := (grows_requestAll d ss fun _ _ => trivial).leads
    exact (knows_requestAll d hs).congr hleads.path_eq.symm h.symm
  · intro h
    rw [requestAll_of_knows h]

/-! ## Drafts without notices -/

/-- The draft without what was told. -/
def silent (d : Draft) : Draft :=
  { d with notices := [] }

/-- What does not depend on the notices is the same in drafts that differ in the notices alone. -/
theorem congr_of_silent {β : Type} (f : Draft → β) (hf : ∀ d, f d.silent = f d)
    (h : d.silent = e.silent) : f d = f e := by
  rw [← hf d, h, hf e]

theorem silent_request (d : Draft) (s : Symbol) :
    (d.silent.request s).2.silent = (d.request s).2.silent := by
  have hsame : d.silent.Knows s ↔ d.Knows s := Iff.rfl
  by_cases h : d.Knows s
  · rw [request_of_knows h, request_of_knows (hsame.mpr h)]
    rfl
  · rw [request_of_not_knows h, request_of_not_knows (mt hsame.mp h)]
    rfl

theorem silent_requestAll_congr (h : d.silent = e.silent) (ss : List Symbol) :
    (d.requestAll ss).silent = (e.requestAll ss).silent := by
  induction ss generalizing d e with
  | nil => exact h
  | cons s ss ih =>
    refine ih ?_
    rw [← silent_request d, ← silent_request e, h]

end Draft

/-! ## Demands -/

/-- What a part of an edit asks of a draft. -/
inductive Demand where
  /-- The names of symbols. -/
  | names (symbols : List Symbol)
  /-- Nothing, since the part fails. -/
  | failure

namespace Demand

/-- The demand of a part that computes an outcome. -/
def ofExcept {α : Type} : Except Error α → Demand
  | .ok _ => .names []
  | .error _ => .failure

/-- The symbols that are asked for before the first failure. -/
def granted : List Demand → List Symbol
  | [] => []
  | .failure :: _ => []
  | .names symbols :: rest => symbols ++ granted rest

theorem granted_append_of_mem {ps : List Demand} (h : .failure ∈ ps) (qs : List Demand) :
    granted (ps ++ qs) = granted ps := by
  induction ps with
  | nil => cases h
  | cons p ps ih =>
    cases p with
    | failure => rfl
    | names symbols =>
      rw [List.cons_append, granted, granted, ih (by simpa using h)]

theorem granted_append_of_not_mem {ps : List Demand} (h : .failure ∉ ps) (qs : List Demand) :
    granted (ps ++ qs) = granted ps ++ granted qs := by
  induction ps with
  | nil => rfl
  | cons p ps ih =>
    cases p with
    | failure => exact absurd List.mem_cons_self h
    | names symbols =>
      rw [List.cons_append, granted, granted, ih (by simpa using h), List.append_assoc]

end Demand

namespace Edit

variable {α β : Type} {ps qs : List Demand}

/-- An edit does nothing but make demands in order, up to the first that fails. -/
structure Demands (ps : List Demand) (e : Edit α) : Prop where
  silent : ∀ d, (e d).2.silent = (d.requestAll (Demand.granted ps)).silent
  fails : ∀ d, (∃ cause, (e d).1 = .error cause) ↔ .failure ∈ ps

namespace Demands

theorem pure (a : α) : Demands [] (Pure.pure a : Edit α) :=
  ⟨fun _ => rfl, fun _ => by simp [pure_apply]⟩

theorem fail (cause : Error) : Demands [.failure] (Edit.fail cause : Edit α) :=
  ⟨fun _ => rfl, fun _ => by simp [Edit.fail]⟩

theorem ofExcept (o : Except Error α) : Demands [.ofExcept o] (Edit.ofExcept o) := by
  cases o with
  | ok a => exact ⟨fun _ => rfl, fun _ => by simp [Edit.ofExcept, Demand.ofExcept]⟩
  | error cause => exact fail cause

theorem view (f : Draft → α) : Demands [] (Edit.view f) :=
  ⟨fun _ => rfl, fun _ => by simp [Edit.view]⟩

theorem tell (n : Notice) : Demands [] (Edit.tell n) :=
  ⟨fun _ => rfl, fun _ => by simp [Edit.tell, change_apply]⟩

theorem request (s : Symbol) : Demands [.names [s]] (Edit.request s) :=
  ⟨fun _ => rfl, fun _ => by simp [request_apply]⟩

theorem bind {e : Edit α} {f : α → Edit β} (he : e.Demands ps) (hf : ∀ a, (f a).Demands qs) :
    (e >>= f).Demands (ps ++ qs) := by
  constructor
  case silent =>
    intro d
    have hsilent := he.silent d
    have hfails := he.fails d
    rcases hrun : e d with ⟨cause | a, c⟩ <;> rw [hrun] at hsilent hfails
    · have hmem : .failure ∈ ps := hfails.mp ⟨cause, rfl⟩
      rw [bind_of_error hrun, Demand.granted_append_of_mem hmem]
      exact hsilent
    · have hmem : .failure ∉ ps := fun h => nomatch hfails.mpr h
      rw [bind_of_ok hrun, Demand.granted_append_of_not_mem hmem, Draft.requestAll_append,
        (hf a).silent c]
      exact Draft.silent_requestAll_congr hsilent _
  case fails =>
    intro d
    have hfails := he.fails d
    rw [List.mem_append]
    rcases hrun : e d with ⟨cause | a, c⟩ <;> rw [hrun] at hfails
    · rw [bind_of_error hrun, ← hfails]
      simp
    · rw [bind_of_ok hrun, (hf a).fails c, ← hfails]
      simp

/-- A result that is made of the result of an edit. -/
theorem map {e : Edit α} (he : e.Demands ps) (f : α → β) :
    (e >>= fun a => Pure.pure (f a)).Demands ps := by
  have h := he.bind fun a => pure (f a)
  rwa [List.append_nil] at h

end Demands

end Edit

end SchemaScript
