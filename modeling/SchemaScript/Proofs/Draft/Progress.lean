import SchemaScript.Proofs.Draft.Growth

/-!
# How edits end

An edit ends at every draft, with a result or with an error.  `Edit.Ends P Q` says that each result
it can have satisfies `P` and each error `Q`, whatever the draft.  With a `Q` that nothing satisfies
the edit always succeeds.

Each way of putting edits together has a rule.  Edits in order end well if each of them does, and
then their results satisfy what each promised (`Edit.Ends.each`, `Edit.Ends.collect`).  The first
error is that of one of them.

A line fails only for a piece without a text, which is an expression with a misfit.
-/

namespace SchemaScript

/-! ## Lines -/

/-- Pieces make up a line if no expression among them has a misfit. -/
theorem Draft.exists_spell {pieces : List Piece}
    (h : ∀ e, .expr e ∈ pieces → e.misfit? = none) (d : Draft) :
    ∃ line c, d.spell pieces = (.ok line, c) := by
  induction pieces generalizing d with
  | nil => exact ⟨"", d, rfl⟩
  | cons piece rest ih =>
    have hrest : ∀ d : Draft, ∃ line c, d.spell rest = (.ok line, c) :=
      ih fun e he => h e (List.mem_cons_of_mem _ he)
    cases piece with
    | text s =>
      obtain ⟨line, c, hline⟩ := hrest d
      exact ⟨s ++ line, c, by rw [spell, hline]; rfl⟩
    | symbol s =>
      obtain ⟨line, c, hline⟩ := hrest (d.request s).2
      exact ⟨(d.request s).1 ++ line, c, by rw [spell]; simp only [hline]; rfl⟩
    | expr e =>
      obtain ⟨line, c, hline⟩ := hrest d
      have hwritten : e.written "" = .ok (e.print "") := by
        rw [Expr.written, h e List.mem_cons_self]
      exact ⟨e.print "" ++ line, c, by rw [spell, hwritten]; simp only [hline]; rfl⟩

namespace Edit

variable {α β : Type}

/-- At every draft, an edit ends with a result of one kind or with an error of another. -/
def Ends (P : α → Prop) (Q : Error → Prop) (e : Edit α) : Prop :=
  ∀ d, (∃ a d', e d = (.ok a, d') ∧ P a) ∨ ∃ cause d', e d = (.error cause, d') ∧ Q cause

namespace Ends

variable {P P' : α → Prop} {R : β → Prop} {Q Q' : Error → Prop}

theorem imp {e : Edit α} (h : e.Ends P Q) (hP : ∀ a, P a → P' a)
    (hQ : ∀ cause, Q cause → Q' cause) : e.Ends P' Q' := by
  intro d
  rcases h d with ⟨a, d', he, ha⟩ | ⟨cause, d', he, hcause⟩
  · exact .inl ⟨a, d', he, hP a ha⟩
  · exact .inr ⟨cause, d', he, hQ cause hcause⟩

theorem pure {a : α} (h : P a) : Ends P Q (Pure.pure a : Edit α) :=
  fun d => .inl ⟨a, d, rfl, h⟩

theorem fail {cause : Error} (h : Q cause) : Ends P Q (Edit.fail cause : Edit α) :=
  fun d => .inr ⟨cause, d, rfl, h⟩

theorem ofExcept {o : Except Error α} (hok : ∀ a, o = .ok a → P a)
    (herror : ∀ cause, o = .error cause → Q cause) : Ends P Q (Edit.ofExcept o) := by
  intro d
  cases h : o with
  | ok a => exact .inl ⟨a, d, rfl, hok a h⟩
  | error cause => exact .inr ⟨cause, d, rfl, herror cause h⟩

theorem view (f : Draft → α) : Ends (fun _ => True) Q (Edit.view f) :=
  fun d => .inl ⟨f d, d, rfl, trivial⟩

theorem tell (n : Notice) : Ends (fun _ => True) Q (Edit.tell n) :=
  fun _ => .inl ⟨(), _, rfl, trivial⟩

theorem request (s : Symbol) : Ends (fun _ => True) Q (Edit.request s) :=
  fun d => .inl ⟨_, _, request_apply s d, trivial⟩

theorem write {pieces : List Draft.Piece} (h : ∀ e, .expr e ∈ pieces → e.misfit? = none) :
    Ends (fun _ => True) Q (Edit.write pieces) := by
  intro d
  obtain ⟨line, c, hline⟩ := Draft.exists_spell h d
  exact .inl ⟨(), _, Draft.write_eq_ok_iff.mpr ⟨line, c, hline, rfl⟩, trivial⟩

theorem bind {e : Edit α} {f : α → Edit β} (he : e.Ends P Q) (hf : ∀ a, P a → (f a).Ends R Q) :
    (e >>= f).Ends R Q := by
  intro d
  rcases he d with ⟨a, d', ha, hP⟩ | ⟨cause, d', hcause, hQ⟩
  · rw [bind_of_ok ha]
    exact hf a hP d'
  · exact .inr ⟨cause, d', bind_of_error hcause f, hQ⟩

theorem each {f : α → Edit Unit} {items : List α}
    (hf : ∀ a ∈ items, (f a).Ends (fun _ => P a) Q) :
    (Edit.each f items).Ends (fun _ => ∀ a ∈ items, P a) Q := by
  induction items with
  | nil => exact pure nofun
  | cons a rest ih =>
    refine (hf a List.mem_cons_self).bind fun _ ha => ?_
    exact (ih fun b hb => hf b (List.mem_cons_of_mem _ hb)).imp
      (fun _ hrest => List.forall_mem_cons.mpr ⟨ha, hrest⟩) fun _ h => h

theorem collect {S : α → β → Prop} {f : α → Edit β} {items : List α}
    (hf : ∀ a ∈ items, (f a).Ends (S a) Q) :
    (Edit.collect f items).Ends (List.Forall₂ S items) Q := by
  induction items with
  | nil => exact pure .nil
  | cons a rest ih =>
    refine (hf a List.mem_cons_self).bind fun b hb => ?_
    refine (ih fun a' ha' => hf a' (List.mem_cons_of_mem _ ha')).bind fun bs hbs => ?_
    exact pure (.cons hb hbs)

end Ends

end Edit

end SchemaScript
