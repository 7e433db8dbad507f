import SchemaScript.Draft.Edit
import SchemaScript.Proofs.Draft.Imports

/-!
# Edits in a row

How edits in a row act on a draft.

`Edit.bind_eq_ok_iff` takes two edits in a row apart when both succeed, and `Edit.bind_of_ok` puts
them together.  Each way of building an edit has an equation for what it does to a draft.
-/

namespace SchemaScript.Edit

variable {α β : Type}

/-! ## Edits in a row -/

theorem bind_of_ok {e : Edit α} {d d' : Draft} {a : α} (h : e d = (.ok a, d')) (f : α → Edit β) :
    (e >>= f) d = f a d' := by
  show Edit.bind e f d = f a d'
  simp only [Edit.bind, h]

theorem bind_of_error {e : Edit α} {d d' : Draft} {cause : Error} (h : e d = (.error cause, d'))
    (f : α → Edit β) : (e >>= f) d = (.error cause, d') := by
  show Edit.bind e f d = (.error cause, d')
  simp only [Edit.bind, h]

theorem bind_eq_ok_iff {e : Edit α} {f : α → Edit β} {d d'' : Draft} {b : β} :
    (e >>= f) d = (.ok b, d'') ↔ ∃ a d', e d = (.ok a, d') ∧ f a d' = (.ok b, d'') := by
  rcases h : e d with ⟨_ | a, d'⟩
  · rw [bind_of_error h]
    simp
  · rw [bind_of_ok h]
    simp

theorem exists_of_isOk {e : Edit α} {d : Draft} (h : (e d).1.isOk = true) :
    ∃ a d', e d = (.ok a, d') := by
  rcases hrun : e d with ⟨_ | a, d'⟩
  · rw [hrun] at h
    cases h
  · exact ⟨a, d', rfl⟩

theorem pure_apply (a : α) (d : Draft) : (pure a : Edit α) d = (.ok a, d) := rfl

theorem pure_eq_ok_iff {a b : α} {d d' : Draft} :
    (pure a : Edit α) d = (.ok b, d') ↔ a = b ∧ d = d' := by
  simp [pure_apply]

theorem ofExcept_eq_ok_iff {o : Except Error α} {a : α} {d d' : Draft} :
    ofExcept o d = (.ok a, d') ↔ o = .ok a ∧ d = d' := by
  simp [ofExcept]

theorem not_fail_eq_ok {cause : Error} {a : α} {d d' : Draft} :
    ¬ (fail cause : Edit α) d = (.ok a, d') := by
  simp [fail]

theorem request_apply (s : Symbol) (d : Draft) :
    request s d = (.ok (d.request s).1, (d.request s).2) := rfl

theorem change_apply (f : Draft → Draft) (d : Draft) : change f d = (.ok (), f d) := rfl

theorem indented_of_neg {e : Edit α} {width : Int} {d : Draft} (h : (d.level : Int) + width < 0) :
    indented width e d = (.error .negativeIndent, d) := by
  simp only [indented, if_pos h]

theorem indented_of_nonneg {e : Edit α} {width : Int} {d : Draft}
    (h : ¬ (d.level : Int) + width < 0) :
    indented width e d =
      ((e { d with level := ((d.level : Int) + width).toNat }).1,
        { (e { d with level := ((d.level : Int) + width).toNat }).2 with level := d.level }) := by
  simp only [indented, if_neg h]

theorem setLevel_of_neg {level : Int} (h : level < 0) (d : Draft) :
    setLevel level d = (.error .negativeIndent, d) :=
  if_pos h

theorem setLevel_of_nonneg {level : Int} (h : ¬ level < 0) (d : Draft) :
    setLevel level d = (.ok d.level, { d with level := level.toNat }) :=
  if_neg h

/-- An indented edit that succeeds was made at the indentation that it was moved to. -/
theorem exists_of_indented_ok {e : Edit α} {width : Int} {d left : Draft} {a : α}
    (h : indented width e d = (.ok a, left)) : ∃ (level : ℕ) (c : Draft),
      (level : Int) = d.level + width ∧ e { d with level := level } = (.ok a, c) := by
  by_cases hneg : (d.level : Int) + width < 0
  · rw [indented_of_neg hneg] at h
    cases h
  · rw [indented_of_nonneg hneg] at h
    exact ⟨_, _, Int.toNat_of_nonneg (Int.not_lt.mp hneg), Prod.ext (Prod.mk.inj h).1 rfl⟩

end Edit

/-! ## Lines -/

theorem Draft.write_of_error {d c : Draft} {pieces : List Piece} {cause : Error}
    (h : d.spell pieces = (.error cause, c)) : d.write pieces = (.error cause, c) := by
  rw [write, h]

theorem Draft.write_eq_ok_iff {d d' : Draft} {pieces : List Piece} :
    d.write pieces = (.ok (), d') ↔ ∃ line c, d.spell pieces = (.ok line, c) ∧
      d' = { c with lines := c.lines ++ [Text.indent c.level line] } := by
  unfold write
  rcases h : d.spell pieces with ⟨_ | line, c⟩
  · simp
  · simp [eq_comm]

end SchemaScript
