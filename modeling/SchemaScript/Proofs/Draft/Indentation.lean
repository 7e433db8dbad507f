import SchemaScript.Proofs.Draft.Steps
import SchemaScript.Proofs.Text.Lines

/-!
# Indentation

The indentation of a draft while steps are made on it.

`Step.levelAfter` tells the indentation after a step from the step and the indentation before it,
without running anything and with integers for indentations.  Only a step that sets the indentation
changes it, and not if it asks for a negative one.  `Step.Reached` says which steps of a program are
reached, at which draft, and at which indentation by that account: the outer steps one after the
other, and the steps of an indented row up to the first one that fails.

The draft is always at the indentation of the account, which is therefore never negative
(`Step.Reached.level_eq`).  An indented row puts the indentation back whatever is done in it, so no
induction over the steps inside is needed for that (`Edit.KeepsLevel.indented`).  It is needed for
the steps that follow each other, outside of a row (`Step.runAll_level`) and within one
(`Step.editAll_level`).

A step that writes a line adds it at the indentation that it is reached at (`Step.Prints`), and each
line of it that is not empty is moved by as many blanks (`Text.MovedBy`).
-/

namespace SchemaScript

/-! ## Edits and the indentation -/

namespace Edit

variable {α β : Type}

/-- Whatever an edit leaves has the indentation of the draft before. -/
def KeepsLevel (e : Edit α) : Prop :=
  ∀ d : Draft, (e d).2.level = d.level

namespace KeepsLevel

theorem still {e : Edit α} (h : ∀ d, (e d).2 = d) : e.KeepsLevel :=
  fun d => by rw [h]

theorem pure (a : α) : (Pure.pure a : Edit α).KeepsLevel :=
  still fun _ => rfl

theorem ofExcept (outcome : Except Error α) : (Edit.ofExcept outcome).KeepsLevel :=
  still fun _ => rfl

theorem of_asks {names : α → List String} {e : Edit α}
    (h : ∀ d, Asks (fun _ => True) names e d) : e.KeepsLevel :=
  fun d => (h d).grows.level

theorem write (pieces : List Draft.Piece) : (Edit.write pieces).KeepsLevel := by
  intro d
  have hgrows := Draft.grows_spell pieces d
  unfold Edit.write
  rcases h : d.spell pieces with ⟨cause | text, c⟩ <;> rw [h] at hgrows
  · rw [Draft.write_of_error h, hgrows.level]
  · rw [Draft.write_of_ok h, hgrows.level]

theorem bind {e : Edit α} {f : α → Edit β} (he : e.KeepsLevel) (hf : ∀ a, (f a).KeepsLevel) :
    (e >>= f).KeepsLevel := by
  intro d
  have hfirst := he d
  rcases hrun : e d with ⟨cause | a, c⟩ <;> rw [hrun] at hfirst
  · rw [bind_of_error hrun]
    exact hfirst
  · rw [bind_of_ok hrun, hf a c]
    exact hfirst

/-- The indentation is put back whatever is done inside, and it is left as it is where the move is
refused. -/
theorem indented (width : Int) (e : Edit α) : (Edit.indented width e).KeepsLevel := by
  intro d
  by_cases hlevel : (d.level : Int) + width < 0
  · rw [indented_of_neg hlevel]
  · rw [indented_of_nonneg hlevel]

end KeepsLevel
end Edit

namespace FieldInfo.Writer

open Edit (KeepsLevel)

variable (w : Writer)

theorem mapValue_keepsLevel (k : FieldKind) (referrer : String) :
    (w.mapValue k referrer).KeepsLevel := by
  unfold mapValue
  split
  · exact .still fun _ => rfl
  · have hproperties : (w.kindProperties referrer k).KeepsLevel :=
      .of_asks fun d => kindProperties_asks (w.allows_all k) referrer d
    exact hproperties.bind fun _ => .pure _

end FieldInfo.Writer

namespace Step

open Edit (KeepsLevel)

/-! ## Steps and the indentation -/

/-- The indentation after a step.  A negative one is never set, and an indented row puts it back. -/
def levelAfter (level : Int) : Step → Int
  | .setLevel l => if 0 ≤ l then l else level
  | _ => level

variable (w : FieldInfo.Writer)

theorem simpleEdit_level (s : Step) (d : Draft) :
    ((s.simpleEdit w d).2.level : Int) = levelAfter d.level s := by
  have hkept {e : Edit StepResult} (h : e.KeepsLevel) : ((e d).2.level : Int) = d.level :=
    congrArg Nat.cast (h d)
  cases s with
  | setLevel l =>
    by_cases hl : l < 0
    · have hlevel : levelAfter d.level (.setLevel l) = d.level := if_neg (Int.not_le.mpr hl)
      rw [simpleEdit, Edit.bind_of_error (Edit.setLevel_of_neg hl d), hlevel]
    · have hlevel : levelAfter d.level (.setLevel l) = l := if_pos (Int.not_lt.mp hl)
      rw [simpleEdit, Edit.bind_of_ok (Edit.setLevel_of_nonneg hl d), hlevel]
      exact Int.toNat_of_nonneg (Int.not_lt.mp hl)
  | refuse cause => exact hkept (.still fun _ => rfl)
  | write pieces => exact hkept ((KeepsLevel.write pieces).bind fun _ => .pure _)
  | reserve name => exact rfl
  | request symbol =>
    exact hkept ((KeepsLevel.of_asks fun _ => .request trivial).bind fun _ => .pure _)
  | markImports => exact rfl
  | content => exact rfl
  | indented width steps => exact rfl
  | literal info =>
    have h : (w.properties info).KeepsLevel :=
      .of_asks fun d => FieldInfo.Writer.minimizedProperties_asks (w.allows_all _) d
    exact hkept (h.bind fun _ => (KeepsLevel.ofExcept _).bind fun _ => .pure _)
  | literals infos indent =>
    exact hkept ((KeepsLevel.of_asks (w.literals_asks infos)).bind fun _ =>
      (KeepsLevel.ofExcept _).bind fun _ => .pure _)
  | writeLiterals before infos after =>
    have hwrite (e : Expr) := KeepsLevel.write (before ++ [.expr e] ++ after)
    exact hkept ((KeepsLevel.of_asks (w.literals_asks infos)).bind fun e =>
      (hwrite e).bind fun _ => .pure _)
  | constant family value =>
    have h : (w.constant family value).KeepsLevel :=
      .of_asks fun _ => FieldInfo.Writer.constant_asks trivial value
    exact hkept (h.bind fun _ => .pure _)
  | mapValue kind referrer =>
    exact hkept ((w.mapValue_keepsLevel kind referrer).bind fun _ => .pure _)
  | reference typeName referrer =>
    have h : (w.reference typeName referrer).KeepsLevel :=
      .of_asks fun _ => FieldInfo.Writer.reference_asks (fun _ _ => trivial) referrer
    exact hkept (h.bind fun _ => .pure _)

theorem edit_level (s : Step) (d : Draft) :
    ((s.edit w d).2.level : Int) = levelAfter d.level s := by
  cases s with
  | indented width steps =>
    rw [edit]
    exact congrArg Nat.cast (KeepsLevel.indented width _ d)
  | _ => exact simpleEdit_level w _ d

/-- Steps that all succeed leave the indentation that they set one after the other. -/
theorem editAll_level {steps : List Step} {d d' : Draft} {results : List StepResult}
    (h : editAll w steps d = (.ok results, d')) :
    (d'.level : Int) = steps.foldl levelAfter d.level := by
  induction steps generalizing d results with
  | nil =>
    obtain ⟨-, rfl⟩ := Edit.pure_eq_ok_iff.mp h
    rfl
  | cons s rest ih =>
    obtain ⟨result, c, hs, hmore⟩ := Edit.bind_eq_ok_iff.mp h
    obtain ⟨more, c', hrest, hend⟩ := Edit.bind_eq_ok_iff.mp hmore
    obtain ⟨-, rfl⟩ := Edit.pure_eq_ok_iff.mp hend
    have hlevel := edit_level w s d
    rw [hs] at hlevel
    rw [ih hrest, hlevel, List.foldl_cons]

theorem runAll_level (steps : List Step) (d : Draft) :
    ((runAll w steps d).2.level : Int) = steps.foldl levelAfter d.level := by
  induction steps generalizing d with
  | nil => rfl
  | cons s rest ih =>
    have hrest := ih (s.edit w d).2
    rw [edit_level] at hrest
    exact hrest

/-- A row whose move is not refused ends like the steps in it.  It leaves what they leave, but for
the indentation. -/
theorem edit_indented {width : Int} {steps : List Step} {d after : Draft}
    {outcome : Except Error (List StepResult)} (hwidth : 0 ≤ (d.level : Int) + width)
    (h : editAll w steps { d with level := ((d.level : Int) + width).toNat } = (outcome, after)) :
    (Step.indented width steps).edit w d =
      (outcome.map .list, { after with level := d.level }) := by
  have hinside : (editAll w steps >>= fun results => pure (StepResult.list results))
      { d with level := ((d.level : Int) + width).toNat } = (outcome.map .list, after) := by
    cases outcome with
    | error cause => exact Edit.bind_of_error h _
    | ok results => exact Edit.bind_of_ok h _
  have hrow := Edit.indented_of_nonneg (e := editAll w steps >>= fun results =>
    pure (StepResult.list results)) (Int.not_lt.mpr hwidth)
  rw [hinside] at hrow
  exact hrow

/-! ## Steps that are reached -/

/-- A step of a program is reached at a draft, and at an indentation by the account of the steps
before it.

Outer steps are made whatever became of the ones before.  A step in an indented row is reached if
all before it succeed, and its draft is what a view in its place shows. -/
inductive Reached (program : List Step) (start : Draft) : Int → Step → Draft → Prop where
  | outer (before after : List Step) {s : Step} (h : program = before ++ s :: after) :
    Reached program start (before.foldl levelAfter start.level) s (runAll w before start).2
  | inner {level width : Int} (before after : List Step) {s : Step} {d c left : Draft}
    (h : Reached program start level (.indented width (before ++ s :: after)) d)
    (hview : Edit.indented width (editAll w before >>= fun _ => Edit.view id) d = (.ok c, left)) :
    Reached program start (before.foldl levelAfter (level + width)) s c

variable {w} {program : List Step} {start d c : Draft} {level : Int} {s : Step}

/-- A draft is at the indentation of the account. -/
theorem Reached.level_eq (h : Reached w program start level s d) : (d.level : Int) = level := by
  induction h with
  | outer before _ _ => exact runAll_level w before start
  | inner _ _ _ hview ih =>
    obtain ⟨inside, c', hinside, hrun⟩ := Edit.exists_of_indented_ok hview
    obtain ⟨results, c, hbefore, hc⟩ := Edit.bind_eq_ok_iff.mp hrun
    obtain rfl : c = _ := Except.ok.inj (congrArg Prod.fst hc)
    rw [editAll_level w hbefore, ← ih, ← hinside]

/-! ## Lines that steps write -/

/-- A step writes a line of pieces, which are spelled at a draft. -/
inductive Prints (w : FieldInfo.Writer) : Step → Draft → List Draft.Piece → Draft → Prop where
  | write (pieces : List Draft.Piece) (d : Draft) : Prints w (.write pieces) d pieces d
  | writeLiterals {before after : List Draft.Piece} {infos : List FieldInfo} {d c : Draft}
    {e : Expr} (h : w.literals infos d = (.ok e, c)) :
    Prints w (.writeLiterals before infos after) d (before ++ [.expr e] ++ after) c

variable {pieces : List Draft.Piece}

/-- The step leaves the lines that the line is added to, and they are those that it came upon. -/
theorem Prints.lines_eq (h : Prints w s d pieces c) :
    (s.edit w d).2.lines = (c.write pieces).2.lines ∧ c.lines = d.lines ∧ c.level = d.level := by
  have hwrite (c : Draft) (pieces : List Draft.Piece) :
      ((Edit.write pieces >>= fun _ => pure StepResult.nothing) c).2 = (c.write pieces).2 := by
    rcases hrun : c.write pieces with ⟨cause | ⟨⟩, e⟩
    · rw [Edit.bind_of_error hrun]
    · rw [Edit.bind_of_ok hrun]
      rfl
  cases h with
  | write pieces d => exact ⟨congrArg Draft.lines (hwrite d pieces), rfl, rfl⟩
  | @writeLiterals before after infos d c e h =>
    obtain ⟨hgrows, -⟩ := (w.literals_asks infos d).of_ok h
    have hrun := Edit.bind_of_ok h fun e => Edit.write (before ++ [.expr e] ++ after) >>= fun _ =>
      pure StepResult.nothing
    have hstep : (Step.writeLiterals before infos after).edit w d =
      (Edit.write (before ++ [.expr e] ++ after) >>= fun _ => pure StepResult.nothing) c := hrun
    refine ⟨?_, by rw [hgrows.lines, List.append_nil], hgrows.level⟩
    rw [hstep, hwrite]

/-- A line with a text is added at the indentation that the step is reached at. -/
theorem Prints.of_ok (h : Prints w s d pieces c) {text : String} {e : Draft}
    (htext : c.spell pieces = (.ok text, e)) :
    ∃ entry, (s.edit w d).2.lines = d.lines ++ [entry] ∧ Text.MovedBy d.level text entry := by
  obtain ⟨hstep, hlines, hlevel⟩ := h.lines_eq
  refine ⟨Text.indent d.level text, ?_, Text.movedBy_indent _ _⟩
  rw [hstep, Draft.write_of_ok htext, hlines, hlevel]

/-- A line without a text is not added. -/
theorem Prints.of_error (h : Prints w s d pieces c) {cause : Error} {e : Draft}
    (htext : c.spell pieces = (.error cause, e)) : (s.edit w d).2.lines = d.lines := by
  obtain ⟨hstep, hlines, -⟩ := h.lines_eq
  have hgrows := Draft.grows_spell pieces c
  rw [htext] at hgrows
  rw [hstep, Draft.write_of_error htext, hgrows.lines, hlines, List.append_nil]

/-! ## Programs -/

/-- Indentation is bracketed in every program.

Wherever a step is reached, the draft is at the indentation of the account, and so is the draft that
the step leaves.  Neither is negative.  An indented row leaves the indentation as it was, whatever
becomes of it.  It does nothing if the move is refused, and ends like the steps in it otherwise.  A
line that is written is moved by the indentation that its step is reached at. -/
theorem indentation_bracketed (w : FieldInfo.Writer) (program : List Step) (start : Draft) :
    (0 ≤ program.foldl levelAfter start.level ∧
      ((runAll w program start).2.level : Int) = program.foldl levelAfter start.level) ∧
    ∀ level s d, Reached w program start level s d →
      (0 ≤ level ∧ (d.level : Int) = level) ∧
      (0 ≤ levelAfter level s ∧ ((s.edit w d).2.level : Int) = levelAfter level s) ∧
      (∀ width steps, s = .indented width steps →
        (s.edit w d).2.level = d.level ∧
          (level + width < 0 → s.edit w d = (.error .negativeIndent, d)) ∧
          ∀ outcome after, 0 ≤ level + width →
            editAll w steps { d with level := (level + width).toNat } = (outcome, after) →
              s.edit w d = (outcome.map .list, { after with level := d.level })) ∧
      ∀ pieces c, Prints w s d pieces c →
        (∀ text e, c.spell pieces = (.ok text, e) → ∃ entry,
          (s.edit w d).2.lines = d.lines ++ [entry] ∧ Text.MovedBy d.level text entry) ∧
        ∀ cause e, c.spell pieces = (.error cause, e) → (s.edit w d).2.lines = d.lines := by
  have hend := runAll_level w program start
  refine ⟨⟨hend ▸ Int.natCast_nonneg _, hend⟩, fun level s d h => ?_⟩
  have hlevel := h.level_eq
  have hafter := edit_level w s d
  rw [hlevel] at hafter
  refine ⟨⟨hlevel ▸ Int.natCast_nonneg _, hlevel⟩, ⟨hafter ▸ Int.natCast_nonneg _, hafter⟩, ?_,
    fun pieces c hprints => ⟨fun _ _ => hprints.of_ok, fun _ _ => hprints.of_error⟩⟩
  rintro width steps rfl
  subst hlevel
  refine ⟨?_, fun hneg => ?_, fun _ _ => edit_indented w⟩
  · rw [edit]
    exact KeepsLevel.indented width _ d
  · rw [edit]
    exact Edit.indented_of_neg hneg

/-- Rows inside each other.  The outer one sets the indentation, and the inner one ends in a
failure. -/
def nestedRows : List Step :=
  [.setLevel 2,
    .indented 3 [.write [.text "a"], .setLevel 1,
      .indented 4 [.write [.text "b\n\nc"], .refuse .negativeIndent]],
    .indented (-3) [.write [.text "d"]]]

theorem indentation_bracketed_in_nestedRows : ∃ (w : FieldInfo.Writer) (start d e : Draft),
    (Reached w nestedRows start 5 (.write [.text "b\n\nc"]) d ∧ d.level = 5 ∧
      ∃ entry, ((Step.write [.text "b\n\nc"]).edit w d).2.lines = d.lines ++ [entry] ∧
        Text.MovedBy 5 "b\n\nc" entry) ∧
    Reached w nestedRows start 2 (.indented (-3) [.write [.text "d"]]) e ∧ e.level = 2 ∧
      (Step.indented (-3) [.write [.text "d"]]).edit w e = (.error .negativeIndent, e) := by
  let w : FieldInfo.Writer := ⟨Registry.empty, ⟨"runtime"⟩, false⟩
  let start : Draft := .new "m.ts" ⟨"m"⟩
  have houter : Reached w nestedRows start 2 _ _ := .outer [.setLevel 2] _ rfl
  have hmiddle := houter.inner [.write [.text "a"], .setLevel 1] [] rfl
  have hinner := hmiddle.inner [] [.refuse .negativeIndent] rfl
  have hrefused : Reached w nestedRows start 2 _ _ := .outer (nestedRows.take 2) [] rfl
  obtain ⟨-, hsteps⟩ := indentation_bracketed w nestedRows start
  obtain ⟨⟨-, hlevel⟩, -, -, hprints⟩ := hsteps _ _ _ hinner
  obtain ⟨⟨-, hbefore⟩, -, hrows, -⟩ := hsteps _ _ _ hrefused
  exact ⟨w, start, _, _,
    ⟨hinner, Int.ofNat_inj.mp hlevel, (hprints _ _ (.write _ _)).1 _ _ rfl⟩,
    hrefused, Int.ofNat_inj.mp hbefore, (hrows _ _ rfl).2.1 (by decide)⟩

end Step
end SchemaScript
