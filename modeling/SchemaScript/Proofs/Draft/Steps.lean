import SchemaScript.Draft.Step
import SchemaScript.Proofs.FieldInfo.Names

/-!
# Drafts that steps lead to

Every step changes a draft in the known ways only, whether it succeeds or fails.

`Edit.Leads` says of an edit that whatever it leaves is a draft that the one before can become.  All
ways of putting edits together keep this, so it holds of each step (`Step.edit_leads`) and of steps
in a row, each with a writer of its own (`Step.leads_afterAll`).
-/

namespace SchemaScript

theorem Draft.leads_spell (pieces : List Draft.Piece) (d : Draft) : d.Leads (d.spell pieces).2 :=
  (grows_spell pieces d).leads

theorem Draft.leads_write (pieces : List Draft.Piece) (d : Draft) : d.Leads (d.write pieces).2 := by
  have hspell := leads_spell pieces d
  unfold write
  rcases hrun : d.spell pieces with ⟨_ | line, c⟩ <;> rw [hrun] at hspell
  · exact hspell
  · exact hspell.line _

namespace Edit

variable {α β : Type}

/-- Every draft that an edit leaves is one that the draft before can become. -/
def Leads (e : Edit α) : Prop :=
  ∀ d : Draft, d.Leads (e d).2

namespace Leads

theorem still {e : Edit α} (h : ∀ d, (e d).2 = d) : e.Leads :=
  fun d => (h d).symm ▸ .refl

theorem pure (a : α) : (Pure.pure a : Edit α).Leads :=
  still fun _ => rfl

theorem fail (cause : Error) : (Edit.fail cause : Edit α).Leads :=
  still fun _ => rfl

theorem ofExcept (outcome : Except Error α) : (Edit.ofExcept outcome).Leads :=
  still fun _ => rfl

theorem view (f : Draft → α) : (Edit.view f).Leads :=
  still fun _ => rfl

theorem request (s : Symbol) : (Edit.request s).Leads :=
  fun _ => .request .refl s

theorem reserve (name : String) : (Edit.reserve name).Leads :=
  fun _ => .reserve .refl name

theorem write (pieces : List Draft.Piece) : (Edit.write pieces).Leads :=
  Draft.leads_write pieces

theorem markImports : Edit.markImports.Leads :=
  fun _ => .mark .refl

theorem setLevel (level : Int) : (Edit.setLevel level).Leads := by
  intro d
  unfold Edit.setLevel
  split
  · exact .refl
  · exact .level .refl _

theorem bind {e : Edit α} {f : α → Edit β} (he : e.Leads) (hf : ∀ a, (f a).Leads) :
    (e >>= f).Leads := by
  intro d
  have hfirst := he d
  rcases hrun : e d with ⟨cause | a, c⟩ <;> rw [hrun] at hfirst
  · rw [bind_of_error hrun]
    exact hfirst
  · rw [bind_of_ok hrun]
    exact hfirst.trans (hf a c)

theorem indented {e : Edit α} (he : e.Leads) (width : Int) : (Edit.indented width e).Leads := by
  intro d
  by_cases hlevel : (d.level : Int) + width < 0
  · rw [indented_of_neg hlevel]
    exact .refl
  · rw [indented_of_nonneg hlevel]
    exact ((Draft.Leads.refl.level _).trans (he _)).level _

/-- The draft after a success. -/
theorem of_ok {e : Edit α} (h : e.Leads) {d d' : Draft} {a : α} (hrun : e d = (.ok a, d')) :
    d.Leads d' := by
  have hd := h d
  rwa [hrun] at hd

/-- An edit that asks for symbols changes nothing else. -/
theorem of_asks {names : α → List String} {e : Edit α}
    (h : ∀ d, Asks (fun _ => True) names e d) : e.Leads :=
  fun d => (h d).grows.leads

end Leads

end Edit

namespace FieldInfo.Writer

open Edit (Asks Leads)

variable (w : Writer)

theorem allows_all (k : FieldKind) : w.Allows (fun _ => True) k :=
  ⟨fun _ => trivial, fun _ _ _ _ => trivial⟩

theorem properties_leads (i : FieldInfo) : (w.properties i).Leads :=
  .of_asks fun d => minimizedProperties_asks (w.allows_all _) d

theorem literals_asks (is : List FieldInfo) (d : Draft) :
    Asks (fun _ => True) (fun _ => []) (w.literals is) d := by
  have hcollect : Asks (fun _ => True) _ (Edit.collect w.literal is) d :=
    .collect (fun i _ => literal_asks (w.allows_all i.kind)) d
  exact hcollect.bind fun _ _ _ _ => .pure nofun

theorem literals_leads (is : List FieldInfo) : (w.literals is).Leads :=
  .of_asks fun d => w.literals_asks is d

theorem constant_leads (family : Family) (value : Value) : (w.constant family value).Leads :=
  .of_asks fun _ => constant_asks trivial value

theorem whenSome_leads (key : String) (family : Family) (value : Option Value) :
    (whenSome key (w.constant family) value).Leads :=
  .of_asks fun _ => whenSome_asks (fun v => constant_asks trivial v) value

theorem kindProperties_leads (referrer : String) (k : FieldKind) :
    (w.kindProperties referrer k).Leads :=
  .of_asks fun d => kindProperties_asks (w.allows_all k) referrer d

theorem mapValue_leads (k : FieldKind) (referrer : String) : (w.mapValue k referrer).Leads := by
  unfold mapValue
  split
  · exact .fail _
  · exact (w.kindProperties_leads referrer k).bind fun _ => .pure _

theorem reference_leads (typeName referrer : String) : (w.reference typeName referrer).Leads :=
  .of_asks fun _ => reference_asks (fun _ _ => trivial) referrer

end FieldInfo.Writer

namespace Step

open Edit (Leads)

variable (w : FieldInfo.Writer)

theorem simpleEdit_leads (s : Step) : (s.simpleEdit w).Leads := by
  cases s with
  | refuse cause => exact .fail cause
  | write pieces => exact (Leads.write pieces).bind fun _ => .pure _
  | reserve name => exact (Leads.reserve name).bind fun _ => .pure _
  | request symbol => exact (Leads.request symbol).bind fun _ => .pure _
  | markImports => exact Leads.markImports.bind fun _ => .pure _
  | content => exact (Leads.view Draft.content).bind fun _ => .pure _
  | setLevel level => exact (Leads.setLevel level).bind fun _ => .pure _
  | indented width steps => exact .pure _
  | literal info =>
    exact (w.properties_leads info).bind fun _ => (Leads.ofExcept _).bind fun _ => .pure _
  | literals infos indent =>
    exact (w.literals_leads infos).bind fun _ => (Leads.ofExcept _).bind fun _ => .pure _
  | writeLiterals before infos after =>
    exact (w.literals_leads infos).bind fun _ => (Leads.write _).bind fun _ => .pure _
  | constant family value => exact (w.constant_leads family value).bind fun _ => .pure _
  | mapValue kind referrer => exact (w.mapValue_leads kind referrer).bind fun _ => .pure _
  | reference typeName referrer =>
    exact (w.reference_leads typeName referrer).bind fun _ => .pure _

mutual

/-- Whatever a step leaves is a draft that the one before can become. -/
theorem edit_leads : ∀ s : Step, (s.edit w).Leads
  | .indented width steps => by
    have hsteps : (editAll w steps >>= fun results => pure (StepResult.list results)).Leads :=
      (editAll_leads steps).bind fun _ => .pure _
    exact hsteps.indented width
  | .refuse _ | .write _ | .reserve _ | .request _ | .markImports | .content | .setLevel _
  | .literal _ | .literals _ _ | .writeLiterals _ _ _ | .constant _ _ | .mapValue _ _
  | .reference _ _ => simpleEdit_leads w _

theorem editAll_leads : ∀ steps : List Step, (editAll w steps).Leads
  | [] => .pure _
  | step :: rest => by
    rw [editAll]
    exact (edit_leads step).bind fun _ => (editAll_leads rest).bind fun _ => .pure _

end

/-- The draft after steps, each with a writer of its own.  A step that fails is passed over. -/
def afterAll (steps : List (FieldInfo.Writer × Step)) (d : Draft) : Draft :=
  steps.foldl (fun d s => (s.2.edit s.1 d).2) d

theorem leads_afterAll (steps : List (FieldInfo.Writer × Step)) (d : Draft) :
    d.Leads (afterAll steps d) := by
  induction steps generalizing d with
  | nil => exact .refl
  | cons s rest ih => exact (edit_leads s.1 s.2 d).trans (ih _)

end Step

end SchemaScript
