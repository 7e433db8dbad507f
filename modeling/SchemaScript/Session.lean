import SchemaScript.Draft.Step
import SchemaScript.Response

/-!
# Sessions

A session collects what a request is answered with: an error or drafts.  The first error counts, and
with an error no draft is in the answer.
-/

namespace SchemaScript

/-- What a request is answered with. -/
structure Session where
  /-- The first error. -/
  error : Option String
  /-- The drafts, the oldest first. -/
  drafts : List Draft

namespace Session

/-- The session at its start. -/
def start : Session :=
  ⟨none, []⟩

/-- The session with an error recorded, unless there is one. -/
def fail (s : Session) (message : String) : Session :=
  { s with error := some (s.error.getD message) }

/-- The session with one more draft. -/
def add (s : Session) (d : Draft) : Session :=
  { s with drafts := s.drafts ++ [d] }

/-- The answer of a session. -/
def response (s : Session) : Response :=
  match s.error with
  | some message => .failed message
  | none => .written (s.drafts.map fun d => ⟨d.name, d.content⟩)

end Session

/-- A step that answers a request. -/
inductive AnswerStep where
  | fail (message : String)
  | file (name : String) (path : ImportPath) (steps : List Step)

/-- The session after steps in order.  A step on a draft that fails ends it. -/
def AnswerStep.runAll (w : FieldInfo.Writer) : List AnswerStep → Session → Except Error Session
  | [], s => .ok s
  | .fail message :: rest, s => runAll w rest (s.fail message)
  | .file name path steps :: rest, s =>
    match Step.editAll w steps (Draft.new name path) with
    | (.ok _, d) => runAll w rest (s.add d)
    | (.error cause, _) => .error cause

end SchemaScript
