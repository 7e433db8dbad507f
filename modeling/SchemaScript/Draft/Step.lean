import SchemaScript.FieldInfo.Literal

/-!
# Steps on a draft

Programs of edits on one draft, as data.

A step does one edit and has a result of its own.  A step that fails leaves the draft as the edit
left it, and the next step goes on from there.  Steps that are indented together are different: the
first of them that fails ends them, and its cause is the cause of all.  The indentation is put back
then as well.
-/

namespace SchemaScript

/-- A step on a draft. -/
inductive Step where
  /-- Fails with a cause. -/
  | refuse (cause : Error)
  /-- Writes a line. -/
  | write (pieces : List Draft.Piece)
  /-- Takes a name for a declaration. -/
  | reserve (name : String)
  /-- Asks for the name of a symbol in the module. -/
  | request (symbol : Symbol)
  /-- Places the import statements. -/
  | markImports
  /-- Shows the text of the module. -/
  | content
  /-- Sets the indentation. -/
  | setLevel (level : Int)
  /-- Makes steps with the indentation moved. -/
  | indented (width : Int) (steps : List Step)
  /-- Shows the literal for a field. -/
  | literal (info : FieldInfo)
  /-- Shows the literals for fields at an indentation. -/
  | literals (infos : List FieldInfo) (indent : String)
  /-- Writes a line with the literals for fields in it. -/
  | writeLiterals (before : List Draft.Piece) (infos : List FieldInfo) (after : List Draft.Piece)
  /-- Shows a runtime constant. -/
  | constant (family : Family) (value : Value)
  /-- Shows the literal for the values of a map. -/
  | mapValue (kind : FieldKind) (referrer : String)
  /-- Asks for the name of a declaration in the module. -/
  | reference (typeName referrer : String)

/-- What a step results in. -/
inductive StepResult where
  | nothing
  | text (s : String)
  /-- The indentation before the step. -/
  | level (n : Nat)
  /-- The keys and the text of an object literal. -/
  | literal (keys : List String) (text : String)
  /-- A local name, and the module that exports what it names. -/
  | reference (name : String) (path : ImportPath)
  /-- The results of the steps inside. -/
  | list (results : List StepResult)
  | failed (cause : Error)

namespace Step

/-- The edit of a step that holds no steps. -/
def simpleEdit (w : FieldInfo.Writer) : Step → Edit StepResult
  | .refuse cause => Edit.fail cause
  | .write pieces => do
    Edit.write pieces
    return .nothing
  | .reserve name => do
    Edit.reserve name
    return .nothing
  | .request symbol => do
    let localName ← Edit.request symbol
    return .text localName
  | .markImports => do
    Edit.markImports
    return .nothing
  | .content => do
    let text ← Edit.view Draft.content
    return .text text
  | .setLevel level => do
    let old ← Edit.setLevel level
    return .level old
  | .indented _ _ => return .nothing
  | .literal info => do
    let ps ← w.properties info
    let text ← Edit.ofExcept ((Expr.object ps false).written "")
    return .literal (ps.map Prod.fst) text
  | .literals infos indent => do
    let e ← w.literals infos
    let text ← Edit.ofExcept (e.written indent)
    return .text text
  | .writeLiterals before infos after => do
    let e ← w.literals infos
    Edit.write (before ++ [.expr e] ++ after)
    return .nothing
  | .constant family value => do
    let e ← w.constant family value
    return .text (e.print "")
  | .mapValue kind referrer => do
    let e ← w.mapValue kind referrer
    return .text (e.print "")
  | .reference typeName referrer => do
    let (localName, path) ← w.reference typeName referrer
    return .reference localName path

mutual

/-- The edit of a step. -/
def edit (w : FieldInfo.Writer) : Step → Edit StepResult
  | .indented width steps => Edit.indented width (Edit.bind (editAll w steps) fun results =>
      Edit.pure (.list results))
  | step => simpleEdit w step

/-- The edits of steps in order, up to the first that fails. -/
def editAll (w : FieldInfo.Writer) : List Step → Edit (List StepResult)
  | [] => Edit.pure []
  | step :: rest =>
    Edit.bind (edit w step) fun result =>
      Edit.bind (editAll w rest) fun results => Edit.pure (result :: results)

end

/-- The results of steps in order, where a failed step has its cause for a result. -/
def runAll (w : FieldInfo.Writer) : List Step → Draft → List StepResult × Draft
  | [], d => ([], d)
  | step :: rest, d =>
    let (outcome, d) := edit w step d
    let result :=
      match outcome with
      | .ok r => r
      | .error cause => .failed cause
    let (results, d) := runAll w rest d
    (result :: results, d)

end Step

end SchemaScript
