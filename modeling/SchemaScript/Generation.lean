import SchemaScript.Module.Writing
import SchemaScript.Response

/-!
# Generation

The modules of a run.

A run generates the modules for its files in order.  The first error ends it, and no module is
answered then.  If the error is a reference that can not be resolved or a declaration that is
invalid, the answer is a text that names the file and tells the cause.  Any other error ends the run
without an answer.

A parameter that is not accepted is answered with its text before anything is generated.
-/

namespace SchemaScript

/-- An error with the file whose module was written when it arose. -/
structure Failure where
  file : String
  cause : Error
deriving DecidableEq

/-- What a run results in, after what it told. -/
abbrev Outcome := List Notice × Except Error Response

/-! ## Modules in order -/

/-- The modules for files in order, or the first failure, after what was told. -/
def Job.generateAll (j : Job) : List File → List Notice × Except Failure (List Generated)
  | [] => ([], .ok [])
  | f :: rest =>
    match j.writeModule f (Job.draftFor f) with
    | (.ok (), d) =>
      let (notices, outcome) := j.generateAll rest
      (d.notices ++ notices, outcome.map (⟨d.name, d.content⟩ :: ·))
    | (.error cause, d) => (d.notices, .error ⟨f.header.name, cause⟩)

/-! ## Answers -/

/-- Whether an error is told to the caller in the answer. -/
def Error.isReported : Error → Bool
  | .unresolved .. => true
  | .invalidDescriptor .. => true
  | _ => false

/-- The text that answers a failure. -/
def Failure.message (f : Failure) : String :=
  f.file ++ ": " ++ f.cause.message

/-- What a failure results in, after what was told before it. -/
def Failure.outcome (f : Failure) (notices : List Notice) : Outcome :=
  if f.cause.isReported then
    (notices ++ [.failed f.file f.cause.message], .ok (.failed f.message))
  else
    (notices, .error f.cause)

/-- What the generation of the modules of a schema results in.  Custom options are read if the files
of the schema are given. -/
def generate (schema : Schema) (files : Option (List FileDescriptor)) (parameters : Parameters) :
    Outcome :=
  match Config.ofParameters parameters with
  | .error cause => ([.refused cause.message], .ok (.failed cause.message))
  | .ok config =>
    match files.mapM CustomOptions.ofFiles with
    | .error cause => ([], .error cause)
    | .ok customOptions =>
      match Job.generateAll ⟨config, schema, customOptions.join⟩ schema.toGenerate with
      | (notices, .ok files) => (notices, .ok (.written files))
      | (notices, .error failure) => failure.outcome notices

end SchemaScript
