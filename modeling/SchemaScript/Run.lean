import SchemaScript.Generation
import SchemaScript.Request

/-!
# Runs

From a request to its answer.

The files of a request are resolved, and the modules are generated by the parameters of it.  A
schema that can not be resolved ends the run without an answer, and so do bytes that are no request.
The notices of a run are shown from the level of its configuration on.  A run whose parameters are
not accepted shows them from the default level on.
-/

namespace SchemaScript

/-- The level from which on the notices of a run with parameters are shown. -/
def Parameters.level (parameters : Parameters) : Level :=
  match Config.ofParameters parameters with
  | .ok config => config.level
  | .error _ => Config.default.level

/-- What a prepared request results in, with the notices that are shown. -/
def Prepared.run (p : Prepared) : Outcome :=
  let (notices, response) := generate p.schema (some p.files) p.parameters
  (shownFrom p.parameters.level notices, response)

/-- What a request results in, with the notices that are shown. -/
def Request.run (r : Request) : Outcome :=
  match r.prepare defaultPathRule with
  | .error cause => ([], .error cause)
  | .ok p => p.run

/-- What the bytes of a request result in, with the notices that are shown. -/
def runBytes (bytes : List UInt8) : Outcome :=
  match Request.ofBytes bytes with
  | .error cause => ([], .error cause)
  | .ok r => r.run

end SchemaScript
