import SchemaScript.Parameters
import SchemaScript.Schema.CustomOptions
import SchemaScript.Schema.Resolution

/-!
# Requests

What a run is asked to do: the files of a schema, the names of those to generate, and the parameters
as one text.

On the wire the names are field 1, the parameters field 2 and the files field 15.  Bytes that do not
make a request end the run, and so does a schema that can not be resolved.  Parameters that are no
text make no request either.

A request that is made of files is sent before it is answered: it is written to bytes, for which its
files must be complete, and read from them, for which they must not be too deep (`Request.sent`).
-/

namespace SchemaScript

/-- What a run is asked to do. -/
structure Request where
  /-- The names of the files to generate. -/
  toGenerate : List String
  /-- The parameters as one text. -/
  parameter : String
  /-- The files of the schema, each after the files that it depends on. -/
  files : List FileDescriptor

/-- A request with its schema resolved. -/
structure Prepared where
  parameters : Parameters
  schema : Schema
  /-- The files of the schema as they were given. -/
  files : List FileDescriptor

namespace Request

/-- The request in bytes. -/
def ofBytes (bytes : List UInt8) : Except Error Request :=
  match requestShapes.readBytes Wire.maxDepth (requestShapes.message "Request") bytes with
  | some c =>
    if (c.fields.values 2).all Wire.Datum.isText then
      .ok ⟨c.fields.texts 1, (c.fields.text? 2).getD "",
        (c.fields.contents 15).map FileDescriptor.ofContent⟩
    else
      .error (.notText .parameter)
  | none => .error .malformed

/-- The request as it comes out of its bytes.  A file lies one step deep in them. -/
def sent (r : Request) : Except Error Request :=
  if !r.files.all FileDescriptor.isComplete then .error .incomplete
  else if r.files.any fun f => decide (Wire.maxDepth < f.depth + 1) then .error .malformed
  else .ok r

/-- The request with its schema resolved by a rule for the paths of modules. -/
def prepare (rule : PathRule) (r : Request) : Except Error Prepared := do
  let schema ← Schema.resolve rule r.toGenerate r.files
  CustomOptions.checkFiles r.files
  return ⟨Parameters.parse r.parameter, schema, r.files⟩

end Request

end SchemaScript
