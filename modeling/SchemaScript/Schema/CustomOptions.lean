import SchemaScript.Schema.Completeness
import SchemaScript.Schema.Shapes
import SchemaScript.Wire.Rendering

/-!
# Custom options

Options of fields that the schema itself declares, as extensions of the message
`google.protobuf.FieldOptions`.

If a file of the schema declares that message, the options of a field are written to bytes, read
from them by its shape, and rendered as JSON.  An extension stands there under its full name in
brackets, and a standard option under its plain name.  `read` keeps the names in brackets, without
the brackets.  Options that can not be read are an error, and so are options that can not be
rendered, standard ones among them.

The files of the schema are written to bytes and read from them as well before any option is
(`checkFiles`).  The message must stand at the top of its file.
-/

namespace SchemaScript

open Wire

/-- The shapes that custom options are read by. -/
structure CustomOptions where
  /-- The shapes of the schema. -/
  shapes : Shapes
  /-- The shape of the options message. -/
  options : MessageShape

namespace CustomOptions

/-- The full name of the message that holds the options of a field. -/
def messageName : String :=
  "google.protobuf.FieldOptions"

/-- Checks that the bytes of a file can be written and read. -/
def checkFile (f : FileDescriptor) : Except Error Unit :=
  if !f.isComplete then
    .error .incomplete
  else if maxDepth < f.depth then
    .error .unreadableFile
  else
    .ok ()

/-- Checks that the bytes of all files can be written and read. -/
def checkFiles (files : List FileDescriptor) : Except Error Unit :=
  files.forM checkFile

/-- Whether a file declares the options message at its top. -/
def declaresAtTop (f : FileDescriptor) : Bool :=
  (f.parts f.messages).any fun p => p.named p.item.name == messageName

/-- The shapes for the custom options of a schema, if it declares the options message. -/
def ofFiles (files : List FileDescriptor) : Except Error (Option CustomOptions) :=
  let shapes := shapesOf files
  match shapes.messages.lookup messageName with
  | none => .ok none
  | some options =>
    if files.any declaresAtTop then .ok (some ⟨shapes, options⟩) else .error .missingName

/-- The text between brackets, if a text starts and ends with them. -/
def bracketed? (s : String) : Option String :=
  match s.toList with
  | '[' :: rest =>
    if rest.getLast? = some ']' then some (String.ofList rest.dropLast) else none
  | _ => none

/-- The custom option in an entry, by full name, if it is one.  The key must be a text. -/
def ofEntry (e : Value × Value) : Except Error (Option (Value × Value)) :=
  match e.1 with
  | .scalar (.text key) => .ok ((bracketed? key).map fun name => (Value.text name, e.2))
  | _ => .error .missingPart

/-- The custom options among options, by full name, if there are any. -/
def read (c : CustomOptions) (o : FieldOptions) :
    Except Error (Option (List (Value × Value))) :=
  match c.shapes.readBytes maxDepth c.options o.bytes with
  | none => .error .malformed
  | some content => do
    match ← c.shapes.render c.options content with
    | .table entries =>
      let custom := (← entries.mapM ofEntry).filterMap id
      return if custom.isEmpty then none else some (Value.tableOf custom)
    | _ => .error .missingPart

end CustomOptions

end SchemaScript
