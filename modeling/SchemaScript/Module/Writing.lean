import SchemaScript.Config
import SchemaScript.FieldInfo.Literal
import SchemaScript.FieldInfo.OfField
import SchemaScript.Module.Doc
import SchemaScript.Schema.Exports

/-!
# Writing modules

The module for a file of a schema.

A module starts with two comment lines and the import statements.  Then come the enums that the file
exports, and after them the messages.  The names of all of them are reserved before the first line.

An enum is a script enum whose members are the values, without the stem that all of them share.  A
message is a constant, made from its full name and the literals of its fields.
-/

namespace SchemaScript

/-! ## Declarations -/

/-- The name of a value of an enum as a member of the script enum. -/
def Enum.memberName (e : Enum) (v : EnumValue) : String :=
  match e.sharedStem with
  | some stem => String.ofList (v.name.toList.drop stem.length)
  | none => v.name

/-- Writes a value of an enum. -/
def writeEnumValue (e : Enum) (v : EnumValue) : Edit Unit := do
  writeDoc v.location ("protobuf enum value: " ++ v.name ++ " = " ++ intText v.number ++ ";")
  Edit.write [.text (e.memberName v), .text " = ", .text (intText v.number), .text ","]

/-- Writes an enum. -/
def writeEnum (e : Enum) : Edit Unit := do
  Edit.write []
  writeDoc e.location ("protobuf enum " ++ e.fullName)
  Edit.write [.text "export enum ", .text e.symbol.name, .text " \x7b"]
  Edit.indented 4 (Edit.each (writeEnumValue e) e.values)
  Edit.write [.text "\x7d"]

/-- The notice about the custom options of a field, if it has any. -/
def optionNotices (f : Field) (i : FieldInfo) : List Notice :=
  match i.options with
  | some entries => [.customOptions f.fullName (entries.map fun e => e.1.plain)]
  | none => []

/-- The information about fields in order, telling which of them have custom options. -/
def describeFields (settings : FieldInfo.Settings) (s : Schema) (fields : List Field) :
    Edit (List FieldInfo) :=
  Edit.collect (fun f => do
    let i ← Edit.ofExcept (FieldInfo.ofField settings s f)
    Edit.each Edit.tell (optionNotices f i)
    return i) fields

/-! ## Modules -/

/-- How the modules of a run are written. -/
structure Job where
  /-- The configuration of the run. -/
  config : Config
  /-- The schema of the run. -/
  schema : Schema
  /-- The shapes that custom options are read by. -/
  customOptions : Option CustomOptions

namespace Job

/-- How fields are described. -/
def settings (j : Job) : FieldInfo.Settings :=
  ⟨j.config.normalLong, j.customOptions⟩

/-- How field literals are written. -/
def writer (j : Job) : FieldInfo.Writer :=
  ⟨j.schema.registry, j.config.runtime, j.config.inlined⟩

/-- The literal for a field with its information.  A name in JSON that is no text has no literal. -/
def fieldLiteral (j : Job) (f : Field) (i : FieldInfo) : Edit Expr := do
  j.writer.checkKind i.name i.kind
  if f.descriptor.hasTextJsonName then
    j.writer.literal i
  else
    Edit.fail (.unwritable .bytes)

/-- Writes a message. -/
def writeMessage (j : Job) (m : Message) : Edit Unit := do
  Edit.write []
  writeDoc m.location ("protobuf message " ++ m.fullName)
  let infos ← describeFields j.settings j.schema m.fields
  let fields ← Edit.collect (fun e => j.fieldLiteral e.1 e.2) (m.fields.zip infos)
  Edit.write [.text "export const ", .text m.symbol.name, .text " = new ",
    .symbol ⟨j.config.runtime, "MessageType"⟩, .text "(", .text (Text.quoted m.fullName),
    .text ", ", .expr (.array fields true), .text ");"]

/-- Writes the module for a file. -/
def writeModule (j : Job) (f : File) : Edit Unit := do
  let enums := f.allEnums
  let messages := f.allMessages
  Edit.each Edit.reserve (enums.map (·.symbol.name) ++ messages.map (·.symbol.name))
  Edit.write [.text "// @generated by protoc-gen-protots from ", .text f.header.name]
  Edit.write [.text "// tslint:disable"]
  Edit.markImports
  Edit.each writeEnum enums
  Edit.each j.writeMessage messages
  let name ← Edit.view Draft.name
  Edit.tell (.completed name enums.length messages.length)

/-- The draft that the module for a file starts from. -/
def draftFor (f : File) : Draft :=
  Draft.new (fileStem f.header.name ++ ".ts") f.header.importPath

end Job

end SchemaScript
