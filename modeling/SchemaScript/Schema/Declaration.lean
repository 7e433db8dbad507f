import SchemaScript.FieldType
import SchemaScript.Schema.Location

/-!
# Declarations

The declarations of a file with what follows from where they stand: their full names, the symbols
they are exported as, and their locations.

A message holds what is declared in it.  The messages nested in it are all there, the entries of
maps included; `Message.visibleMessages` are those that the schema names itself.  A field keeps its
oneof even if it was made up for an optional field, which `Field.realOneof` leaves out.
-/

namespace SchemaScript

/-- A value of an enum. -/
structure EnumValue where
  name : String
  number : Int
  location : Location
deriving DecidableEq, Repr

/-- An enum. -/
structure Enum where
  file : FileHeader
  fullName : String
  symbol : Symbol
  /-- The full name of the message around it. -/
  parent : Option String
  location : Location
  values : List EnumValue
  /-- The stem that all value names share. -/
  sharedStem : Option String
deriving DecidableEq, Repr

/-- A oneof. -/
structure Oneof where
  name : String
  fullName : String
  location : Location
deriving DecidableEq, Repr

/-- A field. -/
structure Field where
  file : FileHeader
  /-- The field as given. -/
  descriptor : FieldDescriptor
  fullName : String
  /-- The full name of the message that declares it. -/
  parent : String
  type : FieldType
  cardinality : Cardinality
  /-- Its oneof, also one that was made up for an optional field. -/
  oneof : Option Oneof
  location : Location

/-- A message. -/
structure Message where
  file : FileHeader
  fullName : String
  symbol : Symbol
  /-- The full name of the message around it. -/
  parent : Option String
  location : Location
  /-- Whether its messages are the entries of a map. -/
  isMapEntry : Bool
  oneofs : List Oneof
  fields : List Field
  /-- The messages nested in it, map entries included. -/
  messages : List Message
  enums : List Enum

/-- A file. -/
structure File where
  header : FileHeader
  dependencies : List String
  messages : List Message
  enums : List Enum

/-! ## Views -/

namespace Message

/-- The nested messages that code is generated for: all but the entries of maps. -/
def visibleMessages (m : Message) : List Message :=
  m.messages.filter fun n => !n.isMapEntry

/-- The fields that name a oneof. -/
def fieldsOf (m : Message) (o : Oneof) : List Field :=
  m.fields.filter fun f => f.oneof.map (·.location.path) = some o.location.path

end Message

namespace Field

/-- The oneof of a field unless it was made up for an optional field. -/
def realOneof (f : Field) : Option Oneof :=
  if f.descriptor.proto3Optional then none else f.oneof

/-- Whether the reference of a field is a text. -/
def hasTextReference (f : Field) : Bool :=
  f.file.isText (referencePath f.location.path)

end Field

end SchemaScript
