import SchemaScript.FieldType
import SchemaScript.Wire.Record

/-!
# Shapes

What is known of the types of messages and enums before any message is read: which fields a message
has, which values an enum has, and how each of them is treated.

Most messages are no more than their fields.  A few have a *form* of their own in JSON.  The entries
of a map are pairs, a wrapper stands for the one value in it, and seven more types of messages stand
for something that is common enough to be written in its own way: a message of any type, a span of
time and a point in it, a choice of fields, and three for values without a schema.

A *message set* has a form of its own on the wire: it holds extensions, each packed under its number
in a group.
-/

namespace SchemaScript.Wire

/-- A field in a shape. -/
structure FieldShape where
  /-- The number of the field. -/
  number : Nat
  /-- The name of the field. -/
  name : String
  /-- The name of the field in JSON, if it is a text. -/
  jsonName : Option String
  /-- The type of its values. -/
  type : FieldType
  /-- The full name of the message or enum that it refers to. -/
  typeName : String
  /-- Whether it holds any count of values. -/
  repeated : Bool
  /-- Whether a zero, or no values of a repeated field, is told from a field that is not set. -/
  presence : Bool
  /-- The oneof that it belongs to, if it does. -/
  oneof : Option Nat
  /-- Whether its texts must be UTF-8. -/
  checked : Bool
  /-- Whether it is an extension of the message. -/
  isExtension : Bool
  /-- What it holds as long as it is not set. -/
  initial : Datum

/-- What the messages of a type are. -/
inductive MessageForm where
  /-- Their fields. -/
  | plain
  /-- The entries of a map: a key under number 1 and a value under number 2. -/
  | entry
  /-- The value of a field. -/
  | wrapper
  /-- A message in bytes with the name of its type. -/
  | any
  /-- A span of time. -/
  | duration
  /-- A choice of fields. -/
  | fieldMask
  /-- A list of values without a schema. -/
  | list
  /-- A table of values without a schema. -/
  | struct
  /-- A point in time. -/
  | timestamp
  /-- A value without a schema. -/
  | dynamic
deriving DecidableEq, Repr

/-- The fields of a type of messages. -/
structure MessageShape where
  /-- The name of the type in its scope. -/
  name : String
  /-- The fields, in any order. -/
  fields : List FieldShape
  /-- The names of the oneofs. -/
  oneofs : List String
  /-- What the messages are in JSON. -/
  form : MessageForm
  /-- Whether the messages are message sets. -/
  isSet : Bool

/-- The values of an enum. -/
structure EnumShape where
  /-- The names by number. -/
  values : List (Int × String)
  /-- Whether other numbers are no values at all. -/
  closed : Bool
  /-- Whether its values stand for nothing. -/
  isNull : Bool

/-- Shapes by the full names of their types. -/
structure Shapes where
  /-- The shapes of messages. -/
  messages : List (String × MessageShape)
  /-- The shapes of enums. -/
  enums : List (String × EnumShape)

/-- The shape of a type of messages without fields. -/
def MessageShape.empty : MessageShape :=
  ⟨"", [], [], .plain, false⟩

/-- The shape of a message, without fields if the name is not known. -/
def Shapes.message (shapes : Shapes) (name : String) : MessageShape :=
  (shapes.messages.lookup name).getD .empty

/-- The shape of an enum, open and without values if the name is not known. -/
def Shapes.enum (shapes : Shapes) (name : String) : EnumShape :=
  (shapes.enums.lookup name).getD ⟨[], false, false⟩

/-- The shape of the messages in a field. -/
def Shapes.inner (shapes : Shapes) (f : FieldShape) : MessageShape :=
  shapes.message f.typeName

/-- Whether a field is a map. -/
def Shapes.isMap (shapes : Shapes) (f : FieldShape) : Bool :=
  f.repeated && f.type == .message && (shapes.inner f).form == .entry

/-- The field of a number. -/
def MessageShape.field? (shape : MessageShape) (number : Nat) : Option FieldShape :=
  shape.fields.find? fun f => f.number = number

/-- The field of a name.  An extension has none in the message that it extends. -/
def MessageShape.named? (shape : MessageShape) (name : String) : Option FieldShape :=
  shape.fields.find? fun f => f.name = name && !f.isExtension

/-- Whether a number is a value of an enum. -/
def EnumShape.admits (shape : EnumShape) (n : Int) : Bool :=
  !shape.closed || (shape.values.lookup n).isSome

/-! ## Zeros -/

/-- The zero of a type.  That of a type of messages is a message without fields. -/
def zero : FieldType → Datum
  | .scalar .bool => .bool false
  | .scalar .double => .double ⟨0⟩
  | .scalar .float => .single ⟨0⟩
  | .scalar .string => .text ""
  | .scalar .bytes => .bytes []
  | .scalar _ => .int 0
  | .enumeration => .enum 0
  | .message => Content.empty.datum
  | .group => Content.empty.datum

end SchemaScript.Wire
