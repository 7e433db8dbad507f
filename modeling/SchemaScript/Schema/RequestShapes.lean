import SchemaScript.Schema.Descriptor
import SchemaScript.Wire.Writing

/-!
# Shapes of requests

The shapes by which a request, and the descriptors in it, are read from the wire.

`requestShapes` lists the fields that are read and every field whose payload can be unreadable,
which makes all around it unreadable too: messages and packed numbers.  The options of a field are
there with all fields that they have, since their bytes are written anew from what was read
(`FieldOptions.bytes`), and a known field is written in another place than an unknown one.  The
message `Request` holds the files; what else it holds is told in `SchemaScript.Request`.
-/

namespace SchemaScript

open Wire

/-! ## Kinds of fields -/

namespace Wire.FieldShape

/-- A field that belongs to no oneof and is told from its zero. -/
def plain (number : Nat) (type : FieldType) (typeName : String) (repeated : Bool) : FieldShape :=
  { number := number
    name := ""
    jsonName := none
    type := type
    typeName := typeName
    repeated := repeated
    presence := true
    oneof := none
    checked := false
    isExtension := false
    initial := zero type }

/-- A text. -/
def text (number : Nat) : FieldShape :=
  plain number (.scalar .string) "" false

/-- Texts. -/
def texts (number : Nat) : FieldShape :=
  plain number (.scalar .string) "" true

/-- An integer. -/
def int (number : Nat) : FieldShape :=
  plain number (.scalar .int32) "" false

/-- Integers. -/
def ints (number : Nat) : FieldShape :=
  plain number (.scalar .int32) "" true

/-- A truth value. -/
def bool (number : Nat) : FieldShape :=
  plain number (.scalar .bool) "" false

/-- A field of a scalar type. -/
def scalar (number : Nat) (t : ScalarType) : FieldShape :=
  plain number (.scalar t) "" false

/-- A value of an enum. -/
def enum (number : Nat) (typeName : String) : FieldShape :=
  plain number .enumeration typeName false

/-- Values of an enum. -/
def enums (number : Nat) (typeName : String) : FieldShape :=
  plain number .enumeration typeName true

/-- A message. -/
def message (number : Nat) (typeName : String) : FieldShape :=
  plain number .message typeName false

/-- Messages. -/
def messages (number : Nat) (typeName : String) : FieldShape :=
  plain number .message typeName true

/-- Options that no one has understood yet. -/
def uninterpreted : FieldShape :=
  messages 999 "UninterpretedOption"

end Wire.FieldShape

/-! ## The shapes -/

/-- A closed enum of numbers. -/
def closedNumbers (numbers : List Nat) : EnumShape :=
  ⟨numbers.map fun (n : Nat) => ((n : Int), ""), true, false⟩

/-- A closed enum of a count of numbers from a first one on. -/
def closedRange (first count : Nat) : EnumShape :=
  closedNumbers ((List.range count).map (first + ·))

/-- The shape of a type of messages with the given fields. -/
def Wire.MessageShape.ofFields (fields : List FieldShape) : MessageShape :=
  ⟨"", fields, [], .plain, false⟩

/-- The types of messages in a request, with their fields. -/
def requestMessages : List (String × List FieldShape) := [
  ("Request", [.texts 1, .text 2, .message 3 "Empty", .messages 15 "File", .messages 17 "File"]),
  ("File", [.text 1, .text 2, .texts 3, .messages 4 "Message", .messages 5 "Enum",
    .messages 6 "Service", .messages 7 "Field", .message 8 "FileOptions", .message 9 "SourceInfo",
    .ints 10, .ints 11, .text 12]),
  ("Message", [.text 1, .messages 2 "Field", .messages 3 "Message", .messages 4 "Enum",
    .messages 5 "ExtensionRange", .messages 6 "Field", .message 7 "MessageOptions",
    .messages 8 "Oneof", .messages 9 "Empty"]),
  ("Field", [.text 1, .text 2, .int 3, .enum 4 "Label", .enum 5 "Type", .text 6, .text 7,
    .message 8 "FieldOptions", .int 9, .text 10, .bool 17]),
  ("Oneof", [.text 1, .message 2 "OneofOptions"]),
  ("Enum", [.text 1, .messages 2 "EnumValue", .message 3 "EnumOptions", .messages 4 "Empty"]),
  ("EnumValue", [.text 1, .int 2, .message 3 "EnumValueOptions"]),
  ("Service", [.messages 2 "Method", .message 3 "ServiceOptions"]),
  ("Method", [.message 4 "MethodOptions"]),
  ("ExtensionRange", [.message 3 "ExtensionRangeOptions"]),
  ("SourceInfo", [.messages 1 "Location"]),
  ("Location", [.ints 1, .ints 2, .text 3, .text 4, .texts 6]),
  ("FileOptions", [.message 50 "FeatureSet", .uninterpreted]),
  ("MessageOptions", [.bool 1, .bool 7, .message 12 "FeatureSet", .uninterpreted]),
  ("FieldOptions", [.enum 1 "StringForm", .bool 2, .bool 3, .bool 5, .enum 6 "LongWish", .bool 10,
    .bool 15, .bool 16, .enum 17 "Retention", .enums 19 "Target", .messages 20 "EditionDefault",
    .message 21 "FeatureSet", .message 22 "FeatureSupport", .uninterpreted]),
  ("OneofOptions", [.message 1 "FeatureSet", .uninterpreted]),
  ("EnumOptions", [.message 7 "FeatureSet", .uninterpreted]),
  ("EnumValueOptions", [.message 2 "FeatureSet", .message 4 "FeatureSupport", .uninterpreted]),
  ("ServiceOptions", [.message 34 "FeatureSet", .uninterpreted]),
  ("MethodOptions", [.message 35 "FeatureSet", .uninterpreted]),
  ("ExtensionRangeOptions", [.messages 2 "Empty", .message 50 "FeatureSet", .uninterpreted]),
  ("UninterpretedOption", [.messages 2 "NamePart", .text 3, .scalar 4 .uint64, .scalar 5 .int64,
    .scalar 6 .double, .scalar 7 .bytes, .text 8]),
  ("NamePart", [.text 1, .bool 2]),
  ("EditionDefault", [.text 2, .enum 3 "Edition"]),
  ("FeatureSupport", [.enum 1 "Edition", .enum 2 "Edition", .text 3, .enum 4 "Edition"]),
  ("FeatureSet", [.enum 1 "FieldPresence", .enum 2 "EnumType", .enum 3 "RowEncoding",
    .enum 4 "TextCheck", .enum 5 "MessageEncoding", .enum 6 "JsonSupport", .enum 7 "NamingStyle",
    .enum 8 "Visibility"]),
  ("Empty", [])]

/-- The enums in a request. -/
def requestEnums : List (String × EnumShape) := [
  ("Label", closedRange 1 3), ("Type", closedRange 1 18), ("StringForm", closedRange 0 3),
  ("LongWish", closedRange 0 3), ("Retention", closedRange 0 3), ("Target", closedRange 0 10),
  ("FieldPresence", closedRange 0 4), ("EnumType", closedRange 0 3),
  ("RowEncoding", closedRange 0 3), ("TextCheck", closedNumbers [0, 2, 3]),
  ("MessageEncoding", closedRange 0 3), ("JsonSupport", closedRange 0 3),
  ("NamingStyle", closedRange 0 3), ("Visibility", closedRange 0 5),
  ("Edition", closedNumbers
    [0, 1, 2, 900, 998, 999, 1000, 1001, 99997, 99998, 99999, 2147483647])]

/-- The shapes of a request by names of their own. -/
def requestShapes : Shapes where
  messages := requestMessages.map fun m => (m.1, .ofFields m.2)
  enums := requestEnums

/-- The bytes of options as they are written. -/
def FieldOptions.bytes (o : FieldOptions) : List UInt8 :=
  requestShapes.write (requestShapes.message "FieldOptions") o.content

end SchemaScript
