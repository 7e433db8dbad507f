import SchemaScript.Schema.Features
import SchemaScript.Wire.Record

/-!
# Descriptors

A schema as it is given: files that declare messages and enums, with their fields, oneofs, enum
values and the comments in the source.  Nothing is checked here and no reference is followed.  A
reference to a type is a text, and types and cardinalities are the numbers of the wire.

The options of a field are kept as the content of their message.  Three readers look at it:
`FieldOptions` itself for the two options that matter to every field, the reader of the features
that a field chooses, and the reader of custom options for the rest.

A place in a file is a *path*: the number of a member in its message on the wire, the index in that
member, and so on downward.  A text in a file that is none is given as a message would quote it, and
its place is listed with the file.
-/

namespace SchemaScript

/-! ## Options -/

/-- The options of a field. -/
structure FieldOptions where
  /-- What the message of the options holds. -/
  content : Wire.Content

/-- The wish of a field for the type that stands for its 64-bit integers. -/
inductive LongWish where
  | normal
  | string
  | number
deriving DecidableEq, Repr

namespace FieldOptions

/-- Options of which none is set. -/
def empty : FieldOptions :=
  ⟨.empty⟩

/-- The number of the option that asks for packed values. -/
def packedNumber : Nat :=
  2

/-- The number of the option that chooses a long type. -/
def longWishNumber : Nat :=
  6

/-- The number of the option that chooses features. -/
def featuresNumber : Nat :=
  21

/-- Whether the values of a repeated field are to be packed, if the options say it. -/
def packed? (o : FieldOptions) : Option Bool :=
  o.content.fields.bool? packedNumber

/-- The long type that the options choose, if they choose one. -/
def longWish? (o : FieldOptions) : Option LongWish :=
  (o.content.fields.int? longWishNumber).map fun n =>
    if n = 1 then .string else if n = 2 then .number else .normal

end FieldOptions

/-! ## Declarations as given -/

/-- A value of an enum. -/
structure EnumValueDescriptor where
  name : String
  number : Int
deriving DecidableEq, Repr

/-- An enum. -/
structure EnumDescriptor where
  name : String
  values : List EnumValueDescriptor
  features : FeatureChoices
deriving DecidableEq, Repr

/-- A oneof. -/
structure OneofDescriptor where
  name : String
  features : FeatureChoices
deriving DecidableEq, Repr

/-- A field, or an extension when it names the message that it extends. -/
structure FieldDescriptor where
  name : String
  /-- Its number, of 32 bits. -/
  number : Int32
  /-- The number of its cardinality. -/
  label : Int
  /-- The number of its type, if it is given. -/
  type : Option Int
  /-- The reference to a message or an enum. -/
  typeName : Option String
  /-- The message that an extension extends. -/
  extendee : Option String
  jsonName : Option String
  /-- Whether its name in JSON is a text, if it is given. -/
  hasTextJsonName : Bool
  /-- The text of the value that the field has as long as it is not set. -/
  defaultValue : Option String
  /-- The index of its oneof.  A negative one counts from the end. -/
  oneofIndex : Option Int
  /-- Whether it is optional with a oneof made up for it. -/
  proto3Optional : Bool
  options : Option FieldOptions

/-- The number of the type of a field, that of the first type if none is given. -/
def FieldDescriptor.typeNumber (d : FieldDescriptor) : Int :=
  d.type.getD 1

/-- A message. -/
structure MessageDescriptor where
  name : String
  fields : List FieldDescriptor
  oneofs : List OneofDescriptor
  messages : List MessageDescriptor
  enums : List EnumDescriptor
  extensions : List FieldDescriptor
  /-- Whether its messages are the entries of a map. -/
  isMapEntry : Bool
  /-- Whether its messages are message sets on the wire. -/
  isMessageSet : Bool
  features : FeatureChoices

/-- The comments at a place of a file. -/
structure CommentEntry where
  path : List Int
  leading : String
  trailing : String
  detached : List String
  /-- Whether all comments there are text. -/
  isText : Bool
deriving DecidableEq, Repr

/-- A file. -/
structure FileDescriptor where
  name : String
  package : String
  /-- The dialect that the file names, empty if it names none. -/
  dialect : String
  dependencies : List String
  messages : List MessageDescriptor
  enums : List EnumDescriptor
  extensions : List FieldDescriptor
  comments : List CommentEntry
  features : FeatureChoices
  /-- Whether nothing in it that must be given is missing. -/
  isComplete : Bool
  /-- How deep messages lie in each other in it on the wire. -/
  depth : Nat
  /-- The places of texts in it that are none. -/
  unreadable : List (List Nat)

end SchemaScript
