import SchemaScript.Value

/-!
# Errors

Everything that can end an operation, by its cause, and the text that tells it.

Three causes lie in the schema or in the parameters and are reported to the caller as a text:
a reference that finds no declaration, a declaration that is invalid by itself, and a parameter that
is not accepted.  The others lie in the values that an operation is given.  Some of them need no
text, because the place where they arise says it all: an index that no member of its list has, bytes
that are no message, a file that can not be written, a declaration that is not where it is looked
for, and a message that has no form in JSON.
-/

namespace SchemaScript

/-- The enumerations that a number can fail to be a member of. -/
inductive Enumeration where
  | family (f : Family)
  | fieldType
  | cardinality
deriving DecidableEq, Repr

/-- The name of an enumeration. -/
def Enumeration.name : Enumeration → String
  | .family f => f.name
  | .fieldType => "Kind"
  | .cardinality => "Cardinality"

/-- What is wrong with a declaration. -/
inductive DescriptorFault where
  | enumWithoutTypeName
  | messageWithoutTypeName
  | group
deriving DecidableEq, Repr

/-- The text for a fault of a declaration.  The backquotes are part of it. -/
def DescriptorFault.message : DescriptorFault → String
  | .enumWithoutTypeName => "is of kind ENUM but has no \x60type_name\x60 set"
  | .messageWithoutTypeName => "is of kind MESSAGE but has no \x60type_name\x60 set"
  | .group => "group fields are not supported"

/-- What is wrong with a parameter. -/
inductive ParameterFault where
  | empty
  | notTypeEnumMode
  | secondLongType
  | notLogLevel
  | unknown
deriving DecidableEq, Repr

/-- The text for a fault of a parameter. -/
def ParameterFault.message : ParameterFault → String
  | .empty => "must not be empty"
  | .notTypeEnumMode => "must be \"inline\" or \"qualified\""
  | .secondLongType => "only one long type can be set"
  | .notLogLevel => "must be one of debug, info, warning, error"
  | .unknown => "unknown parameter"

/-- The places where a text can be bytes that are none. -/
inductive TextPlace where
  | comment
  | parameter
  /-- A name that is put after a text. -/
  | afterText
  /-- A name that a text is put after. -/
  | beforeText
  /-- The name of an enum, from which the stem of its values is made. -/
  | stem
  /-- A name that is looked at for what it starts with. -/
  | start
deriving DecidableEq, Repr

/-- The text for bytes at a place that are no text. -/
def TextPlace.message : TextPlace → String
  | .comment => "sequence item 0: expected str instance, bytes found"
  | .parameter => "a bytes-like object is required, not 'str'"
  | .afterText => "can only concatenate str (not \"bytes\") to str"
  | .beforeText => "can't concat str to bytes"
  | .stem => "cannot use a string pattern on a bytes-like object"
  | .start => "startswith first arg must be bytes or a tuple of bytes, not str"

/-- What a value can be needed for. -/
inductive Need where
  | number
  | bytes
  | packedBytes
  | smaller
  | smallerOrEqual
  | parts
  | key
deriving DecidableEq, Repr

/-- The text for a value of a named kind that does not meet a need. -/
def Need.message (kind : String) : Need → String
  | .number => "must be real number, not " ++ kind
  | .bytes => "a bytes-like object is required, not '" ++ kind ++ "'"
  | .packedBytes => "expected bytes, " ++ kind ++ " found"
  | .smaller => "'<' not supported between instances of '" ++ kind ++ "' and 'int'"
  | .smallerOrEqual => "'<=' not supported between instances of '" ++ kind ++ "' and 'int'"
  | .parts => "'" ++ kind ++ "' object is not iterable"
  | .key => "unhashable type: '" ++ kind ++ "'"

/-- The causes that end an operation. -/
inductive Error where
  /-- A reference in `file`, made by `referrer`, finds no declaration. -/
  | unresolved (file referrer reference : String)
  /-- A declaration is invalid by itself. -/
  | invalidDescriptor (fullName : String) (fault : DescriptorFault)
  /-- A parameter is not accepted. -/
  | invalidParameter (name value : String) (fault : ParameterFault)
  /-- A value has no literal. -/
  | unwritable (kind : Unwritable)
  /-- A value of a named kind can not be used as it is needed. -/
  | wrongKind (need : Need) (kind : String)
  /-- An integer has too many digits to be written. -/
  | tooManyDigits
  /-- The value of a map is a map. -/
  | nestedMap
  /-- The value of the map of a named field is a map. -/
  | nestedMapField (field : String)
  /-- A value is no member of an enumeration. -/
  | notMember (value : Value) (enumeration : Enumeration)
  /-- An indentation would be negative. -/
  | negativeIndent
  /-- A list has no member at an index. -/
  | outOfRange
  /-- Bytes are no message of the expected type. -/
  | malformed
  /-- Bytes are no text where one is needed. -/
  | notText (place : TextPlace)
  /-- A file of a schema misses something without which it can not be written. -/
  | incomplete
  /-- The bytes of a file of a schema can not be read. -/
  | unreadableFile
  /-- A message holds something that JSON can not show. -/
  | unrenderable
  /-- A message that is packed under the name of its type has no known type. -/
  | unknownType (url : String)
  /-- A message lacks a part that its form needs. -/
  | missingPart
  /-- A declaration is looked for by its name where it is not. -/
  | missingName
  /-- The forms of messages lie too deep in each other. -/
  | tooDeep
deriving DecidableEq

/-- The text that tells a cause. -/
def Error.message : Error → String
  | .unresolved file referrer reference =>
    file ++ ": Failed to resolve \"" ++ reference ++ "\" from \"" ++ referrer ++ "\"."
  | .invalidDescriptor fullName fault =>
    "invalid descriptor error (" ++ fullName ++ "): " ++ fault.message
  | .invalidParameter name value fault =>
    "invalid parameter \"" ++ name ++ "=" ++ value ++ "\": " ++ fault.message
  | .unwritable kind => "can not create a literal from a value of type " ++ kind.name
  | .wrongKind need kind => need.message kind
  | .tooManyDigits =>
    "Exceeds the limit (" ++ Nat.repr maxDigits ++ " digits) for integer string conversion; " ++
      "use sys.set_int_max_str_digits() to increase the limit"
  | .nestedMap => "the value of a map field can not be a map"
  | .nestedMapField field => "map field " ++ field ++ " has a map as value"
  | .notMember value@(.scalar (.constant _)) enumeration =>
    value.displayed ++ " is not a " ++ enumeration.name
  | .notMember value enumeration => value.displayed ++ " is not a valid " ++ enumeration.name
  | .negativeIndent => "indent must be greater or equal zero"
  | .outOfRange => "index out of range"
  | .malformed => "malformed message"
  | .notText place => place.message
  | .incomplete => "incomplete file"
  | .unreadableFile => "Couldn't parse file content!"
  | .unrenderable => "message without a form in JSON"
  | .unknownType url => "Can not find message descriptor by type_url: " ++ url
  | .missingPart => "message without a part that its form needs"
  | .missingName => "declaration that is not in its place"
  | .tooDeep => "forms too deep in each other"

end SchemaScript
