import SchemaScript.Error
import SchemaScript.Name

/-!
# Field information

What the runtime of the generated modules knows about a field of a message: its number and names,
how it repeats, whether it is optional, the options set on it, and a part that depends on its kind.

An attribute that is absent stands for its default, which the runtime computes.  The default of both
names is the name of the field in camel case, and a field does not repeat by default.  By default
only message fields are optional, and of them only those that neither repeat nor belong to a oneof.

`minimized` drops every attribute that is its default or would become it again, and `completed`
fills in every absent one.  The two are inverse to each other on the information of real fields:
a message field counts as optional exactly when it does not repeat and is in no oneof.

The numbers of a field are not checked here.  A repetition, a scalar type or a long type can be any
value, and one that is no member of its family is refused only when a literal is written for it.
-/

namespace SchemaScript

/-- The part of the information that depends on the kind of a field. -/
inductive FieldKind where
  /-- A scalar, with the type that stands for it if it is a 64-bit integer. -/
  | scalar (type : Value) (long : Option Value)
  /-- An enum by its full name, and the stem that its values share. -/
  | enumeration (typeName : String) (sharedStem : Option String)
  /-- A message by its full name. -/
  | message (typeName : String)
  /-- A map from a scalar type to the values of a kind. -/
  | map (key : Value) (value : FieldKind)
deriving DecidableEq

namespace FieldKind

/-- The word for a kind in the information. -/
def word : FieldKind → String
  | .scalar _ _ => "scalar"
  | .enumeration _ _ => "enum"
  | .message _ => "message"
  | .map _ _ => "map"

/-- Whether a kind is a map. -/
def isMap : FieldKind → Bool
  | .map _ _ => true
  | _ => false

/-- Whether a kind is a message. -/
def isMessage : FieldKind → Bool
  | .message _ => true
  | _ => false

/-- The map kind with values of a kind.  No map has maps for values. -/
def mapOf (key : Value) (value : FieldKind) : Except Error FieldKind :=
  if value.isMap then .error .nestedMap else .ok (.map key value)

end FieldKind

/-- The information about a field.  Every attribute but the first three can be absent. -/
structure FieldInfo where
  /-- The number of the field. -/
  number : Value
  /-- The name of the field in its schema. -/
  name : String
  /-- The part that depends on the kind. -/
  kind : FieldKind
  /-- The name of the property that holds the field. -/
  localName : Option String
  /-- The name of the field in JSON. -/
  jsonName : Option String
  /-- The name of the oneof that the field belongs to. -/
  oneof : Option String
  /-- How the field repeats. -/
  repetition : Option Value
  /-- Whether the field is optional. -/
  optional : Option Bool
  /-- The options set on the field, by their full names. -/
  options : Option (List (Value × Value))
deriving DecidableEq

namespace FieldInfo

/-- The name that a field has by default. -/
def defaultName (i : FieldInfo) : String :=
  lowerCamelCase i.name

/-- An attribute unless it has the given value. -/
def unlessEq (value : String) (given : Option String) : Option String :=
  if given = some value then none else given

/-- Whether a value says that a field does not repeat. -/
def isSingle (repetition : Value) : Bool :=
  repetition.number? == some 0

/-- The information without the attributes that are their defaults. -/
def minimized (i : FieldInfo) : FieldInfo :=
  { i with
    jsonName := unlessEq i.defaultName i.jsonName
    localName := unlessEq i.defaultName i.localName
    repetition := i.repetition.filter fun r => !isSingle r
    optional := i.optional.filter fun o => o && !i.kind.isMessage }

/-- Whether a field is optional when the information does not say so. -/
def defaultOptional (i : FieldInfo) : Bool :=
  i.repetition.all isSingle && i.oneof.isNone && i.kind.isMessage

/-- The information with the absent attributes filled in. -/
def completed (i : FieldInfo) : FieldInfo :=
  { i with
    localName := some (i.localName.getD i.defaultName)
    jsonName := some (i.jsonName.getD i.defaultName)
    repetition := some (i.repetition.getD (.scalar (.constant (.repetition .no))))
    optional := some (i.optional.getD i.defaultOptional) }

/-- Whether two repetitions are equal, as numbers if they are numbers. -/
def sameRepetition : Option Value → Option Value → Bool
  | some a, some b => decide (a = b) || a.same b
  | none, none => true
  | _, _ => false

/-- Whether two pieces of information agree in every attribute, repetitions being compared by the
numbers that they stand for. -/
def agrees (i j : FieldInfo) : Bool :=
  decide ({ i with repetition := none } = { j with repetition := none }) &&
    sameRepetition i.repetition j.repetition

end FieldInfo

end SchemaScript
