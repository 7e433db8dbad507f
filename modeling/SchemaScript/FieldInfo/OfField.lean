import SchemaScript.FieldInfo.Basic
import SchemaScript.Schema.CustomOptions
import SchemaScript.Schema.Resolution

/-!
# Field information of a field

What a resolved schema says about a field, in the terms of the runtime, with every attribute but the
oneof and the options present.

* A field repeats if it is declared to and is no map.  Its values are packed unless they are texts,
  bytes or messages, or the options say otherwise.  Without an option they are packed except in the
  older dialect.
* A field that repeats, a map, and a member of a oneof are not optional.  A single message is.  Any
  other field is optional if it is marked so, which in the older dialect is the default.
* A 64-bit integer has the long type that its options choose.  Without a choice it has the normal
  long type of the run.  That texts stand for it is the default of the runtime, so it is left out.
* The long type of the values of a map is chosen by the options of the value field of its entries.

A group has no information.  Neither has a map whose entry message lacks a field, or whose keys or
values are of a type that they can not have.  The kind is worked out before the options are read, so
its faults come first.
-/

namespace SchemaScript.FieldInfo

/-- How fields are described in a run. -/
structure Settings where
  /-- The long type of 64-bit integers without a choice of their own. -/
  normalLong : LongType
  /-- The shapes that custom options are read by.  Without them no custom option is read. -/
  customOptions : Option CustomOptions

/-- Whether the values of a field could be packed. -/
def isPackable : FieldType → Bool
  | .scalar .string | .scalar .bytes | .message | .group => false
  | _ => true

/-- How a field repeats. -/
def repetitionOf (s : Schema) (f : Field) : RepeatType :=
  if !s.isList f then .no
  else if !isPackable f.type then .unpacked
  else
    match f.descriptor.options.bind FieldOptions.packed? with
    | some packed => if packed then .packed else .unpacked
    | none => if f.file.isOlderDialect then .unpacked else .packed

/-- Whether a field is optional. -/
def optionalOf (s : Schema) (f : Field) (repetition : RepeatType) : Bool :=
  if repetition ≠ .no ∨ s.isMap f then false
  else if f.realOneof.isSome then false
  else if f.type = .message then true
  else if f.descriptor.proto3Optional then true
  else f.file.isOlderDialect && f.cardinality == .optional

/-- The long type of a field of a scalar type.  None stands for texts and for no long type. -/
def longTypeOf (settings : Settings) (f : Field) (t : ScalarType) : Option LongType :=
  if t.isLong then
    match f.descriptor.options.bind FieldOptions.longWish? with
    | some .string => none
    | some .number => some .number
    | _ => if settings.normalLong = .string then none else some settings.normalLong
  else
    none

/-- The scalar type of a field that must have one. -/
def scalarTypeOf (f : Field) : Except Error ScalarType :=
  match f.type with
  | .scalar t => .ok t
  | t => .error (.notMember (.scalar (.int t.code)) (.family .scalarType))

/-- The kind of the values of a field that is no map. -/
def valueKindOf (settings : Settings) (s : Schema) (f : Field) : Except Error FieldKind :=
  match f.type, s.target? f with
  | .message, some (.message m) => .ok (.message m.fullName)
  | .enumeration, some (.enum e) => .ok (.enumeration e.fullName e.sharedStem)
  | _, _ => do
    let t ← scalarTypeOf f
    return .scalar (.scalar (.constant (.scalar t)))
      ((longTypeOf settings f t).map fun l => .scalar (.constant (.long l)))

/-- The kind of a field. -/
def kindOf (settings : Settings) (s : Schema) (f : Field) : Except Error FieldKind :=
  if f.type = .group then
    .error (.invalidDescriptor f.fullName .group)
  else
    match s.mapEntry? f with
    | none => valueKindOf settings s f
    | some entry => do
      let key ←
        match entry.fields[0]? with
        | some key => scalarTypeOf key
        | none => .error .outOfRange
      match entry.fields[1]? with
      | some value =>
        let kind ← valueKindOf settings s value
        return .map (.scalar (.constant (.scalar key))) kind
      | none => .error .outOfRange

/-- The custom options of a field. -/
def optionsOf (settings : Settings) (f : Field) :
    Except Error (Option (List (Value × Value))) :=
  match settings.customOptions, f.descriptor.options with
  | some c, some o => c.read o
  | _, _ => .ok none

/-- The information about a field of a resolved schema. -/
def ofField (settings : Settings) (s : Schema) (f : Field) : Except Error FieldInfo := do
  let repetition := repetitionOf s f
  let kind ← kindOf settings s f
  let options ← optionsOf settings f
  return {
    number := .scalar (.int f.descriptor.number.toInt)
    name := f.descriptor.name
    kind := kind
    localName := some (safeProperty (lowerCamelCase f.descriptor.name))
    jsonName := some (f.descriptor.jsonName.getD (lowerCamelCase f.descriptor.name))
    oneof := f.realOneof.map fun o => lowerCamelCase o.name
    repetition := some (.scalar (.constant (.repetition repetition)))
    optional := some (optionalOf s f repetition)
    options := options }

/-- The information about fields in order. -/
def ofFields (settings : Settings) (s : Schema) : List Field → Except Error (List FieldInfo)
  | [] => .ok []
  | f :: rest => do
    let i ← ofField settings s f
    let is ← ofFields settings s rest
    return i :: is

end SchemaScript.FieldInfo
