import SchemaScript.Time
import SchemaScript.Wire.Forms
import SchemaScript.Wire.Reading

/-!
# Rendering records

The value that stands for a message in JSON.

A message is a table with the JSON names of its shown fields, in the order of their numbers, unless
its type has a form of its own.  Repeated values make a list.  A map makes a table with text keys,
where the last entry of a key counts and the others are not looked at.  A field without presence is
left out when its value is the zero of its type, and when it repeats and has no values.

* A wrapper is what it holds under `value`.  A row of texts or of long integers is there the text
  that shows it, and a row of truth values tells whether it has any.
* A span of time and a point in time are the texts of `Time.spanText?` and `Time.pointText?`, by
  what is held under `seconds` and `nanos`.
* A choice of fields is its `paths` in camel case, with commas between.
* A list, a table and a value without a schema are the list of what is held under `values`, the
  table of what is held under `fields`, and what the set member of the oneof `kind` holds.  Without
  a set member a value is nothing.
* A packed message is the table that stands for it with the name of its type before it.  If its type
  has a form of its own, that form follows under the key `value`.  The name of the type is the part
  of its address after the last slash.

A form takes what it finds under these names by its kind and not by its type, so a message can have
a form although its type is declared in another way than usual.  Where the kinds do not fit, and
where a name is missing, the message has no form.  Neither has one with times out of bounds, paths
that camel case does not keep, numbers that are not finite in a value without a schema, or numbers
of a closed enum without a name.

Forms lie in each other at most `maxForms` deep.  A message that is held but not set can be of the
type of the message around it, so nothing else bounds them.
-/

namespace SchemaScript.Wire

/-- How deep the forms of messages can lie in each other. -/
def maxForms : Nat :=
  325

/-- How messages in a message are shown: by a form, which is mostly that of their type. -/
abbrev Show := MessageForm → MessageShape → Record → Except Error Value

/-- The value of a datum. -/
def Show.datum (inner : Show) (shapes : Shapes) (f : FieldShape) : Datum → Except Error Value
  | .message fields _ => inner (shapes.inner f).form (shapes.inner f) fields
  | d => plainValue shapes f d

/-! ## Fields -/

/-- Whether a value is the zero of its type.  A negative zero is not. -/
def isZero : Datum → Bool
  | .int n => n == 0
  | .bool b => !b
  | .double d => d.bits == 0
  | .single s => s.bits == 0
  | .text s => s == ""
  | .bytes content => content.isEmpty
  | .enum n => n == 0
  | .message _ _ => false

/-- Whether a field of a record is shown. -/
def isShown (f : FieldShape) (values : List Datum) : Bool :=
  f.presence || !(if f.repeated then values.isEmpty else values.all isZero)

/-- The shown fields of a record with their values. -/
def shownFields (shape : MessageShape) (fields : Record) : List (FieldShape × List Datum) :=
  fields.filterMap fun e =>
    ((shape.field? e.1).filter fun f => isShown f e.2).map fun f => (f, e.2)

/-- The text of a datum as the key of a map. -/
def keyText : Datum → Except Error String
  | .bool b => .ok (if b then "true" else "false")
  | .text s => .ok s
  | .int n => .ok (intText n)
  | _ => .error .unrenderable

/-- The value under a key of a map. -/
def entryValue (inner : Show) (shapes : Shapes) (f : FieldShape) (d : Datum) :
    Except Error Value :=
  match (shapes.inner f).field? 2 with
  | some value => inner.datum shapes value d
  | none => .ok (.scalar .null)

/-- The value of a map. -/
def mapValue (inner : Show) (shapes : Shapes) (f : FieldShape) (entries : List (Datum × Datum)) :
    Except Error Value := do
  let pairs ← (lastEntries entries).mapM fun e => do
    let key ← keyText e.1
    let v ← entryValue inner shapes f e.2
    return (Value.text key, v)
  return .table (Value.tableOf pairs)

/-- The value of a shown field. -/
def fieldValue (inner : Show) (shapes : Shapes) (f : FieldShape) (values : List Datum) :
    Except Error Value :=
  if shapes.isMap f then
    mapValue inner shapes f (values.filterMap Datum.entry?)
  else if f.repeated then
    (values.mapM (inner.datum shapes f)).map .list
  else
    inner.datum shapes f (values.headD f.initial)

/-- The entries of the shown fields of a message, by their JSON names. -/
def fieldEntries (inner : Show) (shapes : Shapes) (shape : MessageShape) (fields : Record) :
    Except Error (List (Value × Value)) :=
  (shownFields shape fields).mapM fun e =>
    match e.1.jsonName with
    | none => .error .unrenderable
    | some name => (fieldValue inner shapes e.1 e.2).map fun v => (.text name, v)

/-! ## Wrappers -/

/-- A row of data without messages as a value of their own. -/
def rowText (ds : List Datum) : Value :=
  .text (Value.displayed (.list (ds.map fun
    | .text s => .text s
    | .bytes content => .bytes content
    | .int n => .scalar (.int n)
    | _ => .scalar .null)))

/-- What a wrapper of a row of data stands for. -/
def rowValue (shapes : Shapes) (f : FieldShape) (ds : List Datum) : Except Error Value :=
  match f.type with
  | .message | .group => .error .missingPart
  | .enumeration =>
    if (shapes.enum f.typeName).isNull then .ok (.scalar .null)
    else .error (.wrongKind .key (rowName f))
  | .scalar .string => .ok (rowText ds)
  | .scalar .bytes => .error (.wrongKind .bytes (rowName f))
  | .scalar .bool => .ok (.scalar (.bool !ds.isEmpty))
  | .scalar .double | .scalar .float => .error (.wrongKind .number (rowName f))
  | .scalar t => if t.isLong then .ok (rowText ds) else .error (.unwritable .row)

/-- What a wrapper stands for. -/
def wrappedValue (inner : Show) (shapes : Shapes) : Held → Except Error Value
  | .nothing => .error .missingName
  | .one f d => inner.datum shapes f d
  | .row f ds => rowValue shapes f ds
  | .map _ _ => .error .missingPart

/-! ## Times -/

/-- A text that there may be, as a value. -/
def textOr (s : Option String) : Except Error Value :=
  match s with
  | some s => .ok (.text s)
  | none => .error .unrenderable

/-- The integer that is held under a name, where a number is needed.  A fraction of it is lost. -/
def heldInteger (shapes : Shapes) (need : Need) (held : Held) : Except Error Int :=
  match held with
  | .one f d =>
    match d.quantity? with
    | some (.whole n) => .ok n
    | some (.double x) => if x.isNaN || x.isInfinite then .error .unrenderable else .ok x.truncated
    | none => .error (.wrongKind need (kindName shapes f d))
  | _ => .error (.wrongKind need (held.kindName shapes))

/-- The text for seconds and nanoseconds.  The seconds are looked at first. -/
def timeValue (shapes : Shapes) (text? : Int → Int → Option String) (need : Need) :
    Held → Held → Except Error Value
  | .nothing, _ => .error .missingPart
  | _, .nothing => .error .missingPart
  | seconds, nanos => do
    let s ← heldInteger shapes .smaller seconds
    let _ ← textOr (text? s 0)
    let n ← heldInteger shapes need nanos
    textOr (text? s n)

/-! ## Choices of fields -/

/-- A path of a choice in camel case. -/
def pathText (shapes : Shapes) (f : FieldShape) : Datum → Except Error String
  | .text s =>
    match camelPath? s with
    | some path => .ok path
    | none => .error .unrenderable
  | .bytes [] => .ok ""
  | .bytes _ => .error .missingPart
  | d => .error (.wrongKind .parts (kindName shapes f d))

/-- What a choice of fields stands for.  A text is there the row of its characters. -/
def maskValue (shapes : Shapes) (held : Held) : Except Error Value := do
  let paths ←
    match held with
    | .nothing => .error .missingPart
    | .row f ds => ds.mapM (pathText shapes f)
    | .map f entries => entries.mapM fun e => pathText shapes f e.1
    | .one f (.text s) => s.toList.mapM fun c => pathText shapes f (.text (String.singleton c))
    | .one _ (.bytes []) => pure []
    | .one _ (.bytes _) => .error (.wrongKind .parts "int")
    | .one f d => .error (.wrongKind .parts (kindName shapes f d))
  return .text (",".intercalate paths)

/-! ## Values without a schema -/

/-- The value of a datum that is a value without a schema. -/
def Show.dynamic (inner : Show) (shapes : Shapes) (f : FieldShape) : Datum → Except Error Value
  | .message fields _ => inner .dynamic (shapes.inner f) fields
  | _ => .error .missingPart

/-- What a list without a schema stands for. -/
def listValue (inner : Show) (shapes : Shapes) : Held → Except Error Value
  | .nothing => .error .missingPart
  | .row f ds => (ds.mapM (inner.dynamic shapes f)).map .list
  | .map _ entries => if entries.isEmpty then .ok (.list []) else .error .missingPart
  | .one _ (.text s) => if s = "" then .ok (.list []) else .error .missingPart
  | .one _ (.bytes content) => if content.isEmpty then .ok (.list []) else .error .missingPart
  | .one f d => .error (.wrongKind .parts (kindName shapes f d))

/-- The key of a table without a schema.  The integers of records have at most 64 bits, so none of them
is refused. -/
def tableKey : Datum → Except Error Value
  | .bool b => .ok (.scalar (.bool b))
  | .text s => .ok (.text s)
  | .int n => if isShortInt n then .ok (.scalar (.int n)) else .error .tooManyDigits
  | _ => .error .unrenderable

/-- What a table without a schema stands for. -/
def structValue (inner : Show) (shapes : Shapes) : Held → Except Error Value
  | .nothing => .error .missingPart
  | .map f entries => do
    let pairs ← entries.mapM fun e => do
      let key ← tableKey e.1
      let v ←
        match (shapes.inner f).field? 2 with
        | some value => inner.dynamic shapes value e.2
        | none => .error .missingPart
      return (key, v)
    return .table (Value.tableOf pairs)
  | .row _ ds => if ds.isEmpty then .ok (.table []) else .error .missingPart
  | .one _ (.text s) => if s = "" then .ok (.table []) else .error .missingPart
  | .one _ (.bytes content) => if content.isEmpty then .ok (.table []) else .error .missingPart
  | .one f d => .error (.wrongKind .parts (kindName shapes f d))

/-- The set member of the oneof of a name, if there is such a oneof. -/
def setMember? (shape : MessageShape) (fields : Record) (oneof : String) :
    Option (Option (FieldShape × Datum)) :=
  (shape.oneofs.findIdx? (· == oneof)).map fun o =>
    fields.findSome? fun e =>
      (shape.field? e.1).bind fun f =>
        if f.oneof = some o then e.2.head?.map fun d => (f, d) else none

/-- Checks that a number of a value without a schema is finite. -/
def checkFinite (shapes : Shapes) (f : FieldShape) (d : Datum) : Except Error Unit :=
  match d.quantity? with
  | some (.whole _) => .ok ()
  | some (.double x) => if x.isNaN || x.isInfinite then .error .unrenderable else .ok ()
  | none => .error (.wrongKind .number (kindName shapes f d))

/-- What a value without a schema stands for. -/
def dynamicValue (inner : Show) (shapes : Shapes) (shape : MessageShape) (fields : Record) :
    Except Error Value :=
  match setMember? shape fields "kind" with
  | none => .error .unrenderable
  | some none => .ok (.scalar .null)
  | some (some (f, d)) =>
    if f.name = "null_value" then
      .ok (.scalar .null)
    else if f.name = "list_value" then
      match d with
      | .message fields _ => inner .list (shapes.inner f) fields
      | _ => .error .missingPart
    else if f.name = "number_value" then do
      checkFinite shapes f d
      inner.datum shapes f d
    else
      inner.datum shapes f d

/-! ## Messages of any type -/

/-- The name of a type in its address. -/
def typeOfUrl (url : String) : String :=
  String.ofList ((url.toList.splitOn '/').getLastD [])

/-- The address of a type that is held. -/
def heldUrl : Held → Except Error String
  | .one _ (.text url) => .ok url
  | .one _ (.bytes _) => .error (.wrongKind .bytes "str")
  | _ => .error .missingPart

/-- The bytes of a message that are held. -/
def heldBytes (shapes : Shapes) : Held → Except Error (List UInt8)
  | .nothing => .error .missingPart
  | .one _ (.bytes content) => .ok content
  | held => .error (.wrongKind .packedBytes (held.kindName shapes))

/-- What a message of any type stands for, by the address of its type and its bytes.  Without shown
fields it is empty. -/
def packedValue (inner : Show) (shapes : Shapes) (shape : MessageShape) (fields : Record) :
    Except Error Value :=
  if (shownFields shape fields).isEmpty then
    .ok (.table [])
  else do
    let url ← heldUrl (shape.held shapes fields "type_url")
    match shapes.messages.lookup (typeOfUrl url) with
    | none => .error (.unknownType url)
    | some packed =>
      let content ← heldBytes shapes (shape.held shapes fields "value")
      match shapes.readBytes maxDepth packed content with
      | none => .error .malformed
      | some c =>
        let start : Value × Value := (.text "@type", .text url)
        if packed.form = .plain ∨ packed.form = .entry then do
          let entries ← fieldEntries inner shapes packed c.fields
          return .table (Value.tableOf (start :: entries))
        else do
          let v ← inner packed.form packed c.fields
          return .table [start, (.text "value", v)]

/-! ## Messages -/

/-- The value of a message by a form. -/
def formValue (inner : Show) (shapes : Shapes) (form : MessageForm) (shape : MessageShape)
    (fields : Record) : Except Error Value :=
  let held := shape.held shapes fields
  match form with
  | .plain | .entry => (fieldEntries inner shapes shape fields).map fun es =>
      .table (Value.tableOf es)
  | .wrapper => wrappedValue inner shapes (held "value")
  | .any => packedValue inner shapes shape fields
  | .duration =>
    timeValue shapes Time.spanText? .smallerOrEqual (held "seconds") (held "nanos")
  | .timestamp => timeValue shapes Time.pointText? .smaller (held "seconds") (held "nanos")
  | .fieldMask => maskValue shapes (held "paths")
  | .list => listValue inner shapes (held "values")
  | .struct => structValue inner shapes (held "fields")
  | .dynamic => dynamicValue inner shapes shape fields

/-- The value of a message by a form, where forms lie at most `steps` deep in each other. -/
def renderWithin (shapes : Shapes) : Nat → Show
  | 0, _, _, _ => .error .tooDeep
  | steps + 1, form, shape, fields => formValue (renderWithin shapes steps) shapes form shape fields

/-- The value of a message. -/
def Shapes.render (shapes : Shapes) (shape : MessageShape) (c : Content) : Except Error Value :=
  renderWithin shapes maxForms shape.form shape c.fields

end SchemaScript.Wire
