import SchemaScript.Error
import SchemaScript.Name
import SchemaScript.Text.Base64
import SchemaScript.Wire.Shape

/-!
# Values of fields

The values that stand for the data of a field in JSON, and what a form finds under the name of a
field.

Truth values and texts stand for themselves, integers of 32 bits are integers and those of 64 bits
their decimal text, and bytes are in base 64.  A value of an enum is its name, or its number if it
has none, and the value of the enum that stands for nothing is nothing.  A double stands for itself
and a single for the double that shows it; what is no finite number is one of the texts `NaN`,
`Infinity` and `-Infinity`.  Bytes in a field of texts are shown as a message quotes them.

A form asks a message for a field by its name, whatever the type of the message declares under it.
What it finds is *held*: nothing, one datum, which is the initial one as long as the field is not
set, a row of data, or a map.  Each kind of held data has a name, which messages give.
-/

namespace SchemaScript.Wire

/-! ## Single values -/

/-- Whether the integers of a type have 64 bits. -/
def isLong : FieldType → Bool
  | .scalar t => t.isLong
  | _ => false

/-- A double as a value. -/
def doubleValue (d : Double) : Value :=
  if d.isNaN then .text "NaN"
  else if d.isInfinite then .text (if d.negative then "-Infinity" else "Infinity")
  else .scalar (.double d)

/-- A single as a value. -/
def singleValue (s : Single) : Value :=
  if s.isNaN then .text "NaN"
  else if s.isInfinite then .text (if s.negative then "-Infinity" else "Infinity")
  else .scalar (.double s.shown)

/-- A number of an enum as a value. -/
def enumValue (shape : EnumShape) (n : Int) : Except Error Value :=
  if shape.isNull then
    .ok (.scalar .null)
  else
    match shape.values.lookup n with
    | some name => .ok (.text name)
    | none => if shape.closed then .error .unrenderable else .ok (.scalar (.int n))

/-- The value of a datum that is no message. -/
def plainValue (shapes : Shapes) (f : FieldShape) : Datum → Except Error Value
  | .int n => .ok (if isLong f.type then .text (intText n) else .scalar (.int n))
  | .bool b => .ok (.scalar (.bool b))
  | .double d => .ok (doubleValue d)
  | .single s => .ok (singleValue s)
  | .text s => .ok (.text s)
  | .bytes content =>
    .ok (.text (if f.type = .scalar .string then Text.displayedBytes content
      else Text.base64 content))
  | .enum n => enumValue (shapes.enum f.typeName) n
  | .message _ _ => .ok (.table [])

/-! ## Maps -/

/-- Whether two data are the same key of a map. -/
def sameKey : Datum → Datum → Bool
  | .bool a, .bool b => a == b
  | .text a, .text b => a == b
  | .int m, .int n => m == n
  | .bytes as, .bytes bs => as == bs
  | _, _ => false

/-- The key and the value of a map entry. -/
def Datum.entry? : Datum → Option (Datum × Datum)
  | .message fields _ =>
    match Record.values fields 1, Record.values fields 2 with
    | [key], [value] => some (key, value)
    | _, _ => none
  | _ => none

/-- The entries of a map in order, the last one of each key. -/
def lastEntries : List (Datum × Datum) → List (Datum × Datum)
  | [] => []
  | e :: rest =>
    if rest.any fun other => sameKey e.1 other.1 then lastEntries rest else e :: lastEntries rest

/-! ## What a message holds under a name -/

/-- What a message holds under a name. -/
inductive Held where
  /-- No field has the name. -/
  | nothing
  | one (f : FieldShape) (d : Datum)
  | row (f : FieldShape) (ds : List Datum)
  | map (f : FieldShape) (entries : List (Datum × Datum))

/-- What a message of a type holds under a name. -/
def MessageShape.held (shapes : Shapes) (shape : MessageShape) (fields : Record) (name : String) :
    Held :=
  match shape.named? name with
  | none => .nothing
  | some f =>
    let values := fields.values f.number
    if shapes.isMap f then .map f (lastEntries (values.filterMap Datum.entry?))
    else if f.repeated then .row f values
    else .one f (values.headD f.initial)

/-- The name of the kind of a datum. -/
def kindName (shapes : Shapes) (f : FieldShape) : Datum → String
  | .int _ => "int"
  | .bool _ => "bool"
  | .double _ => "float"
  | .single _ => "float"
  | .text _ => "str"
  | .bytes _ => "bytes"
  | .enum _ => "int"
  | .message _ _ => (shapes.inner f).name

/-- The name of the kind of a row of data. -/
def rowName (f : FieldShape) : String :=
  if f.type.isMessage then "google._upb._message.RepeatedCompositeContainer"
  else "google._upb._message.RepeatedScalarContainer"

/-- The name of the kind of a map. -/
def mapName (shapes : Shapes) (f : FieldShape) : String :=
  if ((shapes.inner f).field? 2).any fun value => value.type.isMessage then
    "google._upb._message.MessageMapContainer"
  else
    "google._upb._message.ScalarMapContainer"

/-- The name of the kind of what is held. -/
def Held.kindName (shapes : Shapes) : Held → String
  | .nothing => "NoneType"
  | .one f d => Wire.kindName shapes f d
  | .row f _ => rowName f
  | .map f _ => mapName shapes f

/-- The number that a datum is. -/
inductive Quantity where
  | whole (n : Int)
  | double (d : Double)

/-- The number that a datum is, if it is one. -/
def Datum.quantity? : Datum → Option Quantity
  | .int n => some (.whole n)
  | .bool b => some (.whole (if b then 1 else 0))
  | .enum n => some (.whole n)
  | .double d => some (.double d)
  | .single s => some (.double s.toDouble)
  | .text _ | .bytes _ | .message _ _ => none

end SchemaScript.Wire
