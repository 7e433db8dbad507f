import SchemaScript.Wire.Basic
import SchemaScript.Wire.Shape

/-!
# Reading records

What the fields of a message mean, once its type is known.  `Shapes.readInto` takes a row of wire
fields into a content, by the shape of its type.

* A field that the shape does not list, or whose payload does not fit its type, means nothing: its
  bytes are kept as they are.
* A later value of a field that does not repeat replaces the earlier one, but a later message is
  read into the earlier one, so that only its own fields are replaced.
* Setting a member of a oneof drops the other members.
* The values of a repeated number field come one by one or packed, row by row in one payload.  A
  packed payload sets the field even if no value is left of it.
* A number of a closed enum that has no value there means nothing, and a varint field of its own is
  kept of it.
* An entry of a map means nothing as a whole if any of its own wire fields does.  A key or a value
  that an entry does not hold is the zero of its type.
* A message set looks only at groups under number 1.  The first varint under number 2 in the group
  is the number of an extension, and the first bytes under number 3 are its message, which is read
  from the start and replaces an earlier one.
* A text that must be UTF-8 and is not, a packed payload or a message that can not be read, and
  messages deeper than the given depth make the whole message unreadable.  The messages in a message
  set have `Wire.maxDepth` anew.

A group is read like a message with the same fields.  The bytes of a message in another one are less
than those around it, so their count bounds the reading.
-/

namespace SchemaScript.Wire

/-! ## Numbers -/

/-- What the payload of a number is. -/
inductive NumberForm where
  | varint
  | word32
  | word64

/-- The payload of the numbers of a type.  Texts, bytes, messages and groups are no numbers. -/
def numberForm? : FieldType → Option NumberForm
  | .scalar .double => some .word64
  | .scalar .fixed64 => some .word64
  | .scalar .sfixed64 => some .word64
  | .scalar .float => some .word32
  | .scalar .fixed32 => some .word32
  | .scalar .sfixed32 => some .word32
  | .scalar .string => none
  | .scalar .bytes => none
  | .scalar _ => some .varint
  | .enumeration => some .varint
  | .message => none
  | .group => none

/-- The value that a number in a payload stands for. -/
def numberDatum (t : FieldType) (n : Nat) : Datum :=
  match t with
  | .scalar .double => .double ⟨UInt64.ofNat n⟩
  | .scalar .float => .single ⟨UInt32.ofNat n⟩
  | .scalar .int64 => .int (signed 64 n)
  | .scalar .sfixed64 => .int (signed 64 n)
  | .scalar .int32 => .int (signed 32 n)
  | .scalar .sfixed32 => .int (signed 32 n)
  | .scalar .uint32 => .int ((n % Nat.pow 2 32 : Nat) : Int)
  | .scalar .sint32 => .int (zigzag 32 n)
  | .scalar .sint64 => .int (zigzag 64 n)
  | .scalar .bool => .bool (n != 0)
  | .enumeration => .enum (signed 32 n)
  | _ => .int n

/-- The numbers packed in a payload, at most `steps` of them. -/
def readPacked (form : NumberForm) : Nat → List UInt8 → Option (List Nat)
  | _, [] => some []
  | 0, _ => none
  | steps + 1, bytes => do
    let (n, rest) ←
      match form with
      | .varint => readVarint64 bytes
      | .word32 => readWord 4 bytes
      | .word64 => readWord 8 bytes
    let ns ← readPacked form steps rest
    return n :: ns

/-- The numbers in a payload, if it fits the form: one, or a packed row for a repeated field. -/
def payloadNumbers (form : NumberForm) (repeated : Bool) (payload : Payload) :
    Option (Option (List Nat)) :=
  match form, payload with
  | .varint, .varint n => some (some [n])
  | .word32, .word32 n => some (some [n])
  | .word64, .word64 n => some (some [n])
  | _, .delimited content =>
    if repeated then (readPacked form content.length content).map some else some none
  | _, _ => some none

/-! ## What means something -/

/-- Whether a value belongs to its field: numbers of closed enums must be values there. -/
def Shapes.admits (shapes : Shapes) (f : FieldShape) : Datum → Bool
  | .enum n => (shapes.enum f.typeName).admits n
  | _ => true

/-- Whether the payload of a field that does not repeat means something to it. -/
def Shapes.takes (shapes : Shapes) (f : FieldShape) (payload : Payload) : Bool :=
  match numberForm? f.type, payload with
  | some .varint, .varint n => shapes.admits f (numberDatum f.type n)
  | some .word32, .word32 _ => true
  | some .word64, .word64 _ => true
  | none, .delimited _ => f.type != .group
  | none, .group _ => f.type == .group
  | _, _ => false

/-- Whether all wire fields of a map entry mean something. -/
def Shapes.takesAll (shapes : Shapes) (entry : MessageShape) (fields : List Field) : Bool :=
  fields.all fun e => (entry.field? e.number).any fun f => shapes.takes f e.payload

/-! ## Changes of contents -/

/-- The record without the members of a oneof other than the given field. -/
def Record.clearOthers (shape : MessageShape) (f : FieldShape) (r : Record) : Record :=
  match f.oneof with
  | none => r
  | some o =>
    r.filter fun e =>
      e.1 == f.number || ((shape.field? e.1).bind FieldShape.oneof) != some o

/-- The record with the zero of its type for a field that is not set. -/
def Record.fill (r : Record) (f : FieldShape) : Record :=
  if r.isSet f.number then r else r.set f.number [zero f.type]

namespace Content

/-- The content with a field kept that means nothing. -/
def keep (c : Content) (bytes : List UInt8) : Content :=
  { c with rest := c.rest ++ bytes }

/-- The content with a value given to a field. -/
def give (shape : MessageShape) (f : FieldShape) (value : Datum) (c : Content) : Content :=
  { c with fields :=
      if f.repeated then c.fields.append f.number [value]
      else (c.fields.clearOthers shape f).set f.number [value] }

/-- The content with a number given to a field of numbers. -/
def giveNumber (shapes : Shapes) (shape : MessageShape) (f : FieldShape) (c : Content) (n : Nat) :
    Content :=
  let value := numberDatum f.type n
  if shapes.admits f value then c.give shape f value else c.keep (encodeVarintField f.number n)

/-- The content with the numbers in a payload given to a field. -/
def giveNumbers (shapes : Shapes) (shape : MessageShape) (f : FieldShape) (packed : Bool)
    (numbers : List Nat) (c : Content) : Content :=
  let present := if packed then { c with fields := c.fields.append f.number [] } else c
  numbers.foldl (giveNumber shapes shape f) present

end Content

/-! ## Payloads -/

/-- The text or the bytes in a payload.  Bytes that are no text are kept where no text is asked for
or where it is not checked. -/
def textDatum (f : FieldShape) (content : List UInt8) : Option Datum :=
  if f.type = .scalar .string then
    match ofUtf8? content with
    | some s => some (.text s)
    | none => if f.checked then none else some (.bytes content)
  else
    some (.bytes content)

/-- The bytes of the message in a payload, if the payload is one for the type. -/
def messageBytes? (t : FieldType) : Payload → Option (List UInt8)
  | .delimited content => if t = .message then some content else none
  | .group content => if t = .group then some content else none
  | _ => none

/-- The number of an extension and the bytes of its message in a group of a message set. -/
def setItem? (fields : List Field) : Option (Nat × List UInt8) := do
  let number ← fields.findSome? fun e =>
    match e.payload with
    | .varint n => if e.number = 2 then some (n % Nat.pow 2 32) else none
    | _ => none
  let content ← fields.findSome? fun e =>
    match e.payload with
    | .delimited content => if e.number = 3 then some content else none
    | _ => none
  return (number, content)

/-- The extension of a message set in a field, with the bytes of its message. -/
def MessageShape.setItem? (shape : MessageShape) (e : Field) : Option (FieldShape × List UInt8) :=
  match e.payload with
  | .group content => do
    let (number, content) ← Wire.setItem? ((parse maxDepth content).getD [])
    let f ← (shape.field? number).filter fun f => e.number == 1 && f.type == .message
    return (f, content)
  | _ => none

/-! ## Messages -/

/-- The content with a row of wire fields read into it, where messages lie at most `steps` deep in
each other for all reasons and at most `depth` deep without message sets. -/
def Shapes.readWithin (shapes : Shapes) :
    Nat → Nat → MessageShape → Content → List Field → Option Content
  | 0, _, _, start, fields => if fields = [] then some start else none
  | steps + 1, depth, shape, start, fields =>
    fields.foldlM (fun (c : Content) (e : Field) =>
      if shape.isSet then
        match shape.setItem? e with
        | none => some (c.keep e.bytes)
        | some (f, content) => do
          let inner ← parse maxDepth content
          let after ← shapes.readWithin steps maxDepth (shapes.inner f) .empty inner
          return c.give shape f after.datum
      else
        match shape.field? e.number with
        | none => some (c.keep e.bytes)
        | some f =>
          match numberForm? f.type with
          | some form =>
            (payloadNumbers form f.repeated e.payload).map fun numbers =>
              match numbers with
              | some ns => c.giveNumbers shapes shape f e.payload.isDelimited ns
              | none => c.keep e.bytes
          | none =>
            if f.type.isMessage then
              match messageBytes? f.type e.payload, depth with
              | none, _ => some (c.keep e.bytes)
              | some _, 0 => none
              | some content, depth + 1 => do
                let inner ← parse depth content
                let before :=
                  if f.repeated then Content.empty
                  else ((c.fields.contents f.number).head?).getD .empty
                let after ← shapes.readWithin steps depth (shapes.inner f) before inner
                if (shapes.inner f).form ≠ .entry then
                  return c.give shape f after.datum
                else if shapes.takesAll (shapes.inner f) inner then
                  return c.give shape f
                    (.message ((shapes.inner f).fields.foldl Record.fill after.fields) [])
                else
                  return c.keep e.bytes
            else
              match e.payload with
              | .delimited content => (textDatum f content).map fun d => c.give shape f d
              | _ => some (c.keep e.bytes)) start

/-- The content with a row of wire fields read into it. -/
def Shapes.readInto (shapes : Shapes) (depth : Nat) (shape : MessageShape) (start : Content)
    (fields : List Field) : Option Content :=
  shapes.readWithin ((fields.flatMap Field.bytes).length + 1) depth shape start fields

/-- The content in bytes, with messages and groups at most `depth` deep. -/
def Shapes.readBytes (shapes : Shapes) (depth : Nat) (shape : MessageShape) (bytes : List UInt8) :
    Option Content :=
  (parse depth bytes).bind (shapes.readInto depth shape .empty)

end SchemaScript.Wire
