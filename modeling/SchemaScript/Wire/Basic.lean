/-!
# The wire format

A message on the wire is a row of fields, each a number and a payload.  The payload is a varint, a
word of four or eight bytes, a row of bytes with its length in front, or a group: the fields up to
an end mark of the same number.  Which of these a field number has, and what it means, is said by
a type of messages and not by the bytes.

A varint has seven bits a byte, the lowest first, and every byte but the last has its top bit set.
Ten bytes are the longest, and bits beyond the sixty-fourth are lost.  The number and the payload
form of a field stand together in a varint of at most five bytes, and so does a length, which is
less than 2 ^ 31.  A field has no number zero.

`parse` refuses everything else: bytes that break off, an unknown payload form, an end mark without
its group or without the end of its group, and groups within groups deeper than `depth`.  Each field
takes at least one byte, so the count of bytes bounds the reading.  A field keeps the bytes that it
was read from, and a group the bytes of its own fields, which have been found in order.

`encode` functions write varints in their shortest form.
-/

namespace SchemaScript.Wire

/-- The payload of a field. -/
inductive Payload where
  | varint (n : Nat)
  | word64 (n : Nat)
  | delimited (content : List UInt8)
  /-- The bytes of the fields of a group, without the end mark. -/
  | group (content : List UInt8)
  | word32 (n : Nat)
deriving DecidableEq, Repr

/-- Whether a payload is a row of bytes with its length in front. -/
def Payload.isDelimited : Payload → Bool
  | .delimited _ => true
  | _ => false

/-- A field. -/
structure Field where
  /-- The number. -/
  number : Nat
  /-- The payload. -/
  payload : Payload
  /-- The bytes of the whole field. -/
  bytes : List UInt8
deriving DecidableEq, Repr

/-- How deep messages and groups can lie within each other. -/
def maxDepth : Nat :=
  100

/-! ## Reading -/

/-- A varint of at most `limit` bytes, and the bytes after it. -/
def readVarint : Nat → List UInt8 → Option (Nat × List UInt8)
  | 0, _ => none
  | _, [] => none
  | limit + 1, b :: rest =>
    if b.toNat < 128 then
      some (b.toNat, rest)
    else
      (readVarint limit rest).map fun r => (b.toNat - 128 + 128 * r.1, r.2)

/-- A varint of 64 bits. -/
def readVarint64 (bytes : List UInt8) : Option (Nat × List UInt8) :=
  (readVarint 10 bytes).map fun r => (r.1 % Nat.pow 2 64, r.2)

/-- A varint of at most five bytes below a bound. -/
def readSmall (bound : Nat) (bytes : List UInt8) : Option (Nat × List UInt8) :=
  (readVarint 5 bytes).filter fun r => decide (r.1 < bound)

/-- The given count of bytes, and the bytes after them. -/
def readBytes (count : Nat) (bytes : List UInt8) : Option (List UInt8 × List UInt8) :=
  if count ≤ bytes.length then some (bytes.splitAt count) else none

/-- Bytes as a number, the lowest first. -/
def littleEndian : List UInt8 → Nat
  | [] => 0
  | b :: rest => b.toNat + 256 * littleEndian rest

/-- A word of the given count of bytes. -/
def readWord (count : Nat) (bytes : List UInt8) : Option (Nat × List UInt8) :=
  (readBytes count bytes).map fun r => (littleEndian r.1, r.2)

/-- Bytes with their length in front. -/
def readDelimited (bytes : List UInt8) : Option (List UInt8 × List UInt8) := do
  let (size, rest) ← readSmall (Nat.pow 2 31) bytes
  readBytes size rest

/-- The number and the payload form at the start of a field. -/
def readTag (bytes : List UInt8) : Option ((Nat × Nat) × List UInt8) :=
  (readSmall (Nat.pow 2 32) bytes).bind fun r =>
    if r.1 / 8 = 0 then none else some ((r.1 / 8, r.1 % 8), r.2)

/-- The payload of a form, where a group is read as given. -/
def readPayload (readGroup : List UInt8 → Option (List UInt8 × List UInt8)) (form : Nat)
    (bytes : List UInt8) : Option (Payload × List UInt8) :=
  match form with
  | 0 => (readVarint64 bytes).map fun r => (.varint r.1, r.2)
  | 1 => (readWord 8 bytes).map fun r => (.word64 r.1, r.2)
  | 2 => (readDelimited bytes).map fun r => (.delimited r.1, r.2)
  | 3 => (readGroup bytes).map fun r => (.group r.1, r.2)
  | 5 => (readWord 4 bytes).map fun r => (.word32 r.1, r.2)
  | _ => none

/-- The bytes before the end mark of a group that is open, and those after it.  At most `steps`
fields and end marks are read. -/
def readGroup : Nat → Nat → Nat → List UInt8 → Option (List UInt8 × List UInt8)
  | 0, _, _, _ => none
  | _, 0, _, _ => none
  | steps + 1, depth + 1, number, bytes => do
    let ((inner, form), rest) ← readTag bytes
    if form = 4 then
      if inner = number then some ([], rest) else none
    else
      let (_, rest) ← readPayload (fun bytes => readGroup steps depth inner bytes) form rest
      let (content, after) ← readGroup steps (depth + 1) number rest
      return (bytes.take (bytes.length - rest.length) ++ content, after)

/-- The field at the start of bytes, and the bytes after it. -/
def readField (depth : Nat) (bytes : List UInt8) : Option (Field × List UInt8) := do
  let ((number, form), rest) ← readTag bytes
  let (payload, rest) ← readPayload (readGroup (rest.length + 1) depth number) form rest
  return (⟨number, payload, bytes.take (bytes.length - rest.length)⟩, rest)

/-- The fields in bytes, at most `steps` of them. -/
def parseWithin (depth : Nat) : Nat → List UInt8 → Option (List Field)
  | _, [] => some []
  | 0, _ => none
  | steps + 1, bytes => do
    let (field, rest) ← readField depth bytes
    let fields ← parseWithin depth steps rest
    return field :: fields

/-- The fields of a message, with groups at most `depth` deep. -/
def parse (depth : Nat) (bytes : List UInt8) : Option (List Field) :=
  parseWithin depth bytes.length bytes

/-! ## Numbers in varints -/

/-- The signed number of a count of bits in the low bits of a number. -/
def signed (bits n : Nat) : Int :=
  let low := n % Nat.pow 2 bits
  if low < Nat.pow 2 (bits - 1) then low else (low : Int) - (Nat.pow 2 bits : Nat)

/-- The number that a zigzag code of a count of bits stands for. -/
def zigzag (bits n : Nat) : Int :=
  let low := n % Nat.pow 2 bits
  if low % 2 = 0 then ((low / 2 : Nat) : Int) else -((low / 2 : Nat) : Int) - 1

/-! ## Writing -/

/-- The bytes of a number as a varint, at most `limit` of them. -/
def encodeVarint : Nat → Nat → List UInt8
  | 0, _ => []
  | limit + 1, n =>
    if n < 128 then [UInt8.ofNat n] else UInt8.ofNat (n % 128 + 128) :: encodeVarint limit (n / 128)

/-- The bytes of the number and the payload form of a field. -/
def encodeTag (number form : Nat) : List UInt8 :=
  encodeVarint 5 (number * 8 + form)

/-- The bytes of a varint field. -/
def encodeVarintField (number n : Nat) : List UInt8 :=
  encodeTag number 0 ++ encodeVarint 10 n

/-- The bytes of a number, the lowest first. -/
def encodeWord : Nat → Nat → List UInt8
  | 0, _ => []
  | count + 1, n => UInt8.ofNat (n % 256) :: encodeWord count (n / 256)

/-- The bytes of a delimited field. -/
def encodeDelimited (number : Nat) (content : List UInt8) : List UInt8 :=
  encodeTag number 2 ++ encodeVarint 10 content.length ++ content

/-- The bytes of a text. -/
def utf8 (s : String) : List UInt8 :=
  s.toUTF8.toList

/-- The text of bytes, if they are one. -/
def ofUtf8? (bytes : List UInt8) : Option String :=
  String.fromUTF8? (ByteArray.mk bytes.toArray)

example : readVarint64 [0x96, 0x01, 0x07] = some (150, [0x07]) := by decide +kernel
example : (parse 1 [0x08, 0x01, 0x12, 0x01, 0x61]).map List.length = some 2 := by decide +kernel
example : (parse 1 [0x0a, 0x02, 0x61]).isNone := by decide +kernel
example : encodeDelimited 1 [0x61] = [0x0a, 0x01, 0x61] := by decide +kernel

end SchemaScript.Wire
