import SchemaScript.Wire.Reading

/-!
# Writing records

The bytes of the content of a message, in the one order that writing has: the set fields by their
numbers, the values of a field one after the other, and last the bytes of the fields that mean
nothing to its type.  Every number is written in its shortest form.
-/

namespace SchemaScript.Wire

/-- The zigzag code of a number, modulo 2 ^ `bits`. -/
def zigzagCode (bits : Nat) (n : Int) : Nat :=
  ((if 0 ≤ n then 2 * n else -2 * n - 1) % (Nat.pow 2 bits : Nat)).toNat

/-- The number in the payload for a value of a type. -/
def numberCode (t : FieldType) : Datum → Nat
  | .int n =>
    match t with
    | .scalar .sint32 => zigzagCode 32 n
    | .scalar .sint64 => zigzagCode 64 n
    | .scalar .sfixed32 => (n % (Nat.pow 2 32 : Nat)).toNat
    | _ => (n % (Nat.pow 2 64 : Nat)).toNat
  | .bool b => if b then 1 else 0
  | .double d => d.bits.toNat
  | .single s => s.bits.toNat
  | .enum n => (n % (Nat.pow 2 64 : Nat)).toNat
  | _ => 0

/-- The bytes of a field of a number. -/
def encodeNumber (number : Nat) (form : NumberForm) (n : Nat) : List UInt8 :=
  match form with
  | .varint => encodeVarintField number n
  | .word32 => encodeTag number 5 ++ encodeWord 4 n
  | .word64 => encodeTag number 1 ++ encodeWord 8 n

/-- The bytes of a field of a message. -/
def encodeMessage (number : Nat) (t : FieldType) (content : List UInt8) : List UInt8 :=
  if t = .group then encodeTag number 3 ++ content ++ encodeTag number 4
  else encodeDelimited number content

mutual

/-- The bytes of a field with a value. -/
def Datum.encode (shapes : Shapes) (f : FieldShape) : Datum → List UInt8
  | .text s => encodeDelimited f.number (utf8 s)
  | .bytes content => encodeDelimited f.number content
  | .message fields rest =>
    encodeMessage f.number f.type (encodeFields shapes (shapes.inner f) fields ++ rest)
  | d => ((numberForm? f.type).map fun form =>
      encodeNumber f.number form (numberCode f.type d)).getD []

/-- The bytes of a field with values in order. -/
def encodeAll (shapes : Shapes) (f : FieldShape) : List Datum → List UInt8
  | [] => []
  | d :: rest => d.encode shapes f ++ encodeAll shapes f rest

/-- The bytes of the set fields of a message. -/
def encodeFields (shapes : Shapes) (shape : MessageShape) : List (Nat × List Datum) → List UInt8
  | [] => []
  | (number, values) :: rest =>
    (match shape.field? number with
      | some f => encodeAll shapes f values
      | none => []) ++ encodeFields shapes shape rest

end

/-- The bytes of a content. -/
def Shapes.write (shapes : Shapes) (shape : MessageShape) (c : Content) : List UInt8 :=
  encodeFields shapes shape c.fields ++ c.rest

example : zigzagCode 32 (-1) = 1 ∧ zigzagCode 64 2 = 4 := by decide

end SchemaScript.Wire
