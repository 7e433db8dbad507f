import SchemaScript.Number.Binary
import SchemaScript.Text.Display

/-!
# Records

What a message holds once its type is known: for every field that is set its values in order, and
the bytes of all fields that mean nothing to the type, one after the other.  The set fields are in
the order of their numbers, and a field that does not repeat has one value.

A field of texts can hold bytes that are no text.  They are read here as a message quotes them, and
`Content.unreadable` lists where they stand.
-/

namespace SchemaScript.Wire

/-- A value of a field. -/
inductive Datum where
  | int (n : Int)
  | bool (b : Bool)
  | double (d : Double)
  | single (s : Single)
  | text (s : String)
  | bytes (content : List UInt8)
  | enum (n : Int)
  /-- A message with the values of its set fields and the bytes of all others. -/
  | message (fields : List (Nat × List Datum)) (rest : List UInt8)

/-- The values of the set fields, by number in ascending order. -/
abbrev Record := List (Nat × List Datum)

/-- What a message holds. -/
structure Content where
  /-- The values of the set fields. -/
  fields : Record
  /-- The bytes of the fields that mean nothing to the type of the message. -/
  rest : List UInt8

/-- The content of a message in which nothing is set. -/
def Content.empty : Content :=
  ⟨[], []⟩

/-- The message of a content. -/
def Content.datum (c : Content) : Datum :=
  .message c.fields c.rest

namespace Record

/-- The values of a field, none if it is not set. -/
def values (r : Record) (number : Nat) : List Datum :=
  (r.lookup number).getD []

/-- Whether a field is set. -/
def isSet (r : Record) (number : Nat) : Bool :=
  (r.lookup number).isSome

/-- The record with the values of a field set. -/
def set (number : Nat) (values : List Datum) : Record → Record
  | [] => [(number, values)]
  | e :: rest =>
    if number < e.1 then (number, values) :: e :: rest
    else if number = e.1 then (number, values) :: rest
    else e :: set number values rest

/-- The record with values put after those of a field. -/
def append (number : Nat) (values : List Datum) (r : Record) : Record :=
  r.set number (r.values number ++ values)

/-! ## Views -/

/-- The texts of a field. -/
def texts (r : Record) (number : Nat) : List String :=
  (r.values number).filterMap fun
    | .text s => some s
    | .bytes content => some (Text.displayedBytes content)
    | _ => none

/-- The text of a field. -/
def text? (r : Record) (number : Nat) : Option String :=
  (r.texts number).head?

/-- The number of a field, also of an enum field. -/
def int? (r : Record) (number : Nat) : Option Int :=
  match r.values number with
  | [.int n] => some n
  | [.enum n] => some n
  | _ => none

/-- The numbers of a field. -/
def ints (r : Record) (number : Nat) : List Int :=
  (r.values number).filterMap fun
    | .int n => some n
    | _ => none

/-- The truth value of a field, if it is set. -/
def bool? (r : Record) (number : Nat) : Option Bool :=
  match r.values number with
  | [.bool b] => some b
  | _ => none

/-- The truth value of a field, false if it is not set. -/
def bool (r : Record) (number : Nat) : Bool :=
  (r.bool? number).getD false

/-- The contents of a field of messages. -/
def contents (r : Record) (number : Nat) : List Content :=
  (r.values number).filterMap fun
    | .message fields rest => some ⟨fields, rest⟩
    | _ => none

/-- The records of a field of messages. -/
def records (r : Record) (number : Nat) : List Record :=
  (r.contents number).map Content.fields

end Record

/-- Whether a datum is a text. -/
def Datum.isText : Datum → Bool
  | .text _ => true
  | _ => false

/-! ## Bytes -/

mutual

/-- The places of the bytes in a datum at a path. -/
def Datum.unreadable (path : List Nat) : Datum → List (List Nat)
  | .bytes _ => [path]
  | .message fields _ => unreadableIn path fields
  | _ => []

/-- The places of the bytes in the data of a field, from an index on. -/
def unreadableFrom (path : List Nat) (number : Nat) : Nat → List Datum → List (List Nat)
  | _, [] => []
  | i, d :: rest =>
    d.unreadable (path ++ [number, i]) ++ unreadableFrom path number (i + 1) rest

/-- The places of the bytes in the fields of a message at a path. -/
def unreadableIn (path : List Nat) : List (Nat × List Datum) → List (List Nat)
  | [] => []
  | (number, values) :: rest =>
    unreadableFrom path number 0 values ++ unreadableIn path rest

end

/-- The places of the bytes in a message.  A place is a path: the number of a field, the index of a
value in it, and so on inward. -/
def Content.unreadable (c : Content) : List (List Nat) :=
  unreadableIn [] c.fields

end SchemaScript.Wire
