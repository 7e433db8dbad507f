import SchemaScript.Schema.RequestShapes

/-!
# Completeness of descriptors

Whether the messages that a descriptor is made of have all fields that they must have, and how deep
they lie in each other.

A message without a field that it must have can be read but not written.  Only one type of messages
in a descriptor has such fields, a part of the name of an option that no one has understood yet: the
part must be there, and whether it is the name of an extension.  Such options can stand in the
options of every declaration.

A message in a field of another one lies one step deeper, and so does a group, also in a field that
means nothing.
-/

namespace SchemaScript

open Wire

/-! ## Fields that must be there -/

/-- The numbers of the fields that the messages of a type must have. -/
def requiredNumbers (typeName : String) : List Nat :=
  if typeName = "NamePart" then [1, 2] else []

/-- The name of the type of the messages in a field of a type of messages. -/
def memberType (typeName : String) (number : Nat) : String :=
  (((requestShapes.message typeName).field? number).map FieldShape.typeName).getD ""

mutual

/-- Whether a message of a type, and all in it, have the fields that they must have. -/
def Wire.Datum.isComplete (typeName : String) : Datum → Bool
  | .message fields _ =>
    (requiredNumbers typeName).all (fun number => (fields.lookup number).isSome) &&
      fieldsComplete typeName fields
  | _ => true

/-- Whether messages of a type in order are complete. -/
def Wire.allComplete (typeName : String) : List Datum → Bool
  | [] => true
  | d :: rest => d.isComplete typeName && allComplete typeName rest

/-- Whether all messages in the fields of a message of a type are complete. -/
def Wire.fieldsComplete (typeName : String) : List (Nat × List Datum) → Bool
  | [] => true
  | (number, values) :: rest =>
    allComplete (memberType typeName number) values && fieldsComplete typeName rest

end

/-! ## Depth -/

/-- How deep groups lie in each other in bytes of wire fields, `steps` at most. -/
def Wire.groupDepth : Nat → List UInt8 → Nat
  | 0, _ => 0
  | steps + 1, bytes =>
    (((parse bytes.length bytes).getD []).map fun e =>
      match e.payload with
      | .group content => groupDepth steps content + 1
      | _ => 0).foldl max 0

mutual

/-- How deep messages lie in each other in a datum, itself among them. -/
def Wire.Datum.depth : Datum → Nat
  | .message fields rest => max (fieldsDepth fields) (groupDepth rest.length rest) + 1
  | _ => 0

/-- How deep messages lie in each other in data. -/
def Wire.allDepth : List Datum → Nat
  | [] => 0
  | d :: rest => max d.depth (allDepth rest)

/-- How deep messages lie in each other in the fields of a message. -/
def Wire.fieldsDepth : List (Nat × List Datum) → Nat
  | [] => 0
  | (_, values) :: rest => max (allDepth values) (fieldsDepth rest)

end

/-- How deep messages lie in each other in a message. -/
def Wire.Content.depth (c : Content) : Nat :=
  max (fieldsDepth c.fields) (groupDepth c.rest.length c.rest)

end SchemaScript
