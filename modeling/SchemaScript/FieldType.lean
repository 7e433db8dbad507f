import SchemaScript.Constant

/-!
# Field types

The types that a schema gives to fields, with the numbers under which a schema file names them, and
the three ways in which a field can occur.

Fifteen of the eighteen types are scalar types of the runtime, under the same numbers.  The other
three are groups, messages and enums, which refer to a declaration.
-/

namespace SchemaScript

/-- The type of a field. -/
inductive FieldType where
  | scalar (t : ScalarType)
  | group
  | message
  | enumeration
deriving DecidableEq, Repr

namespace FieldType

/-- The number of a type. -/
def code : FieldType → Nat
  | .scalar t => t.ordinal
  | .group => 10
  | .message => 11
  | .enumeration => 14

/-- The name of a type. -/
def name : FieldType → String
  | .scalar t => t.name
  | .group => "GROUP"
  | .message => "MESSAGE"
  | .enumeration => "ENUM"

/-- The type with a number. -/
def ofCode? (code : Int) : Option FieldType :=
  if code = 10 then some .group
  else if code = 11 then some .message
  else if code = 14 then some .enumeration
  else (ScalarType.ofOrdinal? code).map .scalar

/-- Whether a type refers to a message. -/
def isMessage : FieldType → Bool
  | .group => true
  | .message => true
  | _ => false

end FieldType

/-- How often a field occurs. -/
inductive Cardinality where
  | optional
  | required
  | repeated
deriving DecidableEq, Repr

namespace Cardinality

/-- The name of a cardinality. -/
def name : Cardinality → String
  | .optional => "OPTIONAL"
  | .required => "REQUIRED"
  | .repeated => "REPEATED"

/-- The cardinality with a number. -/
def ofCode? (code : Int) : Option Cardinality :=
  if code = 1 then some .optional
  else if code = 2 then some .required
  else if code = 3 then some .repeated
  else none

end Cardinality

end SchemaScript
