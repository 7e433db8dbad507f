/-!
# Runtime constants

The three enumerations that the runtime of the generated modules reads field information with: how
a field repeats, which scalar type it has, and which type stands for its 64-bit integers.

A constant is a member of one of the families.  It has an ordinal, which is what the runtime
compares, and a name.  The ordinals of the scalar types are those of the field types of a schema.
Groups, messages and enums are no scalars, so 10, 11 and 14 are not among them.

`Family.member?` finds the member of a family by its ordinal, and `Family.member?_ordinal` says that
it finds every constant again.
-/

namespace SchemaScript

/-- Whether a field is repeated, and how its values are written one after the other. -/
inductive RepeatType where
  | no
  | packed
  | unpacked
deriving DecidableEq, Repr

/-- The types of single values other than messages and enums. -/
inductive ScalarType where
  | double
  | float
  | int64
  | uint64
  | int32
  | fixed64
  | fixed32
  | bool
  | string
  | bytes
  | uint32
  | sfixed32
  | sfixed64
  | sint32
  | sint64
deriving DecidableEq, Repr

/-- The type that stands for 64-bit integers. -/
inductive LongType where
  | bigint
  | string
  | number
deriving DecidableEq, Repr

/-- The enumerations of the runtime. -/
inductive Family where
  | repeatType
  | scalarType
  | longType
deriving DecidableEq, Repr

/-- A member of one of the families. -/
inductive Constant where
  | repetition (r : RepeatType)
  | scalar (t : ScalarType)
  | long (l : LongType)
deriving DecidableEq, Repr

/-! ## Ordinals and names -/

/-- The ordinal of a repetition. -/
def RepeatType.ordinal : RepeatType → Nat
  | .no => 0
  | .packed => 1
  | .unpacked => 2

/-- The name of a repetition. -/
def RepeatType.name : RepeatType → String
  | .no => "NO"
  | .packed => "PACKED"
  | .unpacked => "UNPACKED"

/-- The ordinal of a scalar type. -/
def ScalarType.ordinal : ScalarType → Nat
  | .double => 1
  | .float => 2
  | .int64 => 3
  | .uint64 => 4
  | .int32 => 5
  | .fixed64 => 6
  | .fixed32 => 7
  | .bool => 8
  | .string => 9
  | .bytes => 12
  | .uint32 => 13
  | .sfixed32 => 15
  | .sfixed64 => 16
  | .sint32 => 17
  | .sint64 => 18

/-- The name of a scalar type. -/
def ScalarType.name : ScalarType → String
  | .double => "DOUBLE"
  | .float => "FLOAT"
  | .int64 => "INT64"
  | .uint64 => "UINT64"
  | .int32 => "INT32"
  | .fixed64 => "FIXED64"
  | .fixed32 => "FIXED32"
  | .bool => "BOOL"
  | .string => "STRING"
  | .bytes => "BYTES"
  | .uint32 => "UINT32"
  | .sfixed32 => "SFIXED32"
  | .sfixed64 => "SFIXED64"
  | .sint32 => "SINT32"
  | .sint64 => "SINT64"

/-- Whether a scalar type is a 64-bit integer. -/
def ScalarType.isLong : ScalarType → Bool
  | .int64 | .uint64 | .fixed64 | .sfixed64 | .sint64 => true
  | _ => false

/-- The ordinal of a long type. -/
def LongType.ordinal : LongType → Nat
  | .bigint => 0
  | .string => 1
  | .number => 2

/-- The name of a long type. -/
def LongType.name : LongType → String
  | .bigint => "BIGINT"
  | .string => "STRING"
  | .number => "NUMBER"

/-- The name of a family. -/
def Family.name : Family → String
  | .repeatType => "RepeatType"
  | .scalarType => "ScalarType"
  | .longType => "LongType"

namespace Constant

/-- The family of a constant. -/
def family : Constant → Family
  | .repetition _ => .repeatType
  | .scalar _ => .scalarType
  | .long _ => .longType

/-- The ordinal of a constant in its family. -/
def ordinal : Constant → Nat
  | .repetition r => r.ordinal
  | .scalar t => t.ordinal
  | .long l => l.ordinal

/-- The name of a constant in its family. -/
def name : Constant → String
  | .repetition r => r.name
  | .scalar t => t.name
  | .long l => l.name

/-- The name of a constant after that of its family. -/
def qualifiedName (c : Constant) : String :=
  c.family.name ++ "." ++ c.name

end Constant

/-! ## Members by ordinal -/

/-- The scalar types in the order of their ordinals. -/
def ScalarType.all : List ScalarType :=
  [.double, .float, .int64, .uint64, .int32, .fixed64, .fixed32, .bool, .string, .bytes, .uint32,
    .sfixed32, .sfixed64, .sint32, .sint64]

/-- The members of a family in the order of their ordinals. -/
def Family.members : Family → List Constant
  | .repeatType => [.repetition .no, .repetition .packed, .repetition .unpacked]
  | .scalarType => ScalarType.all.map .scalar
  | .longType => [.long .bigint, .long .string, .long .number]

/-- The member of a family with an ordinal. -/
def Family.member? (f : Family) (ordinal : Int) : Option Constant :=
  f.members.find? fun c => (c.ordinal : Int) = ordinal

/-- The scalar type with an ordinal. -/
def ScalarType.ofOrdinal? (ordinal : Int) : Option ScalarType :=
  ScalarType.all.find? fun t => (t.ordinal : Int) = ordinal

end SchemaScript
