import SchemaScript.Constant
import SchemaScript.Number.Layout
import SchemaScript.Table
import SchemaScript.Text.Display

/-!
# Values

The values that options hold and that a field can be given where a number or a constant is expected.

A scalar value has no parts.  Several scalars can stand for one number: the integer 1, the truth
value, the double 1.0 and every constant of ordinal 1.  `Scalar.number?` is that number.

A value is a scalar, a list, a tuple, a table, or one of three things that no script literal exists
for: bytes, a set, and an object of unknown make.  The keys of a table are values too: scalars,
bytes and tuples of them.

`Value.same` tells whether two values are the same key.  Scalars are by the numbers that they stand
for, bytes by their content, and tuples part by part.  What is no number is the same only as itself,
and a double that is no number is not even that.

A value has two texts.  `Value.plain` is the one that stands in a line or serves as a key of an
object, and `Value.displayed` the one that a message quotes.  They differ for texts and for
constants.  The parts of a value are displayed in both.  Neither is asked for of a value with an
integer in it that is too long to be written (`Value.isShort`).
-/

namespace SchemaScript

/-! ## Scalars -/

/-- A value without parts. -/
inductive Scalar where
  | null
  | bool (b : Bool)
  | int (n : Int)
  | double (d : Double)
  | text (s : String)
  | constant (c : Constant)
deriving DecidableEq, Repr

namespace Scalar

/-- The whole number that a scalar stands for, if it does. -/
def number? : Scalar → Option Int
  | .bool b => some (if b then 1 else 0)
  | .int n => some n
  | .double d => d.toInt?
  | .constant c => some c.ordinal
  | .null => none
  | .text _ => none

/-- Whether a scalar is a double that is no number. -/
def isNaN : Scalar → Bool
  | .double d => d.isNaN
  | _ => false

/-- Whether two scalars are the same key. -/
def same (a b : Scalar) : Bool :=
  match a.number?, b.number? with
  | some m, some n => m == n
  | none, none => a == b && !a.isNaN
  | _, _ => false

/-- Whether a scalar is no integer that is too long to be written. -/
def isShort : Scalar → Bool
  | .int n => isShortInt n
  | _ => true

/-- A scalar as it stands in a line. -/
def plain : Scalar → String
  | .null => "None"
  | .bool true => "True"
  | .bool false => "False"
  | .int n => intText n
  | .double d => d.text .message
  | .text s => s
  | .constant c => intText c.ordinal

/-- A scalar as a message quotes it. -/
def displayed : Scalar → String
  | .text s => Text.displayed s
  | .constant c => "<" ++ c.qualifiedName ++ ": " ++ intText c.ordinal ++ ">"
  | s => s.plain

end Scalar

/-! ## Values -/

/-- A value of an option. -/
inductive Value where
  | scalar (s : Scalar)
  | list (items : List Value)
  | tuple (items : List Value)
  | table (entries : List (Value × Value))
  | bytes (content : List UInt8)
  | set
  | object

namespace Value

/-! ## Equality -/

mutual

/-- Whether two values are equal. -/
def beq : Value → Value → Bool
  | .scalar a, .scalar b => decide (a = b)
  | .list as, .list bs => beqAll as bs
  | .tuple as, .tuple bs => beqAll as bs
  | .table as, .table bs => beqEntries as bs
  | .bytes as, .bytes bs => decide (as = bs)
  | .set, .set => true
  | .object, .object => true
  | _, _ => false

/-- Whether two lists of values are equal. -/
def beqAll : List Value → List Value → Bool
  | [], [] => true
  | a :: as, b :: bs => beq a b && beqAll as bs
  | _, _ => false

/-- Whether two lists of entries are equal. -/
def beqEntries : List (Value × Value) → List (Value × Value) → Bool
  | [], [] => true
  | (j, a) :: as, (k, b) :: bs => beq j k && beq a b && beqEntries as bs
  | _, _ => false

end

mutual

theorem beq_iff (a b : Value) : beq a b = true ↔ a = b := by
  cases a with
  | scalar s => cases b <;> simp [beq]
  | list as =>
    cases b with
    | list bs => simp [beq, beqAll_iff as bs]
    | _ => simp [beq]
  | tuple as =>
    cases b with
    | tuple bs => simp [beq, beqAll_iff as bs]
    | _ => simp [beq]
  | table as =>
    cases b with
    | table bs => simp [beq, beqEntries_iff as bs]
    | _ => simp [beq]
  | bytes as => cases b <;> simp [beq]
  | set => cases b <;> simp [beq]
  | object => cases b <;> simp [beq]

theorem beqAll_iff (as bs : List Value) : beqAll as bs = true ↔ as = bs := by
  cases as with
  | nil => cases bs <;> simp [beqAll]
  | cons a as =>
    cases bs with
    | nil => simp [beqAll]
    | cons b bs => simp [beqAll, beq_iff a b, beqAll_iff as bs]

theorem beqEntries_iff (as bs : List (Value × Value)) : beqEntries as bs = true ↔ as = bs := by
  cases as with
  | nil => cases bs <;> simp [beqEntries]
  | cons a as =>
    cases bs with
    | nil => simp [beqEntries]
    | cons b bs =>
      obtain ⟨j, v⟩ := a
      obtain ⟨k, w⟩ := b
      simp [beqEntries, beq_iff j k, beq_iff v w, beqEntries_iff as bs]

end

instance : DecidableEq Value := fun a b =>
  decidable_of_iff (beq a b = true) (beq_iff a b)

/-! ## Numbers -/

/-- The whole number that a value stands for, if it does. -/
def number? : Value → Option Int
  | .scalar s => s.number?
  | _ => none

/-! ## Keys -/

mutual

/-- Whether two values are the same key. -/
def same : Value → Value → Bool
  | .scalar a, .scalar b => a.same b
  | .tuple as, .tuple bs => sameAll as bs
  | .bytes as, .bytes bs => decide (as = bs)
  | _, _ => false

/-- Whether the values of two lists are the same keys one by one. -/
def sameAll : List Value → List Value → Bool
  | [], [] => true
  | a :: as, b :: bs => same a b && sameAll as bs
  | _, _ => false

end

/-- A text as a value. -/
def text (s : String) : Value :=
  .scalar (.text s)

/-- The table of the pairs, put in one after the other.  Keys that are the same fall together. -/
def tableOf (pairs : List (Value × Value)) : List (Value × Value) :=
  pairs.foldl (fun entries p => Table.putWhere (·.same p.1) p.1 p.2 entries) []

/-! ## Texts -/

mutual

/-- Whether no integer in a value is too long to be written. -/
def isShort : Value → Bool
  | .scalar s => s.isShort
  | .list items => allShort items
  | .tuple items => allShort items
  | .table entries => entriesShort entries
  | .bytes _ | .set | .object => true

/-- Whether no integer in values is too long to be written. -/
def allShort : List Value → Bool
  | [] => true
  | v :: rest => isShort v && allShort rest

/-- Whether no integer in entries is too long to be written. -/
def entriesShort : List (Value × Value) → Bool
  | [] => true
  | (key, v) :: rest => isShort key && isShort v && entriesShort rest

end

/-- The parts of a tuple as they are shown.  A comma follows a part that is the only one. -/
def displayedParts : List String → String
  | [part] => "(" ++ part ++ ",)"
  | parts => "(" ++ ", ".intercalate parts ++ ")"

mutual

/-- A value as a message quotes it. -/
def displayed : Value → String
  | .scalar s => s.displayed
  | .list items => "[" ++ ", ".intercalate (displayedAll items) ++ "]"
  | .tuple items => displayedParts (displayedAll items)
  | .table entries => "\x7b" ++ ", ".intercalate (displayedEntries entries) ++ "\x7d"
  | .bytes content => Text.displayedBytes content
  | .set => "set()"
  | .object => "<object object>"

/-- Values in order as a message quotes them. -/
def displayedAll : List Value → List String
  | [] => []
  | v :: rest => displayed v :: displayedAll rest

/-- Entries in order as a message quotes them. -/
def displayedEntries : List (Value × Value) → List String
  | [] => []
  | (key, v) :: rest => (displayed key ++ ": " ++ displayed v) :: displayedEntries rest

end

/-- A value as it stands in a line. -/
def plain : Value → String
  | .scalar s => s.plain
  | v => v.displayed

end Value

/-! ## Kinds -/

/-- The name of the kind of a value, as messages give it. -/
def Value.kindName : Value → String
  | .scalar .null => "NoneType"
  | .scalar (.bool _) => "bool"
  | .scalar (.int _) => "int"
  | .scalar (.double _) => "float"
  | .scalar (.text _) => "str"
  | .scalar (.constant c) => c.family.name
  | .list _ => "list"
  | .tuple _ => "tuple"
  | .table _ => "dict"
  | .bytes _ => "bytes"
  | .set => "set"
  | .object => "object"

/-- The kinds of values that no script literal exists for. -/
inductive Unwritable where
  | bytes
  | set
  | object
  /-- The values of a repeated field. -/
  | row
deriving DecidableEq, Repr

/-- The name of a kind of values. -/
def Unwritable.name : Unwritable → String
  | .bytes => "bytes"
  | .set => "set"
  | .object => "object"
  | .row => "RepeatedScalarContainer"

example : (Value.tuple [.scalar (.int 1)]).plain = "(1,)" ∧ (Value.tuple []).plain = "()" := by
  decide +kernel
example : (Value.table [(.text "k", .list [.scalar (.bool true)])]).plain =
    "\x7b'k': [True]\x7d" := by
  decide +kernel
example : (Scalar.int 1).same (.bool true) ∧ (Scalar.int 1).same (.constant (.long .string)) := by
  decide +kernel
example : (Scalar.constant (.long .number)).displayed = "<LongType.NUMBER: 2>" := by decide +kernel

end SchemaScript
