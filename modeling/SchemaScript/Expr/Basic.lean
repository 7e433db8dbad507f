import SchemaScript.Value

/-!
# Expressions

The expressions that a generated module is written with: enough for literals, for references to
declarations of other modules and for functions that put off the evaluation of a reference.

Array and object literals keep their parts in order and know whether they are laid out on one line
or with a line for each part.  Properties of an object literal can repeat a key; `Expr.property?`
finds the first of them.

An expression can hold a *misfit*: a value where a number is expected that is none, or an integer
of too many digits.  It stands in its place without harm, and only the text of the expression can
not be written.  `Expr.misfit?` finds the first one in the order of the text.
-/

namespace SchemaScript

/-- The number of a numeric literal. -/
inductive Number where
  | int (n : Int)
  | double (d : Double)
deriving DecidableEq, Repr

/-- The value of a number that is too long to be written. -/
def Number.misfit? : Number → Option Value
  | .int n => if isShortInt n then none else some (.scalar (.int n))
  | .double _ => none

theorem Number.misfit?_int_eq_none_iff {n : Int} :
    (Number.int n).misfit? = none ↔ isShortInt n = true := by
  rw [misfit?]
  cases isShortInt n with
  | false => simp
  | true => simp

/-- An expression of a script. -/
inductive Expr where
  /-- A name. -/
  | ident (name : String)
  /-- A number and a comment that follows it. -/
  | number (value : Number) (comment : Option String)
  /-- A value in place of a number, which has no text. -/
  | misfit (value : Value)
  /-- A text. -/
  | text (s : String)
  /-- A truth value. -/
  | bool (b : Bool)
  /-- A property of the value of an expression. -/
  | access (base : Expr) (name : String)
  /-- A function without parameters that evaluates its body each time it is called. -/
  | arrow (body : Expr)
  /-- An array literal. -/
  | array (elements : List Expr) (multiLine : Bool)
  /-- An object literal. -/
  | object (properties : List (String × Expr)) (multiLine : Bool)

namespace Expr

/-- The keys of an object literal in order.  Other expressions have none. -/
def keys? : Expr → Option (List String)
  | .object properties _ => some (properties.map Prod.fst)
  | _ => none

/-- The first value that an object literal gives to a key. -/
def property? (key : String) : Expr → Option Expr
  | .object properties _ => properties.lookup key
  | _ => none

mutual

/-- The first value without a text in place of a number, in the order of the text. -/
def misfit? : Expr → Option Value
  | .number value _ => value.misfit?
  | .misfit value => some value
  | .access base _ => misfit? base
  | .arrow body => misfit? body
  | .array elements _ => firstMisfit? elements
  | .object properties _ => propertyMisfit? properties
  | .ident _ | .text _ | .bool _ => none

/-- The first value without a text in expressions in order. -/
def firstMisfit? : List Expr → Option Value
  | [] => none
  | e :: rest => (misfit? e).or (firstMisfit? rest)

/-- The first value without a text in properties in order. -/
def propertyMisfit? : List (String × Expr) → Option Value
  | [] => none
  | (_, e) :: rest => (misfit? e).or (propertyMisfit? rest)

end

end Expr

end SchemaScript
