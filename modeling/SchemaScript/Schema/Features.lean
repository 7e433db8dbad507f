/-!
# Features

Four questions on how the messages of a schema lie on the wire, which the dialect of a file answers
for all declarations in it.

* Is a field told from its zero, or is its presence implicit?
* Is an enum closed, so that numbers without a name are no values of it?
* Are texts checked to be UTF-8?
* Are messages in fields written as groups?

In the newest dialect the answers are no more than a start.  A file, and every declaration in it,
can choose each answer anew, for itself and for what is declared in it (`Features.choosing`).
-/

namespace SchemaScript

/-- The answers for a declaration. -/
structure Features where
  /-- Whether a field is not told from its zero. -/
  implicit : Bool
  /-- Whether an enum has no other values than those declared. -/
  closed : Bool
  /-- Whether texts must be UTF-8. -/
  checked : Bool
  /-- Whether messages are written as groups. -/
  grouped : Bool
deriving DecidableEq, Repr

/-- The answers that a declaration chooses. -/
structure FeatureChoices where
  implicit : Option Bool
  closed : Option Bool
  checked : Option Bool
  grouped : Option Bool
deriving DecidableEq, Repr

namespace FeatureChoices

/-- No answer is chosen. -/
def none : FeatureChoices :=
  ⟨.none, .none, .none, .none⟩

/-- The number that stands for yes in each of the four options: implicit presence, closed enums,
checked texts and messages as groups. -/
def yes : Int :=
  2

/-- The choices by the numbers of the four options. -/
def ofNumbers (presence enumType textCheck encoding : Option Int) : FeatureChoices :=
  ⟨presence.map (· == yes), enumType.map (· == yes), textCheck.map (· == yes),
    encoding.map (· == yes)⟩

end FeatureChoices

namespace Features

/-- The answers of a dialect.  A file that names no dialect is in the older one. -/
def ofDialect (dialect : String) : Features :=
  if dialect = "" ∨ dialect = "proto2" then ⟨false, true, false, false⟩
  else if dialect = "proto3" then ⟨true, false, true, false⟩
  else ⟨false, false, true, false⟩

/-- The answers with those chosen anew. -/
def choosing (f : Features) (c : FeatureChoices) : Features :=
  ⟨c.implicit.getD f.implicit, c.closed.getD f.closed, c.checked.getD f.checked,
    c.grouped.getD f.grouped⟩

end Features

end SchemaScript
