import SchemaScript.Table

/-!
# Parameters

The parameters of a run are pairs of a name and a value, in order.

A run gets them as one text.  Pairs are separated by commas, the name ends at the first equals sign,
and a pair without one has an empty value.  Empty pairs are skipped, and of several pairs of one
name the last counts, at the position of the first.

`join` writes the text, and leaves the equals sign out before an empty value.  What it writes is
read back as it was if no name holds a comma or an equals sign, no value holds a comma, and not both
the name and the value of a pair are empty.
-/

namespace SchemaScript

/-- The parameters of a run. -/
abbrev Parameters := Table String String

namespace Parameters

/-- The name and the value of a pair. -/
def splitPair (pair : List Char) : String × String :=
  (String.ofList (pair.takeWhile (· != '=')), String.ofList ((pair.dropWhile (· != '=')).drop 1))

/-- The parameters in a text. -/
def parse (text : String) : Parameters :=
  Table.ofList (((text.toList.splitOn ',').filter fun pair => !pair.isEmpty).map splitPair)

/-- A pair as a text.  An empty value is left out with its equals sign. -/
def joinPair (pair : String × String) : String :=
  if pair.2 = "" then pair.1 else pair.1 ++ "=" ++ pair.2

/-- The parameters as a text. -/
def join (parameters : Parameters) : String :=
  ",".intercalate (parameters.entries.map joinPair)

end Parameters

example : (Parameters.parse "a=,b,a=1=2").entries = [("a", "1=2"), ("b", "")] := by
  decide +kernel
example : Parameters.join ⟨[("a", "1=2"), ("b", "")]⟩ = "a=1=2,b" := by decide +kernel

end SchemaScript
