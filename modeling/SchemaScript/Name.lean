import SchemaScript.Text.Case

/-!
# Names

The rules by which names of a schema become names of a script.

`lowerCamelCase` is the rule for the default name of a field.  It goes through the name once and
carries one flag, whether the next letter is to be a capital.  An underscore is dropped and sets the
flag.  A digit is kept and sets it as well.  Any other character is written in capitals under the
flag, which it clears.  Without the flag the first character of the name is written small, and
every later one as it is.

`safeProperty` and `safeIdentifier` put a dollar sign after a name that is taken: by a property that
every object has, or by a reserved word of modules.

`camelPath?` is the rule for a path of field names in a message that chooses fields.  An underscore
is dropped and makes the small letter after it a capital, and it must be followed by one.  A path
with a capital letter has no such form, since it could not be told from one with an underscore.

`sharedPrefix?` finds what the value names of an enum have in common with its own name.  Enum
`MyEnum` has the candidate `MY_ENUM_`, which counts only if there are values, all of them start with
it, and each goes on with a capital letter of ASCII and at least one more character of the line.
-/

namespace SchemaScript

/-! ## Fields -/

/-- The rest of a name in camel case.  The flag tells whether a letter becomes a capital. -/
def camelRest : Bool → List Char → List Char
  | _, [] => []
  | up, c :: rest =>
    if c = '_' then camelRest true rest
    else if Text.isDigit c then c :: camelRest true rest
    else if up then Text.upper c ++ camelRest false rest
    else c :: camelRest false rest

/-- A name in camel case, as characters. -/
def camelChars : List Char → List Char
  | [] => []
  | c :: rest =>
    if c = '_' ∨ Text.isDigit c then camelRest false (c :: rest)
    else Text.lower c ++ camelRest false rest

/-- A name in camel case that starts with a small letter. -/
def lowerCamelCase (name : String) : String :=
  String.ofList (camelChars name.toList)

/-- A path in camel case, as characters.  The flag tells whether an underscore stands before. -/
def camelPathChars : Bool → List Char → Option (List Char)
  | afterUnderscore, [] => if afterUnderscore then none else some []
  | afterUnderscore, c :: rest =>
    if Text.isCapital c then none
    else if afterUnderscore then
      if Text.isSmall c then (camelPathChars false rest).map (Text.upper c ++ ·) else none
    else if c = '_' then camelPathChars true rest
    else (camelPathChars false rest).map (c :: ·)

/-- A path of field names in camel case, if it can be told back from it. -/
def camelPath? (path : String) : Option String :=
  (camelPathChars false path.toList).map String.ofList

/-! ## Taken names -/

/-- The properties that a field must not hide. -/
def objectProperties : List String :=
  ["__proto__", "toString", "oneofKind"]

/-- The words that a module can not declare. -/
def reservedWords : List String :=
  ["arguments", "await", "break", "case", "catch", "class", "const", "continue", "debugger",
    "default", "delete", "do", "else", "enum", "eval", "export", "extends", "false", "finally",
    "for", "function", "if", "implements", "import", "in", "instanceof", "interface", "let", "new",
    "null", "package", "private", "protected", "public", "return", "static", "super", "switch",
    "this", "throw", "true", "try", "typeof", "var", "void", "while", "with", "yield"]

/-- A property name that hides no property of objects. -/
def safeProperty (name : String) : String :=
  if name ∈ objectProperties then name ++ "$" else name

/-- A name that a module can declare. -/
def safeIdentifier (name : String) : String :=
  if name ∈ reservedWords then name ++ "$" else name

/-! ## Enum values -/

/-- Whether a character is a capital letter of ASCII. -/
def isCapital (c : Char) : Bool :=
  decide ('A'.toNat ≤ c.toNat ∧ c.toNat ≤ 'Z'.toNat)

/-- A name with an underscore before each capital, and the capitals written small. -/
def underscored (name : List Char) : List Char :=
  name.flatMap fun c => if isCapital c then ['_', c.toLower] else [c]

/-- The characters without one underscore at their start. -/
def dropUnderscore : List Char → List Char
  | '_' :: rest => rest
  | s => s

/-- What the values of an enum are expected to start with. -/
def valueStem (enumName : String) : String :=
  Text.uppercase (String.ofList (dropUnderscore (underscored enumName.toList))) ++ "_"

/-- Whether a value name without its stem is still a name: a capital letter and at least one more
character before a line feed. -/
def isStrippedName : List Char → Bool
  | c :: d :: _ => isCapital c && d != '\n'
  | _ => false

/-- The part of a name after a stem, if it starts with the stem. -/
def afterStem? (stem name : String) : Option (List Char) :=
  if stem.toList <+: name.toList then some (name.toList.drop stem.length) else none

/-- The stem that all value names of an enum share, if they do. -/
def sharedPrefix? (enumName : String) (valueNames : List String) : Option String :=
  let stem := valueStem enumName
  if valueNames ≠ [] ∧ valueNames.all (fun name => (afterStem? stem name).any isStrippedName) then
    some stem
  else
    none

example : lowerCamelCase "foo_bar_2baz" = "fooBar2Baz" := by decide +kernel
example : camelPath? "foo_bar.baz" = some "fooBar.baz" ∧ camelPath? "a_" = none := by decide +kernel
example : camelPath? "fooBar" = none ∧ camelPath? "a_1" = none := by decide +kernel
example : safeProperty "toString" = "toString$" ∧ safeIdentifier "delete" = "delete$" := by
  decide +kernel
example : sharedPrefix? "MyEnum" ["MY_ENUM_AB", "MY_ENUM_CD"] = some "MY_ENUM_" := by
  decide +kernel
example : sharedPrefix? "MyEnum" ["MY_ENUM_A"] = none ∧ sharedPrefix? "MyEnum" [] = none := by
  decide +kernel

end SchemaScript
