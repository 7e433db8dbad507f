import SchemaScript.Draft.Edit
import SchemaScript.Expr.OfValue
import SchemaScript.Expr.Printer
import SchemaScript.FieldInfo.Basic
import SchemaScript.Schema.Registry

/-!
# Field literals

The object literal that gives the information about a field to the runtime.

The information is minimized first, so a property is written only where the runtime would not fill
it in.  The properties come in a fixed order: the number, the name, the kind, the two names and the
oneof, the repetition, whether the field is optional, the properties of the kind, and the options.

An enum or a message is always referred to through an arrow function, since the module that exports
it may not have been evaluated yet when the literal is.  A runtime constant is written inline, as
its ordinal with its name in a comment, or qualified, as a member of an enumeration imported from
the runtime.

Before anything is imported the kind is checked: its references must find declarations, and no map
has maps for values.  What fails later, a number that is no constant or a value without a literal,
can leave imports behind that were made for the properties before it.
-/

namespace SchemaScript.FieldInfo

/-- How field literals are written. -/
structure Writer where
  /-- The declarations that references are looked up in. -/
  registry : Registry
  /-- The module that exports the runtime enumerations. -/
  runtime : ImportPath
  /-- Whether runtime constants are written by their ordinals. -/
  inlined : Bool

/-- The properties of an object literal. -/
abbrev Properties := List (String × Expr)

namespace Writer

/-! ## Constants -/

/-- Why a value is no member of a family.  The message quotes the value, which has to be short. -/
def refusal (family : Family) (value : Value) : Error :=
  if value.isShort then .notMember value (.family family) else .tooManyDigits

/-- The member of a family that a value is.  A constant of another family is refused, whatever its
ordinal. -/
def memberOf (family : Family) (value : Value) : Except Error Constant :=
  match value with
  | .scalar (.constant c) => if c.family = family then .ok c else .error (refusal family value)
  | _ =>
    match value.number?.bind family.member? with
    | some c => .ok c
    | none => .error (refusal family value)

/-- A runtime constant. -/
def constant (w : Writer) (family : Family) (value : Value) : Edit Expr := do
  let c ← Edit.ofExcept (memberOf family value)
  if w.inlined then
    return .number (.int c.ordinal) (some c.qualifiedName)
  else
    let localName ← Edit.request ⟨w.runtime, family.name⟩
    return .access (.ident localName) c.name

/-! ## References -/

/-- The name of a referenced declaration in the module, and the module that exports it. -/
def reference (w : Writer) (typeName referrer : String) : Edit (String × ImportPath) := do
  match w.registry.declared? typeName with
  | none =>
    let file ← Edit.view Draft.name
    Edit.fail (.unresolved file referrer typeName)
  | some declared =>
    let localName ← Edit.request declared.symbol
    let file ← Edit.view Draft.name
    Edit.tell (.referred file referrer typeName localName)
    return (localName, declared.symbol.module)

/-- A text without the dots at its start. -/
def withoutDots (s : String) : String :=
  String.ofList (s.toList.dropWhile (· == '.'))

/-- The function that gives the information about an enum. -/
def enumFunction (w : Writer) (typeName : String) (sharedStem : Option String)
    (referrer : String) : Edit Expr := do
  let (localName, _) ← w.reference typeName referrer
  let stem :=
    match sharedStem with
    | some s => if s = "" then [] else [Expr.text s]
    | none => []
  return .arrow (.array ([.text (withoutDots typeName), .ident localName] ++ stem) false)

/-- The function that gives a message type. -/
def messageFunction (w : Writer) (typeName referrer : String) : Edit Expr := do
  let (localName, _) ← w.reference typeName referrer
  return .arrow (.ident localName)

/-! ## Kinds -/

/-- Checks that a type name finds a declaration. -/
def checkReference (w : Writer) (typeName referrer : String) : Edit Unit := do
  match w.registry.declared? typeName with
  | some _ => return ()
  | none =>
    let file ← Edit.view Draft.name
    Edit.fail (.unresolved file referrer typeName)

/-- Checks the references of a kind that is no map. -/
def checkValueKind (w : Writer) (referrer : String) : FieldKind → Edit Unit
  | .enumeration typeName _ => w.checkReference typeName referrer
  | .message typeName => w.checkReference typeName referrer
  | _ => return ()

/-- Checks a kind. -/
def checkKind (w : Writer) (referrer : String) : FieldKind → Edit Unit
  | .map _ value =>
    if value.isMap then Edit.fail (.nestedMapField referrer) else w.checkValueKind referrer value
  | kind => w.checkValueKind referrer kind

/-- A property that may be absent. -/
def whenSome (key : String) (write : Value → Edit Expr) : Option Value → Edit Properties
  | none => return []
  | some value => do
    let e ← write value
    return [(key, e)]

/-- The properties of a kind. -/
def kindProperties (w : Writer) (referrer : String) : FieldKind → Edit Properties
  | .scalar type long => do
    let t ← w.constant .scalarType type
    let l ← whenSome "L" (w.constant .longType) long
    return ("T", t) :: l
  | .enumeration typeName sharedStem => do
    let t ← w.enumFunction typeName sharedStem referrer
    return [("T", t)]
  | .message typeName => do
    let t ← w.messageFunction typeName referrer
    return [("T", t)]
  | .map key value => do
    let k ← w.constant .scalarType key
    if value.isMap then
      Edit.fail (.nestedMapField referrer)
    else
      let ps ← w.kindProperties referrer value
      return [("K", k), ("V", .object (("kind", .text value.word) :: ps) false)]

/-- The literal for the values of a map. -/
def mapValue (w : Writer) (kind : FieldKind) (referrer : String) : Edit Expr :=
  if kind.isMap then
    Edit.fail (.nestedMapField referrer)
  else do
    let ps ← w.kindProperties referrer kind
    return .object (("kind", .text kind.word) :: ps) false

/-! ## Fields -/

/-- The property of a text, if there is one. -/
def textProperty (key : String) (value : Option String) : Properties :=
  match value with
  | some s => [(key, .text s)]
  | none => []

/-- The property of a truth value, if there is one. -/
def boolProperty (key : String) (value : Option Bool) : Properties :=
  match value with
  | some b => [(key, .bool b)]
  | none => []

/-- The property of the options, if there are any. -/
def optionsProperty (options : Option (List (Value × Value))) : Except Error Properties :=
  match options with
  | none => .ok []
  | some [] => .ok []
  | some entries => (Expr.ofValue (.table entries)).map fun e => [("options", e)]

/-- The properties of the literal for information that is minimized already. -/
def minimizedProperties (w : Writer) (i : FieldInfo) : Edit Properties := do
  w.checkKind i.name i.kind
  let number ← Edit.ofExcept (Expr.ofValue i.number)
  let repetition ← whenSome "repeat" (w.constant .repeatType) i.repetition
  let kind ← w.kindProperties i.name i.kind
  let options ← Edit.ofExcept (optionsProperty i.options)
  return [("no", number), ("name", .text i.name), ("kind", .text i.kind.word)] ++
    textProperty "localName" i.localName ++ textProperty "jsonName" i.jsonName ++
    textProperty "oneof" i.oneof ++ repetition ++ boolProperty "opt" i.optional ++ kind ++ options

/-- The properties of the literal for a field. -/
def properties (w : Writer) (i : FieldInfo) : Edit Properties :=
  w.minimizedProperties i.minimized

/-- The literal for a field. -/
def literal (w : Writer) (i : FieldInfo) : Edit Expr := do
  let ps ← w.properties i
  return .object ps false

/-- The array literal for fields in order, with a line for each. -/
def literals (w : Writer) (is : List FieldInfo) : Edit Expr := do
  let es ← Edit.collect w.literal is
  return .array es true

end Writer

end SchemaScript.FieldInfo
