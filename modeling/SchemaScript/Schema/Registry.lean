import SchemaScript.Schema.Declaring
import SchemaScript.Table

/-!
# Registry

The declarations of a schema by their full names, and the files by theirs.  Messages and enums have
tables of their own.  A name that is registered again keeps its position and changes its value.

A reference is looked up in a scope, the full name of a declaration around it.  A reference with a
leading dot is a full name.  Any other reference is put after the scope, then after the scope
without its last component, and so on outward, and last it is taken as a full name itself.  The
first registered name counts (`scopedCandidates` lists the names in this order).
-/

namespace SchemaScript

/-- The declarations of files, by their names. -/
structure Registry where
  files : Table String File
  messages : Table String Message
  enums : Table String Enum

/-- A message or an enum. -/
inductive Declared where
  | message (m : Message)
  | enum (e : Enum)

/-- The symbol of a declaration. -/
def Declared.symbol : Declared → Symbol
  | .message m => m.symbol
  | .enum e => e.symbol

/-- The full name of a declaration. -/
def Declared.fullName : Declared → String
  | .message m => m.fullName
  | .enum e => e.fullName

namespace Registry

/-- The registry without declarations. -/
def empty : Registry :=
  ⟨Table.empty, Table.empty, Table.empty⟩

/-! ## Registering -/

/-- The registry with an enum. -/
def addEnum (r : Registry) (e : Enum) : Registry :=
  { r with enums := r.enums.put e.fullName e }

/-- The registry with enums in order. -/
def addEnums (r : Registry) (es : List Enum) : Registry :=
  es.foldl addEnum r

mutual

/-- The registry with a message, then the messages in it, then the enums in it. -/
def addMessage (r : Registry) : Message → Registry
  | ⟨file, fullName, symbol, parent, location, isMapEntry, oneofs, fields, messages, enums⟩ =>
    let m : Message :=
      ⟨file, fullName, symbol, parent, location, isMapEntry, oneofs, fields, messages, enums⟩
    addEnums (addMessages { r with messages := r.messages.put fullName m } messages) enums

/-- The registry with messages in order. -/
def addMessages (r : Registry) : List Message → Registry
  | [] => r
  | m :: rest => addMessages (addMessage r m) rest

end

/-- The registry with a file and all its declarations. -/
def addFile (r : Registry) (f : File) : Registry :=
  addEnums (addMessages { r with files := r.files.put f.header.name f } f.messages) f.enums

/-! ## Looking up -/

/-- The reference without the dot at its start. -/
def withoutDot (reference : String) : String :=
  match reference.toList with
  | '.' :: rest => String.ofList rest
  | _ => reference

/-- Whether a reference starts with a dot. -/
def isAbsolute (reference : String) : Bool :=
  reference.toList.head? == some '.'

/-- The message or the enum of a full name, which can have a dot at its start. -/
def declared? (r : Registry) (fullName : String) : Option Declared :=
  let name := withoutDot fullName
  match r.messages.get? name with
  | some m => some (.message m)
  | none => (r.enums.get? name).map .enum

/-- The components of a scope. -/
def scopeComponents (scope : String) : List String :=
  if scope = "" then [] else (scope.toList.splitOn '.').map String.ofList

/-- The scopes around a declaration, the innermost first, by the components of its own. -/
def enclosingScopes (components : List String) : List String :=
  ((List.range components.length).map fun dropped =>
    ".".intercalate (components.take (components.length - dropped)))

/-- The full names that a reference in a scope can mean, the first choice first. -/
def scopedCandidates (scope reference : String) : List String :=
  if isAbsolute reference then
    [withoutDot reference]
  else
    (enclosingScopes (scopeComponents scope)).map (fun s => s ++ "." ++ reference) ++ [reference]

/-- The message that a reference in a scope means. -/
def scopedMessage? (r : Registry) (scope reference : String) : Option Message :=
  (scopedCandidates scope reference).findSome? r.messages.get?

/-- The enum that a reference in a scope means. -/
def scopedEnum? (r : Registry) (scope reference : String) : Option Enum :=
  (scopedCandidates scope reference).findSome? r.enums.get?

end Registry

example : Registry.scopedCandidates "a.B" "C" = ["a.B.C", "a.C", "C"] := by decide +kernel
example : Registry.scopedCandidates "a.B" ".C" = ["C"] := by decide +kernel

end SchemaScript
