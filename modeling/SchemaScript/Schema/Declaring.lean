import SchemaScript.Name
import SchemaScript.Schema.Declaration

/-!
# Making declarations

From the descriptor of a file to its declarations.

The full name of a declaration is its name after that of the message around it, or after the package
of the file, with a dot between.  Its symbol is exported from the module of the file.  A nested
declaration joins its name to the symbol name of the message around it with an underscore.  A name
at the top gets a dollar sign if it is a reserved word.

Making the declarations checks them: names and comments must be texts, the oneof of a field must
exist, and its type and cardinality must be known numbers.  A message looks at its own name and
comments first, then at its oneofs, its fields, the messages nested in it and its enums, in this
order, and the first fault ends the construction (`Message.declare`).

A name that is no text can stand alone: that of a declaration at the top of a file without a
package.  Then the names in it can not be put after it.
-/

namespace SchemaScript

/-! ## Scopes -/

/-- Where declarations stand: in a file, or in a message of it. -/
structure Scope where
  file : FileHeader
  /-- The message around them. -/
  parent : Option (String × Symbol)
  /-- Whether the full name of the message around them is a text. -/
  isNamed : Bool
  /-- The path of what is around them. -/
  path : List Nat

namespace Scope

/-- The full name of the message around, if there is one. -/
def parentName (s : Scope) : Option String :=
  s.parent.map Prod.fst

/-- A name after a package, or alone where there is no package. -/
def joinName (package name : String) : String :=
  if package = "" then name else package ++ "." ++ name

/-- The full name of a declaration. -/
def fullName (s : Scope) (name : String) : String :=
  match s.parent with
  | some (around, _) => around ++ "." ++ name
  | none => joinName s.file.package name

/-- The symbol of a declaration. -/
def symbol (s : Scope) (name : String) : Symbol :=
  match s.parent with
  | some (_, around) => ⟨s.file.importPath, around.name ++ "_" ++ name⟩
  | none => ⟨s.file.importPath, safeIdentifier name⟩

/-- Checks that the name of a declaration at a path can be put after what is around it. -/
def checkName (s : Scope) (path : List Nat) : Except Error Unit :=
  if s.parent.isNone ∧ s.file.package = "" then .ok ()
  else if !s.isNamed then .error (.notText .beforeText)
  else if !s.file.isText (namePath path) then .error (.notText .afterText)
  else .ok ()

/-- The scope of a file. -/
def ofFile (h : FileHeader) : Scope :=
  ⟨h, none, h.isText packagePath, []⟩

/-- The scope in the message of a name that is declared at a path. -/
def inside (s : Scope) (path : List Nat) (name : String) : Scope :=
  ⟨s.file, some (s.fullName name, s.symbol name), s.file.isText (namePath path), path⟩

end Scope

/-- The member of a list at an index, where a negative index counts from the end. -/
def atIndex? {α : Type} (items : List α) (i : Int) : Option α :=
  if 0 ≤ i then items[i.toNat]?
  else if -(items.length : Int) ≤ i then items[(items.length + i).toNat]?
  else none

/-! ## Making declarations -/

/-- The values of an enum at a path, from an index on. -/
def EnumValue.declareAll (h : FileHeader) (path : List Nat) :
    Nat → List EnumValueDescriptor → Except Error (List EnumValue)
  | _, [] => .ok []
  | i, d :: rest => do
    let location ← h.locate (path ++ [Member.enumValues.number, i])
    let vs ← EnumValue.declareAll h path (i + 1) rest
    return ⟨d.name, d.number, location⟩ :: vs

/-- Checks that the names of values are texts, up to the first that does not start with a stem. -/
def checkStems (h : FileHeader) (stem : String) : List EnumValue → Except Error Unit
  | [] => .ok ()
  | v :: rest =>
    if !h.isText (namePath v.location.path) then .error (.notText .start)
    else if (afterStem? stem v.name).isNone then .ok ()
    else checkStems h stem rest

/-- The stem that the values of an enum at a path share. -/
def EnumDescriptor.stem? (d : EnumDescriptor) (h : FileHeader) (path : List Nat)
    (values : List EnumValue) : Except Error (Option String) := do
  if !h.isText (namePath path) then
    .error (.notText .stem)
  else
    checkStems h (valueStem d.name) values
    return sharedPrefix? d.name (d.values.map EnumValueDescriptor.name)

/-- The enum declared at an index of a member of a scope. -/
def Enum.declare (s : Scope) (member : Member) (i : Nat) (d : EnumDescriptor) :
    Except Error Enum := do
  let path := s.path ++ [member.number, i]
  s.checkName path
  let location ← s.file.locate path
  let values ← EnumValue.declareAll s.file path 0 d.values
  let stem ← d.stem? s.file path values
  return {
    file := s.file
    fullName := s.fullName d.name
    symbol := s.symbol d.name
    parent := s.parentName
    location := location
    values := values
    sharedStem := stem }

/-- The enums of a scope in order, from an index on. -/
def Enum.declareAll (s : Scope) (member : Member) :
    Nat → List EnumDescriptor → Except Error (List Enum)
  | _, [] => .ok []
  | i, d :: rest => do
    let e ← Enum.declare s member i d
    let es ← Enum.declareAll s member (i + 1) rest
    return e :: es

/-- The oneofs of a message, from an index on. -/
def Oneof.declareAll (s : Scope) : Nat → List OneofDescriptor → Except Error (List Oneof)
  | _, [] => .ok []
  | i, d :: rest => do
    let path := s.path ++ [Member.messageOneofs.number, i]
    s.checkName path
    let location ← s.file.locate path
    let os ← Oneof.declareAll s (i + 1) rest
    return ⟨d.name, s.fullName d.name, location⟩ :: os

/-- The oneof that a field names by its index. -/
def Oneof.ofIndex (oneofs : List Oneof) : Option Int → Except Error (Option Oneof)
  | none => .ok none
  | some i =>
    match atIndex? oneofs i with
    | some o => .ok (some o)
    | none => .error .outOfRange

/-- The field declared at an index of a message of a full name. -/
def Field.declare (s : Scope) (messageName : String) (oneofs : List Oneof) (i : Nat)
    (d : FieldDescriptor) : Except Error Field := do
  let path := s.path ++ [Member.messageFields.number, i]
  let oneof ← Oneof.ofIndex oneofs d.oneofIndex
  s.checkName path
  let type ←
    match FieldType.ofCode? d.typeNumber with
    | some t => .ok t
    | none => .error (.notMember (.scalar (.int d.typeNumber)) .fieldType)
  let cardinality ←
    match Cardinality.ofCode? d.label with
    | some c => .ok c
    | none => .error (.notMember (.scalar (.int d.label)) .cardinality)
  let location ← s.file.locate path
  return {
    file := s.file
    descriptor := d
    fullName := messageName ++ "." ++ d.name
    parent := messageName
    type := type
    cardinality := cardinality
    oneof := oneof
    location := location }

/-- The fields of a message of a full name in order, from an index on. -/
def Field.declareAll (s : Scope) (messageName : String) (oneofs : List Oneof) :
    Nat → List FieldDescriptor → Except Error (List Field)
  | _, [] => .ok []
  | i, d :: rest => do
    let f ← Field.declare s messageName oneofs i d
    let fs ← Field.declareAll s messageName oneofs (i + 1) rest
    return f :: fs

mutual

/-- The message declared at an index of a member of a scope. -/
def Message.declare (s : Scope) (member : Member) (i : Nat) :
    MessageDescriptor → Except Error Message
  | ⟨name, fieldDescriptors, oneofDescriptors, nested, enumDescriptors, _, isMapEntry, _, _⟩ => do
    let path := s.path ++ [member.number, i]
    let inner := s.inside path name
    s.checkName path
    let location ← s.file.locate path
    let oneofs ← Oneof.declareAll inner 0 oneofDescriptors
    let fields ← Field.declareAll inner (s.fullName name) oneofs 0 fieldDescriptors
    let messages ← Message.declareAll inner .messageMessages 0 nested
    let enums ← Enum.declareAll inner .messageEnums 0 enumDescriptors
    return {
      file := s.file
      fullName := s.fullName name
      symbol := s.symbol name
      parent := s.parentName
      location := location
      isMapEntry := isMapEntry
      oneofs := oneofs
      fields := fields
      messages := messages
      enums := enums }

/-- The messages of a scope in order, from an index on. -/
def Message.declareAll (s : Scope) (member : Member) :
    Nat → List MessageDescriptor → Except Error (List Message)
  | _, [] => .ok []
  | i, d :: rest => do
    let m ← Message.declare s member i d
    let ms ← Message.declareAll s member (i + 1) rest
    return m :: ms

end

/-- How the path of a module follows from the name and the package of its file. -/
abbrev PathRule := String → String → ImportPath

/-- The rule that puts a module beside its file. -/
def defaultPathRule : PathRule := fun fileName _ =>
  ⟨defaultImportPath fileName⟩

/-- The header of the file at a position. -/
def FileHeader.ofDescriptor (rule : PathRule) (toGenerate : List String) (index : Nat)
    (d : FileDescriptor) : FileHeader where
  index := index
  name := d.name
  package := d.package
  dialect := if d.dialect = "" then "proto2" else d.dialect
  importPath := rule d.name d.package
  generate := decide (d.name ∈ toGenerate)
  comments := d.comments
  unreadable := d.unreadable

/-- The declarations of the file at a position.  The path of its module is made of its name. -/
def File.declare (rule : PathRule) (toGenerate : List String) (index : Nat) (d : FileDescriptor) :
    Except Error File := do
  let header := FileHeader.ofDescriptor rule toGenerate index d
  if !header.isText (namePath []) then
    .error (.notText .afterText)
  else
    let messages ← Message.declareAll (.ofFile header) .fileMessages 0 d.messages
    let enums ← Enum.declareAll (.ofFile header) .fileEnums 0 d.enums
    return ⟨header, d.dependencies, messages, enums⟩

end SchemaScript
