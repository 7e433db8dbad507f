import SchemaScript.Schema.Registry

/-!
# Resolution

From the descriptors of a schema to its declarations, with every reference bound.

The files are taken one after the other, each after the files that it depends on.  A file is
declared, then registered, and then its references are checked against what is registered so far:
first that each file it depends on is there, then the fields of its messages, those of nested
messages before those of the message around them.  So a reference can only mean a declaration of its
own file or of an earlier one.

Binding is a function and not a change.  `Schema.target?` looks a field up in the registry as it was
right after the file of the field was registered, so that a later file that registers a name anew
does not move an earlier reference.  The check in `resolve` makes sure that it finds something.
-/

namespace SchemaScript

/-- A resolved schema. -/
structure Schema where
  /-- The registry after each file, in order. -/
  stages : List Registry
  /-- The registry after the last file. -/
  registry : Registry
  /-- The files to generate, in the order of the schema. -/
  toGenerate : List File

namespace Schema

/-- The schema without files. -/
def empty : Schema :=
  ⟨[], Registry.empty, []⟩

/-! ## Binding -/

/-- What a field refers to by a registry. -/
def targetIn (r : Registry) (f : Field) : Except Error (Option Declared) :=
  match f.type with
  | .scalar _ => .ok none
  | .enumeration =>
    match f.descriptor.typeName with
    | none => .error (.invalidDescriptor f.fullName .enumWithoutTypeName)
    | some reference =>
      if f.hasTextReference then
        match r.scopedEnum? f.parent reference with
        | some e => .ok (some (.enum e))
        | none => .error (.unresolved f.file.name f.fullName reference)
      else
        .error (.notText .start)
  | .message | .group =>
    match f.descriptor.typeName with
    | none => .error (.invalidDescriptor f.fullName .messageWithoutTypeName)
    | some reference =>
      if f.hasTextReference then
        match r.scopedMessage? f.parent reference with
        | some m => .ok (some (.message m))
        | none => .error (.unresolved f.file.name f.fullName reference)
      else
        .error (.notText .start)

/-- Checks that all fields of a list find what they refer to. -/
def checkFields (r : Registry) : List Field → Except Error Unit
  | [] => .ok ()
  | f :: rest => do
    let _ ← targetIn r f
    checkFields r rest

mutual

/-- Checks the fields of the messages in a message, then its own. -/
def checkMessage (r : Registry) : Message → Except Error Unit
  | ⟨_, _, _, _, _, _, _, fields, messages, _⟩ => do
    checkMessages r messages
    checkFields r fields

/-- Checks the fields of messages in order. -/
def checkMessages (r : Registry) : List Message → Except Error Unit
  | [] => .ok ()
  | m :: rest => do
    checkMessage r m
    checkMessages r rest

end

/-- Checks that all files of a list are registered. -/
def checkDependencies (r : Registry) (fileName : String) : List String → Except Error Unit
  | [] => .ok ()
  | dependency :: rest =>
    match r.files.get? dependency with
    | some _ => checkDependencies r fileName rest
    | none => .error (.unresolved fileName fileName dependency)

/-- The schema with one more file. -/
def addFile (rule : PathRule) (toGenerate : List String) (s : Schema) (d : FileDescriptor) :
    Except Error Schema := do
  let f ← File.declare rule toGenerate s.stages.length d
  let r := s.registry.addFile f
  checkDependencies r f.header.name f.dependencies
  checkMessages r f.messages
  return ⟨s.stages ++ [r], r, if f.header.generate then s.toGenerate ++ [f] else s.toGenerate⟩

/-- The schema of files in order. -/
def resolve (rule : PathRule) (toGenerate : List String) (files : List FileDescriptor) :
    Except Error Schema :=
  files.foldlM (addFile rule toGenerate) empty

/-! ## Views of a resolved schema -/

/-- What a field refers to. -/
def target? (s : Schema) (f : Field) : Option Declared :=
  match s.stages[f.file.index]? with
  | none => none
  | some r =>
    match targetIn r f with
    | .ok t => t
    | .error _ => none

/-- The message that a field refers to. -/
def message? (s : Schema) (f : Field) : Option Message :=
  match s.target? f with
  | some (.message m) => some m
  | _ => none

/-- The enum that a field refers to. -/
def enum? (s : Schema) (f : Field) : Option Enum :=
  match s.target? f with
  | some (.enum e) => some e
  | _ => none

/-- The entry message of a map field. -/
def mapEntry? (s : Schema) (f : Field) : Option Message :=
  (s.message? f).filter Message.isMapEntry

/-- Whether a field is a map. -/
def isMap (s : Schema) (f : Field) : Bool :=
  (s.mapEntry? f).isSome

/-- Whether a field repeats and is no map. -/
def isList (s : Schema) (f : Field) : Bool :=
  f.cardinality == .repeated && !s.isMap f

/-- The field at an index of the entry message of a map field. -/
def entryField (s : Schema) (f : Field) (i : Nat) : Except Error (Option Field) :=
  match s.mapEntry? f with
  | none => .ok none
  | some entry =>
    match entry.fields[i]? with
    | some part => .ok (some part)
    | none => .error .outOfRange

end Schema

end SchemaScript
