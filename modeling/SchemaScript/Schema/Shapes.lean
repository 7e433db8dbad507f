import SchemaScript.Schema.Decoding
import SchemaScript.Schema.DefaultValue
import SchemaScript.Schema.Registry

/-!
# Shapes of a schema

The shapes of the messages and enums that the files of a schema declare, by which records of them
are read.

The shape of a message has its own fields and every extension of it, from the files and from their
messages.  A field has its JSON name, and an extension its full name in brackets.  A field that
names a message or an enum without saying which has the type of what it names.

Four things hang on the features of a field or an enum.  A field of implicit presence is not told
from its zero, unless it is in a oneof or holds messages.  An enum can be closed.  A text can have
to be UTF-8.  A message can be written as a group, but maps, and the values in them, never are.  The
answers start from the dialect of the file.  The file, each message around a declaration, the
declaration itself, and the oneof of a field before the field, choose them anew in this order.  A
repeated field without values is told from one that is not set only if it is an extension.

A field that is not set holds its default value, which its descriptor gives as a text.  Without one
that is the first value of an enum and the zero of any other type.

Some messages have a form of their own by their full names, and every message of the file of
wrappers is one.
-/

namespace SchemaScript

open Wire

/-! ## Names -/

/-- The rest of a JSON name.  The flag tells whether a small letter becomes a capital. -/
def jsonRest : Bool → List Char → List Char
  | _, [] => []
  | up, c :: rest =>
    if c = '_' then jsonRest true rest
    else (if up then c.toUpper else c) :: jsonRest false rest

/-- The name of a field in JSON when its descriptor gives none.  Only underscores make capitals. -/
def jsonDefaultName (name : String) : String :=
  String.ofList (jsonRest false name.toList)

/-! ## Parts of files -/

/-- A part of a file: the file, the features and the full name around it, and what it declares
there. -/
structure Part (α : Type) where
  file : String
  features : Features
  scope : String
  item : α

/-- The name of a declaration in a scope. -/
def Part.named {α : Type} (p : Part α) (name : String) : String :=
  Scope.joinName p.scope name

/-- The features of a message, which hold in it. -/
def Part.inner (p : Part MessageDescriptor) : Features :=
  p.features.choosing p.item.features

/-- Declarations in a message, as parts. -/
def Part.within {α : Type} (p : Part MessageDescriptor) (items : List α) : List (Part α) :=
  items.map fun i => ⟨p.file, p.inner, p.named p.item.name, i⟩

/-- Declarations in a file, as parts. -/
def FileDescriptor.parts {α : Type} (f : FileDescriptor) (items : List α) : List (Part α) :=
  items.map fun i => ⟨f.name, (Features.ofDialect f.dialect).choosing f.features, f.package, i⟩

mutual

/-- A message with all messages in it, as parts of a file under the features around it. -/
def messageParts (file : String) (features : Features) (scope : String) :
    MessageDescriptor → List (Part MessageDescriptor)
  | ⟨name, fields, oneofs, messages, enums, extensions, isMapEntry, isMessageSet, choices⟩ =>
    ⟨file, features, scope,
      ⟨name, fields, oneofs, messages, enums, extensions, isMapEntry, isMessageSet, choices⟩⟩ ::
      allMessageParts file (features.choosing choices) (Scope.joinName scope name) messages

/-- Messages with all messages in them, as parts of a file under the features around them. -/
def allMessageParts (file : String) (features : Features) (scope : String) :
    List MessageDescriptor → List (Part MessageDescriptor)
  | [] => []
  | m :: rest => messageParts file features scope m ++ allMessageParts file features scope rest

end

/-- All messages of files. -/
def messagesOf (files : List FileDescriptor) : List (Part MessageDescriptor) :=
  files.flatMap fun f => (f.parts f.messages).flatMap fun p =>
    messageParts p.file p.features p.scope p.item

/-- All enums of files. -/
def enumsOf (files : List FileDescriptor) : List (Part EnumDescriptor) :=
  (files.flatMap fun f => f.parts f.enums) ++
    (messagesOf files).flatMap fun p => p.within p.item.enums

/-- All extensions of files, with the scope that they are declared in. -/
def extensionsOf (files : List FileDescriptor) : List (Part FieldDescriptor) :=
  (files.flatMap fun f => f.parts f.extensions) ++
    (messagesOf files).flatMap fun p => p.within p.item.extensions

/-! ## Names of declarations -/

/-- The full names that the files of a schema declare. -/
structure DeclaredNames where
  messages : List String
  /-- Those of the messages that are the entries of a map. -/
  entries : List String
  enums : List String
  /-- The values of each enum, in order. -/
  values : List (String × List EnumValueDescriptor)

/-- The full names that files declare. -/
def DeclaredNames.ofFiles (files : List FileDescriptor) : DeclaredNames :=
  let messages := messagesOf files
  let enums := enumsOf files
  ⟨messages.map fun p => p.named p.item.name,
    (messages.filter fun p => p.item.isMapEntry).map fun p => p.named p.item.name,
    enums.map fun p => p.named p.item.name,
    enums.map fun p => (p.named p.item.name, p.item.values)⟩

/-- The first of the names that a reference can mean that is declared. -/
def DeclaredNames.meant (names : DeclaredNames) (scope reference : String) : String :=
  ((Registry.scopedCandidates scope reference).find? fun n =>
    names.messages.contains n || names.enums.contains n).getD ""

/-! ## Fields -/

/-- The type of a field that refers to a full name. -/
def fieldType (names : DeclaredNames) (d : FieldDescriptor) (typeName : String) : FieldType :=
  match d.type with
  | some code => (FieldType.ofCode? code).getD (.scalar .double)
  | none =>
    if d.typeName.isNone then .scalar .double
    else if names.messages.contains typeName then .message
    else .enumeration

/-- The shape of a field by its descriptor and its features, where the field of a map entry is
marked. -/
def fieldShape (names : DeclaredNames) (p : Part FieldDescriptor) (jsonName : String)
    (isExtension inEntry : Bool) : FieldShape :=
  let d := p.item
  let features := p.features.choosing d.features
  let typeName := (d.typeName.map (names.meant p.scope)).getD ""
  let type := fieldType names d typeName
  let isMap := inEntry || names.entries.contains typeName
  { number := d.number.toInt.toNat
    name := d.name
    jsonName := if d.hasTextJsonName then some jsonName else none
    type := if type = .message ∧ features.grouped ∧ !isMap then .group else type
    typeName := typeName
    repeated := d.label == 3
    presence := isExtension || d.label != 3 &&
      (!features.implicit || d.oneofIndex.isSome || type.isMessage)
    oneof := if isExtension then none else d.oneofIndex.map Int.toNat
    checked := features.checked
    isExtension := isExtension
    initial := initialDatum type ((names.values.lookup typeName).getD []) d.defaultValue }

/-- The shapes of extensions, each with the name of the message that it extends. -/
def extensionShapes (names : DeclaredNames) (files : List FileDescriptor) :
    List (String × FieldShape) :=
  (extensionsOf files).map fun p =>
    ((p.item.extendee.map (names.meant p.scope)).getD "",
      fieldShape names p ("[" ++ p.named p.item.name ++ "]") true false)

/-- The features around a field of a message, after those that its oneof chooses. -/
def Part.around (p : Part MessageDescriptor) (d : FieldDescriptor) : Features :=
  match d.oneofIndex.bind fun i => p.item.oneofs[i.toNat]? with
  | some o => p.inner.choosing o.features
  | none => p.inner

/-! ## Messages and enums -/

/-- The file whose messages are wrappers. -/
def wrapperFile : String :=
  "google/protobuf/wrappers.proto"

/-- The forms of messages by their full names. -/
def formsByName : List (String × MessageForm) :=
  [("google.protobuf.Any", .any), ("google.protobuf.Duration", .duration),
    ("google.protobuf.FieldMask", .fieldMask), ("google.protobuf.ListValue", .list),
    ("google.protobuf.Struct", .struct), ("google.protobuf.Timestamp", .timestamp),
    ("google.protobuf.Value", .dynamic)]

/-- The enum whose values stand for nothing. -/
def nullEnumName : String :=
  "google.protobuf.NullValue"

/-- The form of a message. -/
def formOf (p : Part MessageDescriptor) : MessageForm :=
  if p.item.isMapEntry then .entry
  else if p.file = wrapperFile then .wrapper
  else (formsByName.lookup (p.named p.item.name)).getD .plain

/-- The shape of a message by its descriptor, with the extensions of it among those given. -/
def messageShape (names : DeclaredNames) (extensions : List (String × FieldShape))
    (p : Part MessageDescriptor) : MessageShape where
  name := p.item.name
  fields := (p.item.fields.map fun f =>
      fieldShape names ⟨p.file, p.around f, p.named p.item.name, f⟩
        (f.jsonName.getD (jsonDefaultName f.name)) false p.item.isMapEntry) ++
    (extensions.filter fun e => e.1 = p.named p.item.name).map Prod.snd
  oneofs := p.item.oneofs.map OneofDescriptor.name
  form := formOf p
  isSet := p.item.isMessageSet

/-- The shape of an enum by its descriptor. -/
def enumShape (p : Part EnumDescriptor) : EnumShape where
  values := p.item.values.map fun v => (v.number, v.name)
  closed := (p.features.choosing p.item.features).closed
  isNull := p.named p.item.name = nullEnumName

/-- The shapes of all messages and enums of files. -/
def shapesOf (files : List FileDescriptor) : Shapes :=
  let names := DeclaredNames.ofFiles files
  let extensions := extensionShapes names files
  ⟨(messagesOf files).map fun p => (p.named p.item.name, messageShape names extensions p),
    (enumsOf files).map fun p => (p.named p.item.name, enumShape p)⟩

end SchemaScript
