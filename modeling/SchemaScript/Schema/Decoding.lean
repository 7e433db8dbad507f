import SchemaScript.Schema.Completeness

/-!
# Decoding descriptors

Descriptors from the contents that are read by `requestShapes`.

A number of a type, a cardinality or a long type that has no meaning counts as not set, and a field
that has no type or no cardinality set has the first one.
-/

namespace SchemaScript

open Wire

/-- The features that a record of options chooses under a number. -/
def FeatureChoices.ofOptions (number : Nat) (options : List Record) : FeatureChoices :=
  match options.flatMap fun o => o.records number with
  | [r] => .ofNumbers (r.int? 1) (r.int? 2) (r.int? 4) (r.int? 5)
  | _ => .none

/-- The features that the options of a field choose. -/
def FieldOptions.features (o : FieldOptions) : FeatureChoices :=
  .ofOptions featuresNumber [o.content.fields]

/-- The features that a field chooses. -/
def FieldDescriptor.features (d : FieldDescriptor) : FeatureChoices :=
  (d.options.map FieldOptions.features).getD .none

/-- The field in a record. -/
def FieldDescriptor.ofRecord (r : Record) : FieldDescriptor where
  name := (r.text? 1).getD ""
  number := Int32.ofInt ((r.int? 3).getD 0)
  label := (r.int? 4).getD 1
  type := r.int? 5
  typeName := r.text? 6
  extendee := r.text? 2
  jsonName := r.text? 10
  hasTextJsonName := (r.values 10).all Datum.isText
  defaultValue := r.text? 7
  oneofIndex := r.int? 9
  proto3Optional := r.bool 17
  options := (r.contents 8).head?.map FieldOptions.mk

/-- The enum in a record. -/
def EnumDescriptor.ofRecord (r : Record) : EnumDescriptor where
  name := (r.text? 1).getD ""
  values := (r.records 2).map fun v => ⟨(v.text? 1).getD "", (v.int? 2).getD 0⟩
  features := .ofOptions 7 (r.records 3)

/-- The message in a record, with messages in it down to a depth. -/
def MessageDescriptor.ofRecord : Nat → Record → MessageDescriptor
  | 0, r => ⟨(r.text? 1).getD "", [], [], [], [], [], false, false, .none⟩
  | depth + 1, r => {
      name := (r.text? 1).getD ""
      fields := (r.records 2).map FieldDescriptor.ofRecord
      oneofs := (r.records 8).map fun o => ⟨(o.text? 1).getD "", .ofOptions 1 (o.records 2)⟩
      messages := (r.records 3).map (MessageDescriptor.ofRecord depth)
      enums := (r.records 4).map EnumDescriptor.ofRecord
      extensions := (r.records 6).map FieldDescriptor.ofRecord
      isMapEntry := (r.records 7).any fun o => o.bool 7
      isMessageSet := (r.records 7).any fun o => o.bool 1
      features := .ofOptions 12 (r.records 7) }

/-- The comments at a place in a record. -/
def CommentEntry.ofRecord (r : Record) : CommentEntry where
  path := r.ints 1
  leading := (r.text? 3).getD ""
  trailing := (r.text? 4).getD ""
  detached := r.texts 6
  isText := [3, 4, 6].all fun number => (r.values number).all Datum.isText

/-- The file in a content. -/
def FileDescriptor.ofContent (c : Content) : FileDescriptor :=
  let r := c.fields
  { name := (r.text? 1).getD ""
    package := (r.text? 2).getD ""
    dialect := (r.text? 12).getD ""
    dependencies := r.texts 3
    messages := (r.records 4).map (MessageDescriptor.ofRecord c.depth)
    enums := (r.records 5).map EnumDescriptor.ofRecord
    extensions := (r.records 7).map FieldDescriptor.ofRecord
    comments := (r.records 9).flatMap fun info => (info.records 1).map CommentEntry.ofRecord
    features := .ofOptions 50 (r.records 8)
    isComplete := fieldsComplete "File" r
    depth := c.depth
    unreadable := c.unreadable }

/-- The file in bytes, with messages at most `depth` deep. -/
def FileDescriptor.ofBytes? (depth : Nat) (bytes : List UInt8) : Option FileDescriptor :=
  (requestShapes.readBytes depth (requestShapes.message "File") bytes).map .ofContent

end SchemaScript
