import SchemaScript.Proofs.Schema.Exports

/-!
# Revised declarations

Declarations that were changed in their fields and in the place of their file, and are otherwise the
same.

A `Revision` says what becomes of a field and of a place, and `revised` applies it throughout a
declaration, at any depth.  Names, symbols, locations and what stands in what do not change.  So what
a revised file declares and exports is the revision of what the file declares and exports
(`File.declared_revised`, `File.allMessages_revised`, `File.allEnums_revised`).

Descriptors are changed in their fields by a `FieldRewrite`.  If a revision does to the fields that
are declared what the rewriting does to their descriptors (`Revision.Follows`), then the
declarations of what is rewritten are the revised declarations (`Message.declare_revised`,
`Enum.declare_revised`).
-/

namespace SchemaScript

open Outcome

/-! ## Revising -/

/-- What becomes of the place of a file and of a field. -/
structure Revision where
  index : Nat → Nat
  generate : Bool → Bool
  field : Field → Field

section

variable (v : Revision)

/-- The header of a revised file. -/
def FileHeader.revised (h : FileHeader) : FileHeader :=
  { h with index := v.index h.index, generate := v.generate h.generate }

/-- An enum of a revised file. -/
def Enum.revised (e : Enum) : Enum :=
  { e with file := e.file.revised v }

mutual

/-- A message of a revised file, with all that is in it. -/
def Message.revised : Message → Message
  | ⟨file, fullName, symbol, parent, location, isMapEntry, oneofs, fields, messages, enums⟩ =>
    ⟨file.revised v, fullName, symbol, parent, location, isMapEntry, oneofs, fields.map v.field,
      Message.allRevised messages, enums.map (Enum.revised v)⟩

/-- Messages in order of a revised file. -/
def Message.allRevised : List Message → List Message
  | [] => []
  | m :: rest => m.revised :: Message.allRevised rest

end

/-- A declaration of a revised file. -/
def Declared.revised : Declared → Declared
  | .message m => .message (m.revised v)
  | .enum e => .enum (e.revised v)

/-- A revised file. -/
def File.revised (f : File) : File where
  header := f.header.revised v
  dependencies := f.dependencies
  messages := f.messages.map (Message.revised v)
  enums := f.enums.map (Enum.revised v)

/-- The scope in a revised file. -/
def Scope.revised (s : Scope) : Scope :=
  { s with file := s.file.revised v }

@[simp] theorem Scope.file_revised (s : Scope) : (s.revised v).file = s.file.revised v := rfl

@[simp] theorem Scope.path_revised (s : Scope) : (s.revised v).path = s.path := rfl

@[simp] theorem Scope.fullName_revised (s : Scope) : (s.revised v).fullName = s.fullName := rfl

theorem Message.allRevised_eq (ms : List Message) :
    Message.allRevised v ms = ms.map (Message.revised v) := by
  induction ms with
  | nil => rfl
  | cons m rest ih => rw [Message.allRevised, ih, List.map_cons]

namespace Message

variable (m : Message)

@[simp] theorem fullName_revised : (m.revised v).fullName = m.fullName := by
  cases m; rfl

@[simp] theorem symbol_revised : (m.revised v).symbol = m.symbol := by
  cases m; rfl

@[simp] theorem location_revised : (m.revised v).location = m.location := by
  cases m; rfl

@[simp] theorem isMapEntry_revised : (m.revised v).isMapEntry = m.isMapEntry := by
  cases m; rfl

@[simp] theorem file_revised : (m.revised v).file = m.file.revised v := by
  cases m; rfl

@[simp] theorem fields_revised : (m.revised v).fields = m.fields.map v.field := by
  cases m; rfl

@[simp] theorem messages_revised : (m.revised v).messages = m.messages.map (revised v) := by
  cases m
  rw [revised, allRevised_eq]

@[simp] theorem enums_revised : (m.revised v).enums = m.enums.map (Enum.revised v) := by
  cases m; rfl

theorem declared_revised : (m.revised v).declared = m.declared.map (Declared.revised v) := by
  induction m using Message.induct with
  | step m ih =>
    have hmessages : (m.revised v).messages.flatMap declared =
        (m.messages.flatMap declared).map (Declared.revised v) := by
      rw [messages_revised, List.flatMap_map, List.map_flatMap]
      exact List.flatMap_congr ih
    rw [declared_eq, declared_eq m, hmessages, enums_revised]
    simp [Declared.revised]

theorem withNested_revised : (m.revised v).withNested = m.withNested.map (revised v) := by
  induction m using Message.induct with
  | step m ih =>
    rw [withNested_eq, withNested_eq m, messages_revised, List.flatMap_map, List.map_cons,
      List.map_flatMap]
    refine congrArg _ (List.flatMap_congr fun n hn => ?_)
    rw [isMapEntry_revised]
    split
    · rfl
    · exact ih n hn

/-- Revisions of the same places that agree on the fields of all messages in a message revise it
alike. -/
theorem revised_congr {v w : Revision} (hindex : v.index = w.index)
    (hgenerate : v.generate = w.generate) {m : Message}
    (h : ∀ n, .message n ∈ m.declared → ∀ f ∈ n.fields, v.field f = w.field f) :
    m.revised v = m.revised w := by
  have hheader : FileHeader.revised v = FileHeader.revised w := by
    funext header
    rw [FileHeader.revised, FileHeader.revised, hindex, hgenerate]
  induction m using Message.induct with
  | step m ih =>
    have hfields : m.fields.map v.field = m.fields.map w.field :=
      List.map_congr_left (h m m.self_mem_declared)
    have hmessages : m.messages.map (revised v) = m.messages.map (revised w) :=
      List.map_congr_left fun n hn => ih n hn fun k hk => h k (declared_subset hn hk)
    have henums : Enum.revised v = Enum.revised w := by
      funext e
      rw [Enum.revised, Enum.revised, hheader]
    cases m
    simp only [revised, allRevised_eq, hheader, henums]
    simp only at hfields hmessages
    rw [hfields, hmessages]

end Message

namespace Declared

variable (x : Declared)

@[simp] theorem fullName_revised : (x.revised v).fullName = x.fullName := by
  cases x with
  | message m => exact m.fullName_revised v
  | enum e => rfl

@[simp] theorem symbol_revised : (x.revised v).symbol = x.symbol := by
  cases x with
  | message m => exact m.symbol_revised v
  | enum e => rfl

end Declared

namespace File

variable (f : File)

theorem declared_revised : (f.revised v).declared = f.declared.map (Declared.revised v) := by
  have hmessages : (f.revised v).messages.flatMap Message.declared =
      (f.messages.flatMap Message.declared).map (Declared.revised v) := by
    rw [revised, List.flatMap_map, List.map_flatMap]
    exact List.flatMap_congr fun m _ => m.declared_revised v
  rw [declared, declared, hmessages]
  simp [revised, Declared.revised]

/-- The messages of a revised file are the revised messages. -/
theorem message_mem_declared_revised {m' : Message} :
    .message m' ∈ (f.revised v).declared ↔ ∃ m, .message m ∈ f.declared ∧ m' = m.revised v := by
  rw [declared_revised, List.mem_map]
  constructor
  · rintro ⟨x, hx, hrevised⟩
    cases x with
    | message m => exact ⟨m, hx, (Declared.message.inj hrevised).symm⟩
    | enum e => cases hrevised
  · rintro ⟨m, hm, rfl⟩
    exact ⟨.message m, hm, rfl⟩

theorem allMessages_revised :
    (f.revised v).allMessages = f.allMessages.map (Message.revised v) := by
  rw [allMessages, allMessages, revised, List.flatMap_map, List.map_flatMap]
  exact List.flatMap_congr fun m _ => m.withNested_revised v

theorem allEnums_revised : (f.revised v).allEnums = f.allEnums.map (Enum.revised v) := by
  rw [allEnums, allEnums, allMessages_revised, List.flatMap_map, List.map_append, List.map_flatMap]
  exact congrArg _ (List.flatMap_congr fun m _ => m.enums_revised v)

theorem exportedNames_revised : (f.revised v).exportedNames = f.exportedNames := by
  rw [exportedNames, exportedNames, allEnums_revised, allMessages_revised, List.map_map,
    List.map_map]
  refine congrArg _ (List.map_congr_left fun m _ => ?_)
  exact congrArg Symbol.name (m.symbol_revised v)

theorem revised_congr {v w : Revision} (hindex : v.index = w.index)
    (hgenerate : v.generate = w.generate) {f : File}
    (h : ∀ m, .message m ∈ f.declared → ∀ a ∈ m.fields, v.field a = w.field a) :
    f.revised v = f.revised w := by
  have hheader : FileHeader.revised v = FileHeader.revised w := by
    funext header
    rw [FileHeader.revised, FileHeader.revised, hindex, hgenerate]
  have henums : Enum.revised v = Enum.revised w := by
    funext e
    rw [Enum.revised, Enum.revised, hheader]
  have hmessages : f.messages.map (Message.revised v) = f.messages.map (Message.revised w) := by
    refine List.map_congr_left fun m hm => Message.revised_congr hindex hgenerate fun n hn => ?_
    exact h n (List.mem_append_left _ (List.mem_flatMap.mpr ⟨m, hm, hn⟩))
  rw [revised, revised, hheader, henums, hmessages]

end File

end

/-! ## Rewriting descriptors -/

/-- What becomes of a field as given, by the full name of its message. -/
abbrev FieldRewrite := String → FieldDescriptor → FieldDescriptor

section

variable (w : FieldRewrite)

mutual

/-- A message with the fields in it rewritten, where a name is completed by what is around it. -/
def MessageDescriptor.rewritten (complete : String → String) :
    MessageDescriptor → MessageDescriptor
  | ⟨name, fields, oneofs, messages, enums, extensions, isMapEntry, isMessageSet, features⟩ =>
    ⟨name, fields.map (w (complete name)), oneofs,
      MessageDescriptor.allRewritten (fun inner => complete name ++ "." ++ inner) messages, enums,
      extensions, isMapEntry, isMessageSet, features⟩

/-- Messages in order with the fields in them rewritten. -/
def MessageDescriptor.allRewritten (complete : String → String) :
    List MessageDescriptor → List MessageDescriptor
  | [] => []
  | d :: rest => d.rewritten complete :: MessageDescriptor.allRewritten complete rest

end

/-- A file with the fields of all its messages rewritten. -/
def FileDescriptor.rewritten (d : FileDescriptor) : FileDescriptor :=
  { d with messages := MessageDescriptor.allRewritten w (Scope.joinName d.package) d.messages }

theorem MessageDescriptor.allRewritten_eq (complete : String → String)
    (ds : List MessageDescriptor) :
    MessageDescriptor.allRewritten w complete ds = ds.map (·.rewritten w complete) := by
  induction ds with
  | nil => rfl
  | cons d rest ih => rw [MessageDescriptor.allRewritten, ih, List.map_cons]

end

theorem MessageDescriptor.rewritten_id (complete : String → String) (d : MessageDescriptor) :
    d.rewritten (fun _ f => f) complete = d := by
  induction d using MessageDescriptor.induct generalizing complete with
  | step d ih =>
    cases d with
    | mk name fields oneofs messages enums extensions isMapEntry isMessageSet features =>
      rw [rewritten, allRewritten_eq, List.map_id', List.map_congr_left fun n hn => ih n hn _,
        List.map_id']

theorem FileDescriptor.rewritten_id (d : FileDescriptor) : d.rewritten (fun _ f => f) = d := by
  rw [rewritten, MessageDescriptor.allRewritten_eq,
    List.map_congr_left fun m _ => m.rewritten_id _, List.map_id']

/-! ## Making declarations -/

/-- A revision does to a field what a rewriting does to its descriptor. -/
def Revision.Follows (v : Revision) (w : FieldRewrite) : Prop :=
  ∀ s name oneofs i d, Field.declare (s.revised v) name oneofs i (w name d) =
    (Field.declare s name oneofs i d).map v.field

/-- A rewriting leaves what a field is made of but its reference. -/
structure FieldRewrite.Keeps (w : FieldRewrite) : Prop where
  name : ∀ n d, (w n d).name = d.name
  type : ∀ n d, (w n d).typeNumber = d.typeNumber
  label : ∀ n d, (w n d).label = d.label
  oneofIndex : ∀ n d, (w n d).oneofIndex = d.oneofIndex

theorem FieldRewrite.Keeps.follows {v : Revision} {w : FieldRewrite} (hw : FieldRewrite.Keeps w)
    (hv : ∀ f : Field, v.field f =
      { f with file := f.file.revised v, descriptor := w f.parent f.descriptor }) :
    v.Follows w := by
  intro s name oneofs i d
  cases htype : FieldType.ofCode? d.typeNumber with
  | none =>
    simp only [Field.declare, hw.type, hw.oneofIndex, htype, map_bind]
    rfl
  | some type =>
    cases hcardinality : Cardinality.ofCode? d.label with
    | none =>
      simp only [Field.declare, hw.type, hw.label, hw.oneofIndex, htype, hcardinality, map_bind]
      rfl
    | some cardinality =>
      simp only [Field.declare, hw.name, hw.type, hw.label, hw.oneofIndex, htype, hcardinality,
        map_bind]
      simp only [pure, Except.pure, Except.map, hv]
      rfl

section

variable (v : Revision)

theorem EnumValue.declareAll_revised (h : FileHeader) (path : List Nat) (i : Nat)
    (ds : List EnumValueDescriptor) :
    EnumValue.declareAll (h.revised v) path i ds = EnumValue.declareAll h path i ds := by
  rw [EnumValue.declareAll_eq, EnumValue.declareAll_eq]
  rfl

theorem checkStems_revised (h : FileHeader) (stem : String) (vs : List EnumValue) :
    checkStems (h.revised v) stem vs = checkStems h stem vs := by
  induction vs with
  | nil => rfl
  | cons value rest ih =>
    simp only [checkStems, ih]
    rfl

theorem EnumDescriptor.stem?_revised (d : EnumDescriptor) (h : FileHeader) (path : List Nat)
    (values : List EnumValue) : d.stem? (h.revised v) path values = d.stem? h path values := by
  simp only [EnumDescriptor.stem?, checkStems_revised]
  rfl

theorem Enum.declare_revised (s : Scope) (member : Member) (i : Nat) (d : EnumDescriptor) :
    Enum.declare (s.revised v) member i d = (Enum.declare s member i d).map (Enum.revised v) := by
  simp only [Enum.declare, map_bind, Scope.file_revised, EnumValue.declareAll_revised,
    EnumDescriptor.stem?_revised]
  rfl

theorem Oneof.declareAll_revised (s : Scope) (i : Nat) (ds : List OneofDescriptor) :
    Oneof.declareAll (s.revised v) i ds = Oneof.declareAll s i ds := by
  rw [Oneof.declareAll_eq, Oneof.declareAll_eq]
  rfl

theorem Message.declare_revised {v : Revision} {w : FieldRewrite} (hv : v.Follows w) (s : Scope)
    (member : Member) (i : Nat) (d : MessageDescriptor) :
    Message.declare (s.revised v) member i (d.rewritten w s.fullName) =
      (Message.declare s member i d).map (Message.revised v) := by
  induction d using MessageDescriptor.induct generalizing s member i with
  | step d ih =>
    cases d with
    | mk name fields oneofs messages enums extensions isMapEntry isMessageSet features =>
      simp only [MessageDescriptor.rewritten, MessageDescriptor.allRewritten_eq, Message.declare,
        map_bind, Field.declareAll_eq, Message.declareAll_eq, Enum.declareAll_eq]
      have hinner (path : List Nat) :
          (s.revised v).inside path name = (s.inside path name).revised v := rfl
      have hfields (inner : Scope) (fullName : String) (os : List Oneof) :
          eachFrom (Field.declare (inner.revised v) fullName os) 0 (fields.map (w fullName)) =
            (eachFrom (Field.declare inner fullName os) 0 fields).map (List.map v.field) :=
        eachFrom_map_map fun j a _ => hv inner fullName os j a
      have hmessages (path : List Nat) :
          eachFrom (Message.declare ((s.inside path name).revised v) .messageMessages) 0
              (messages.map (·.rewritten w fun inner => s.fullName name ++ "." ++ inner)) =
            (eachFrom (Message.declare (s.inside path name) .messageMessages) 0 messages).map
              (List.map (Message.revised v)) :=
        eachFrom_map_map fun j a ha => ih a ha (s.inside path name) .messageMessages j
      have henums (inner : Scope) :
          eachFrom (Enum.declare (inner.revised v) .messageEnums) 0 enums =
            (eachFrom (Enum.declare inner .messageEnums) 0 enums).map
              (List.map (Enum.revised v)) :=
        eachFrom_map fun j a _ => Enum.declare_revised v inner .messageEnums j a
      have hmade (file : FileHeader) (fullName : String) (symbol : Symbol) (parent : Option String)
          (location : Location) (os : List Oneof) (fs : List Field) (ms : List Message)
          (es : List Enum) :
          (pure ⟨file.revised v, fullName, symbol, parent, location, isMapEntry, os,
            fs.map v.field, ms.map (Message.revised v), es.map (Enum.revised v)⟩ :
              Except Error Message) =
            (pure ⟨file, fullName, symbol, parent, location, isMapEntry, os, fs, ms, es⟩ :
              Except Error Message).map (Message.revised v) := by
        rw [← Message.allRevised_eq]
        rfl
      simp only [hinner, Oneof.declareAll_revised, Scope.path_revised, Scope.fullName_revised,
        hfields, hmessages, henums, bind_map, ← hmade]
      rfl

/-- The file that is made of a rewritten descriptor is the revised file, if their headers are. -/
theorem File.declare_revised {v : Revision} {w : FieldRewrite} (hv : v.Follows w)
    {rule : PathRule} {toGenerate toGenerate' : List String} {index index' : Nat}
    {d : FileDescriptor} (hheader : FileHeader.ofDescriptor rule toGenerate' index' (d.rewritten w) =
      (FileHeader.ofDescriptor rule toGenerate index d).revised v) :
    File.declare rule toGenerate' index' (d.rewritten w) =
      (File.declare rule toGenerate index d).map (File.revised v) := by
  unfold File.declare
  rw [hheader]
  have hcomplete : (Scope.ofFile (FileHeader.ofDescriptor rule toGenerate index d)).fullName =
      Scope.joinName d.package := rfl
  generalize FileHeader.ofDescriptor rule toGenerate index d = h at hcomplete
  have hscope : Scope.ofFile (h.revised v) = (Scope.ofFile h).revised v := rfl
  have hmessages : eachFrom (Message.declare ((Scope.ofFile h).revised v) .fileMessages) 0
        (d.messages.map (·.rewritten w (Scope.joinName d.package))) =
      (eachFrom (Message.declare (.ofFile h) .fileMessages) 0 d.messages).map
        (List.map (Message.revised v)) := by
    rw [← hcomplete]
    exact eachFrom_map_map fun j a _ => Message.declare_revised hv (.ofFile h) .fileMessages j a
  have henums : eachFrom (Enum.declare ((Scope.ofFile h).revised v) .fileEnums) 0 d.enums =
      (eachFrom (Enum.declare (.ofFile h) .fileEnums) 0 d.enums).map (List.map (Enum.revised v)) :=
    eachFrom_map fun j a _ => Enum.declare_revised v (.ofFile h) .fileEnums j a
  have htext : (h.revised v).isText (namePath []) = h.isText (namePath []) := rfl
  simp only [FileDescriptor.rewritten, MessageDescriptor.allRewritten_eq, Message.declareAll_eq,
    Enum.declareAll_eq, hscope, hmessages, henums, htext, Outcome.bind_map]
  split
  · rfl
  · simp only [map_bind]
    rfl

end

/-! ## Registering -/

namespace Registry

/-- A registry has under each name the revision of what another one has. -/
structure RevisedBy (v : Revision) (r r' : Registry) : Prop where
  files : ∀ n, r'.files.get? n = (r.files.get? n).map (File.revised v)
  messages : ∀ n, r'.messages.get? n = (r.messages.get? n).map (Message.revised v)
  enums : ∀ n, r'.enums.get? n = (r.enums.get? n).map (Enum.revised v)

namespace RevisedBy

variable {v : Revision} {r r' : Registry}

theorem empty : RevisedBy v Registry.empty Registry.empty :=
  ⟨fun _ => rfl, fun _ => rfl, fun _ => rfl⟩

theorem add (h : RevisedBy v r r') (x : Declared) :
    RevisedBy v (r.add x) (r'.add (x.revised v)) := by
  cases x with
  | message m =>
    refine ⟨h.files, fun n => ?_, h.enums⟩
    show (r'.messages.put (m.revised v).fullName (m.revised v)).get? n =
      ((r.messages.put m.fullName m).get? n).map (Message.revised v)
    rw [Table.get?_put, Table.get?_put, m.fullName_revised, h.messages]
    split <;> rfl
  | enum e =>
    refine ⟨h.files, h.messages, fun n => ?_⟩
    show (r'.enums.put e.fullName (e.revised v)).get? n =
      ((r.enums.put e.fullName e).get? n).map (Enum.revised v)
    rw [Table.get?_put, Table.get?_put, h.enums]
    split <;> rfl

theorem addAll (h : RevisedBy v r r') (xs : List Declared) :
    RevisedBy v (r.addAll xs) (r'.addAll (xs.map (Declared.revised v))) := by
  induction xs generalizing r r' with
  | nil => exact h
  | cons x rest ih => exact ih (h.add x)

theorem addFile (h : RevisedBy v r r') (f : File) :
    RevisedBy v (r.addFile f) (r'.addFile (f.revised v)) := by
  have hput : RevisedBy v { r with files := r.files.put f.header.name f }
      { r' with files := r'.files.put f.header.name (f.revised v) } := by
    refine ⟨fun n => ?_, h.messages, h.enums⟩
    simp only [Table.get?_put, h.files]
    split <;> rfl
  rw [addFile_eq, addFile_eq, f.declared_revised]
  exact hput.addAll f.declared

theorem ofFiles (v : Revision) (fs : List File) :
    RevisedBy v (Registry.ofFiles fs) (Registry.ofFiles (fs.map (File.revised v))) := by
  induction fs using List.reverseRecOn with
  | nil => exact empty
  | append_singleton fs f ih =>
    rw [List.map_append, List.map_singleton, ofFiles_concat, ofFiles_concat]
    exact ih.addFile f

/-- A name finds the revision of what it found before. -/
theorem declared? (h : RevisedBy v r r') (n : String) :
    r'.declared? n = (r.declared? n).map (Declared.revised v) := by
  simp only [Registry.declared?, h.messages, h.enums]
  cases r.messages.get? (withoutDot n) with
  | some m => rfl
  | none => cases r.enums.get? (withoutDot n) <;> rfl

end RevisedBy

end Registry

end SchemaScript
