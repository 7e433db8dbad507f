import SchemaScript.Proofs.Outcome
import SchemaScript.Proofs.Schema.Declared

/-!
# How declarations are made

What a declaration keeps of its descriptor and of the file that it is made in.

Each declaration in a file is made in a scope of that file (`Declared.MadeIn`), however deep it
stands.  So its symbol is exported from the module of the file, and its fields, if it is a message,
belong to the file and know the message by its full name.

The full names of what a file declares are read off its descriptor (`File.declare_names`).  Each
message that it declares is made of a message of its descriptor, in whatever message that stands
(`File.declare_within`).
-/

namespace SchemaScript

open Outcome

/-! ## Full names of descriptors -/

/-- What holds of a message descriptor if it holds of those in it holds of all. -/
theorem MessageDescriptor.induct {P : MessageDescriptor → Prop}
    (step : ∀ d, (∀ n ∈ d.messages, P n) → P d) : ∀ d, P d
  | ⟨name, fields, oneofs, messages, enums, extensions, isMapEntry, isMessageSet, features⟩ =>
    step ⟨name, fields, oneofs, messages, enums, extensions, isMapEntry, isMessageSet, features⟩
      fun n _ => MessageDescriptor.induct step n

mutual

/-- The full names of what a message declares, itself first, where a name is completed by what is
around it. -/
def MessageDescriptor.declaredNames (complete : String → String) : MessageDescriptor → List String
  | ⟨name, _, _, messages, enums, _, _, _, _⟩ =>
    complete name ::
      (MessageDescriptor.allDeclaredNames (fun inner => complete name ++ "." ++ inner) messages ++
        enums.map fun e => complete name ++ "." ++ e.name)

/-- The full names of what messages in order declare. -/
def MessageDescriptor.allDeclaredNames (complete : String → String) :
    List MessageDescriptor → List String
  | [] => []
  | d :: rest => d.declaredNames complete ++ MessageDescriptor.allDeclaredNames complete rest

end

theorem MessageDescriptor.allDeclaredNames_eq (complete : String → String)
    (ds : List MessageDescriptor) :
    MessageDescriptor.allDeclaredNames complete ds = ds.flatMap (·.declaredNames complete) := by
  induction ds with
  | nil => rfl
  | cons d rest ih => rw [MessageDescriptor.allDeclaredNames, ih, List.flatMap_cons]

theorem MessageDescriptor.declaredNames_eq (complete : String → String) (d : MessageDescriptor) :
    d.declaredNames complete = complete d.name ::
      (d.messages.flatMap (·.declaredNames fun inner => complete d.name ++ "." ++ inner) ++
        d.enums.map fun e => complete d.name ++ "." ++ e.name) := by
  cases d
  rw [MessageDescriptor.declaredNames, MessageDescriptor.allDeclaredNames_eq]

/-- The full names of what a file declares. -/
def FileDescriptor.declaredNames (d : FileDescriptor) : List String :=
  MessageDescriptor.allDeclaredNames (Scope.joinName d.package) d.messages ++
    d.enums.map fun e => Scope.joinName d.package e.name

/-! ## Messages of descriptors -/

mutual

/-- A message and the messages in it. -/
def MessageDescriptor.messagesWithin : MessageDescriptor → List MessageDescriptor
  | ⟨name, fields, oneofs, messages, enums, extensions, isMapEntry, isMessageSet, features⟩ =>
    ⟨name, fields, oneofs, messages, enums, extensions, isMapEntry, isMessageSet, features⟩ ::
      MessageDescriptor.allMessagesWithin messages

/-- Messages in order and the messages in them. -/
def MessageDescriptor.allMessagesWithin : List MessageDescriptor → List MessageDescriptor
  | [] => []
  | d :: rest => d.messagesWithin ++ MessageDescriptor.allMessagesWithin rest

end

theorem MessageDescriptor.allMessagesWithin_eq (ds : List MessageDescriptor) :
    MessageDescriptor.allMessagesWithin ds = ds.flatMap MessageDescriptor.messagesWithin := by
  induction ds with
  | nil => rfl
  | cons d rest ih => rw [MessageDescriptor.allMessagesWithin, ih, List.flatMap_cons]

theorem MessageDescriptor.messagesWithin_eq (d : MessageDescriptor) :
    d.messagesWithin = d :: d.messages.flatMap MessageDescriptor.messagesWithin := by
  cases d
  rw [MessageDescriptor.messagesWithin, MessageDescriptor.allMessagesWithin_eq]

/-! ## Lists of declarations -/

theorem Enum.declareAll_eq (s : Scope) (member : Member) (i : Nat) (ds : List EnumDescriptor) :
    Enum.declareAll s member i ds = eachFrom (Enum.declare s member) i ds := by
  induction ds generalizing i with
  | nil => rfl
  | cons d rest ih => simp only [Enum.declareAll, eachFrom, ih]

theorem Field.declareAll_eq (s : Scope) (messageName : String) (oneofs : List Oneof) (i : Nat)
    (ds : List FieldDescriptor) :
    Field.declareAll s messageName oneofs i ds =
      eachFrom (Field.declare s messageName oneofs) i ds := by
  induction ds generalizing i with
  | nil => rfl
  | cons d rest ih => simp only [Field.declareAll, eachFrom, ih]

theorem Message.declareAll_eq (s : Scope) (member : Member) (i : Nat)
    (ds : List MessageDescriptor) :
    Message.declareAll s member i ds = eachFrom (Message.declare s member) i ds := by
  induction ds generalizing i with
  | nil => simp only [Message.declareAll, eachFrom]
  | cons d rest ih => simp only [Message.declareAll, eachFrom, ih]

/-- The value declared at an index of an enum at a path. -/
def EnumValue.declare (h : FileHeader) (path : List Nat) (i : Nat) (d : EnumValueDescriptor) :
    Except Error EnumValue := do
  let location ← h.locate (path ++ [Member.enumValues.number, i])
  return ⟨d.name, d.number, location⟩

theorem EnumValue.declareAll_eq (h : FileHeader) (path : List Nat) (i : Nat)
    (ds : List EnumValueDescriptor) :
    EnumValue.declareAll h path i ds = eachFrom (EnumValue.declare h path) i ds := by
  induction ds generalizing i with
  | nil => rfl
  | cons d rest ih =>
    simp only [EnumValue.declareAll, EnumValue.declare, eachFrom, ih, bind_assoc, pure_bind]

/-- The oneof declared at an index of a message. -/
def Oneof.declare (s : Scope) (i : Nat) (d : OneofDescriptor) : Except Error Oneof := do
  let path := s.path ++ [Member.messageOneofs.number, i]
  s.checkName path
  let location ← s.file.locate path
  return ⟨d.name, s.fullName d.name, location⟩

theorem Oneof.declareAll_eq (s : Scope) (i : Nat) (ds : List OneofDescriptor) :
    Oneof.declareAll s i ds = eachFrom (Oneof.declare s) i ds := by
  induction ds generalizing i with
  | nil => rfl
  | cons d rest ih =>
    simp only [Oneof.declareAll, Oneof.declare, eachFrom, ih, bind_assoc, pure_bind]

/-! ## Single declarations -/

section

variable {s : Scope} {member : Member} {i : Nat}

theorem Enum.of_declare {d : EnumDescriptor} {e : Enum} (h : Enum.declare s member i d = .ok e) :
    e.file = s.file ∧ e.fullName = s.fullName d.name ∧ e.symbol = s.symbol d.name ∧
      ∃ path values, d.stem? s.file path values = .ok e.sharedStem := by
  simp only [Enum.declare, bind_eq_ok_iff, pure_eq_ok_iff] at h
  obtain ⟨_, _, _, _, values, _, stem, hstem, rfl⟩ := h
  exact ⟨rfl, rfl, rfl, _, values, hstem⟩

theorem Enum.declare_fullName {d : EnumDescriptor} {e : Enum}
    (h : Enum.declare s member i d = .ok e) : e.fullName = s.fullName d.name :=
  (Enum.of_declare h).2.1

theorem Field.of_declare {messageName : String} {oneofs : List Oneof} {d : FieldDescriptor}
    {f : Field} (h : Field.declare s messageName oneofs i d = .ok f) :
    f.file = s.file ∧ f.parent = messageName ∧ f.descriptor = d := by
  simp only [Field.declare, bind_eq_ok_iff] at h
  obtain ⟨_, _, _, _, h⟩ := h
  split at h
  · split at h
    · simp only [bind_eq_ok_iff, pure_eq_ok_iff] at h
      obtain ⟨_, _, _, _, _, _, rfl⟩ := h
      exact ⟨rfl, rfl, rfl⟩
    · cases h
  · cases h

/-- A message is made of its descriptor in a scope, and what is in it in the scope inside. -/
theorem Message.of_declare {d : MessageDescriptor} {m : Message}
    (h : Message.declare s member i d = .ok m) :
    m.file = s.file ∧ m.fullName = s.fullName d.name ∧ m.symbol = s.symbol d.name ∧
      ∃ inner : Scope, inner = s.inside (s.path ++ [member.number, i]) d.name ∧
        eachFrom (Field.declare inner m.fullName m.oneofs) 0 d.fields = .ok m.fields ∧
        eachFrom (Message.declare inner .messageMessages) 0 d.messages = .ok m.messages ∧
        eachFrom (Enum.declare inner .messageEnums) 0 d.enums = .ok m.enums := by
  cases d with
  | mk name fields oneofs messages enums extensions isMapEntry isMessageSet features =>
    simp only [Message.declare, bind_eq_ok_iff, pure_eq_ok_iff, Field.declareAll_eq,
      Message.declareAll_eq, Enum.declareAll_eq] at h
    obtain ⟨_, _, _, _, _, _, fs, hfs, ms, hms, es, hes, rfl⟩ := h
    exact ⟨rfl, rfl, rfl, _, rfl, hfs, hms, hes⟩

theorem Enum.declare_values {d : EnumDescriptor} {e : Enum}
    (h : Enum.declare s member i d = .ok e) :
    eachFrom (EnumValue.declare s.file (s.path ++ [member.number, i])) 0 d.values =
      .ok e.values := by
  simp only [Enum.declare, bind_eq_ok_iff, pure_eq_ok_iff, EnumValue.declareAll_eq] at h
  obtain ⟨_, _, _, _, values, hvalues, _, _, rfl⟩ := h
  exact hvalues

theorem Message.declare_oneofs {d : MessageDescriptor} {m : Message}
    (h : Message.declare s member i d = .ok m) :
    eachFrom (Oneof.declare (s.inside (s.path ++ [member.number, i]) d.name)) 0 d.oneofs =
      .ok m.oneofs := by
  cases d with
  | mk name fields oneofs messages enums extensions isMapEntry isMessageSet features =>
    simp only [Message.declare, bind_eq_ok_iff, pure_eq_ok_iff, Oneof.declareAll_eq] at h
    obtain ⟨_, _, _, _, os, hos, _, _, _, _, _, _, rfl⟩ := h
    exact hos

theorem Message.isMapEntry_declare {d : MessageDescriptor} {m : Message}
    (h : Message.declare s member i d = .ok m) : m.isMapEntry = d.isMapEntry := by
  cases d with
  | mk name fields oneofs messages enums extensions isMapEntry isMessageSet features =>
    simp only [Message.declare, bind_eq_ok_iff, pure_eq_ok_iff] at h
    obtain ⟨_, _, _, _, _, _, _, _, _, _, _, _, rfl⟩ := h
    rfl

theorem Message.descriptor_mem {d : MessageDescriptor} {m : Message}
    (h : Message.declare s member i d = .ok m) {f : Field} (hf : f ∈ m.fields) :
    f.descriptor ∈ d.fields := by
  obtain ⟨_, _, _, inner, _, hfields, _⟩ := Message.of_declare h
  obtain ⟨j, a, ha, hj⟩ := exists_of_mem_eachFrom hfields hf
  rw [(Field.of_declare hj).2.2]
  exact ha

end

@[simp] theorem Scope.file_inside (s : Scope) (path : List Nat) (name : String) :
    (s.inside path name).file = s.file := rfl

theorem Scope.fullName_inside (s : Scope) (path : List Nat) (name inner : String) :
    (s.inside path name).fullName inner = s.fullName name ++ "." ++ inner := rfl

/-- A declaration is made in a scope of a file. -/
inductive Declared.MadeIn (header : FileHeader) : Declared → Prop where
  | message {s : Scope} {member : Member} {i : Nat} {d : MessageDescriptor} {m : Message}
    (hs : s.file = header) (h : Message.declare s member i d = .ok m) : MadeIn header (.message m)
  | enum {s : Scope} {member : Member} {i : Nat} {d : EnumDescriptor} {e : Enum}
    (hs : s.file = header) (h : Enum.declare s member i d = .ok e) : MadeIn header (.enum e)

theorem Message.declare_made {s : Scope} {member : Member} {i : Nat} {d : MessageDescriptor}
    {m : Message} (h : Message.declare s member i d = .ok m) :
    ∀ x ∈ m.declared, x.MadeIn s.file := by
  induction d using MessageDescriptor.induct generalizing s member i m with
  | step d ih =>
    obtain ⟨_, _, _, inner, rfl, _, hmessages, henums⟩ := Message.of_declare h
    intro x hx
    rw [Message.declared_eq, List.mem_cons, List.mem_append] at hx
    rcases hx with rfl | hx | hx
    · exact .message rfl h
    · obtain ⟨n, hn, hx⟩ := List.mem_flatMap.mp hx
      obtain ⟨j, a, ha, hj⟩ := exists_of_mem_eachFrom hmessages hn
      exact ih a ha hj x hx
    · obtain ⟨e, he, rfl⟩ := List.mem_map.mp hx
      obtain ⟨j, a, _, hj⟩ := exists_of_mem_eachFrom henums he
      exact .enum (Scope.file_inside _ _ _) hj

theorem Message.declare_names {s : Scope} {member : Member} {i : Nat} {d : MessageDescriptor}
    {m : Message} (h : Message.declare s member i d = .ok m) :
    m.declared.map Declared.fullName = d.declaredNames s.fullName := by
  induction d using MessageDescriptor.induct generalizing s member i m with
  | step d ih =>
    obtain ⟨_, hname, _, inner, rfl, _, hmessages, henums⟩ := Message.of_declare h
    rw [Message.declared_eq, MessageDescriptor.declaredNames_eq, List.map_cons, List.map_append,
      List.map_flatMap, List.map_map]
    have hnested := flatMap_eachFrom (fun j a ha n hn => ih a ha hn) hmessages
    have hlisted : m.enums.map Enum.fullName =
        d.enums.map fun e => s.fullName d.name ++ "." ++ e.name := by
      rw [List.map_eq_flatMap, List.map_eq_flatMap]
      refine flatMap_eachFrom (fun j a ha e he => ?_) henums
      rw [Enum.declare_fullName he, Scope.fullName_inside]
    rw [hnested]
    show m.fullName :: (_ ++ m.enums.map Enum.fullName) = _
    rw [hname, hlisted]
    rfl

/-- Each message that is declared in a message is made of a descriptor in its descriptor. -/
theorem Message.declare_within {s : Scope} {member : Member} {i : Nat} {d : MessageDescriptor}
    {m : Message} (h : Message.declare s member i d = .ok m) {n : Message}
    (hn : .message n ∈ m.declared) :
    ∃ s' member' i', ∃ d' ∈ d.messagesWithin, Message.declare s' member' i' d' = .ok n := by
  induction d using MessageDescriptor.induct generalizing s member i m with
  | step d ih =>
    obtain ⟨_, _, _, inner, rfl, _, hmessages, _⟩ := Message.of_declare h
    rw [Message.declared_eq, List.mem_cons, List.mem_append] at hn
    rw [MessageDescriptor.messagesWithin_eq]
    rcases hn with hn | hn | hn
    · cases hn
      exact ⟨s, member, i, d, List.mem_cons_self, h⟩
    · obtain ⟨c, hc, hn⟩ := List.mem_flatMap.mp hn
      obtain ⟨j, a, ha, hj⟩ := exists_of_mem_eachFrom hmessages hc
      obtain ⟨s', member', i', d', hd', hmade⟩ := ih a ha hj hn
      exact ⟨s', member', i', d',
        List.mem_cons_of_mem _ (List.mem_flatMap.mpr ⟨a, ha, hd'⟩), hmade⟩
    · obtain ⟨e, _, he⟩ := List.mem_map.mp hn
      cases he

/-- A file is made of its descriptor and its header. -/
theorem File.of_declare {rule : PathRule} {toGenerate : List String} {index : Nat}
    {d : FileDescriptor} {f : File} (h : File.declare rule toGenerate index d = .ok f) :
    f.header = FileHeader.ofDescriptor rule toGenerate index d ∧ f.dependencies = d.dependencies ∧
      eachFrom (Message.declare (.ofFile f.header) .fileMessages) 0 d.messages = .ok f.messages ∧
      eachFrom (Enum.declare (.ofFile f.header) .fileEnums) 0 d.enums = .ok f.enums := by
  simp only [File.declare] at h
  split at h
  · cases h
  · simp only [bind_eq_ok_iff, pure_eq_ok_iff, Message.declareAll_eq, Enum.declareAll_eq] at h
    obtain ⟨ms, hms, es, hes, rfl⟩ := h
    exact ⟨rfl, rfl, hms, hes⟩

section

variable {rule : PathRule} {toGenerate : List String} {index : Nat} {d : FileDescriptor} {f : File}

theorem File.declare_made (h : File.declare rule toGenerate index d = .ok f) :
    ∀ x ∈ f.declared, x.MadeIn f.header := by
  obtain ⟨_, _, hmessages, henums⟩ := File.of_declare h
  intro x hx
  rcases List.mem_append.mp hx with hx | hx
  · obtain ⟨m, hm, hx⟩ := List.mem_flatMap.mp hx
    obtain ⟨j, a, _, hj⟩ := exists_of_mem_eachFrom hmessages hm
    exact Message.declare_made hj x hx
  · obtain ⟨e, he, rfl⟩ := List.mem_map.mp hx
    obtain ⟨j, a, _, hj⟩ := exists_of_mem_eachFrom henums he
    exact .enum rfl hj

theorem File.declare_names (h : File.declare rule toGenerate index d = .ok f) :
    f.declared.map Declared.fullName = d.declaredNames := by
  obtain ⟨hheader, _, hmessages, henums⟩ := File.of_declare h
  have hcomplete : (Scope.ofFile f.header).fullName = Scope.joinName d.package := by
    rw [hheader]
    rfl
  have hlisted : f.enums.map Enum.fullName = d.enums.map fun e => Scope.joinName d.package e.name := by
    rw [List.map_eq_flatMap, List.map_eq_flatMap]
    refine flatMap_eachFrom (fun j a ha e he => ?_) henums
    rw [Enum.declare_fullName he, hcomplete]
  have hmade := flatMap_eachFrom (fun j a ha m hm => Message.declare_names hm) hmessages
  rw [File.declared, List.map_append, List.map_flatMap, hmade, hcomplete, List.map_map,
    FileDescriptor.declaredNames, MessageDescriptor.allDeclaredNames_eq]
  exact congrArg _ hlisted

theorem File.declare_within (h : File.declare rule toGenerate index d = .ok f) {m : Message}
    (hm : .message m ∈ f.declared) :
    ∃ s member i, ∃ a ∈ MessageDescriptor.allMessagesWithin d.messages,
      Message.declare s member i a = .ok m := by
  obtain ⟨_, _, hmessages, _⟩ := File.of_declare h
  rcases List.mem_append.mp hm with hm | hm
  · obtain ⟨n, hn, hm⟩ := List.mem_flatMap.mp hm
    obtain ⟨j, a, ha, hj⟩ := exists_of_mem_eachFrom hmessages hn
    obtain ⟨s, member, i, a', ha', hmade⟩ := Message.declare_within hj hm
    rw [MessageDescriptor.allMessagesWithin_eq]
    exact ⟨s, member, i, a', List.mem_flatMap.mpr ⟨a, ha, ha'⟩, hmade⟩
  · obtain ⟨e, _, he⟩ := List.mem_map.mp hm
    cases he

end

namespace Declared.MadeIn

variable {header : FileHeader} {x : Declared}

theorem field (h : x.MadeIn header) {m : Message} (hx : x = .message m) {f : Field}
    (hf : f ∈ m.fields) : f.file = header ∧ f.parent = m.fullName := by
  cases h with
  | enum _ _ => cases hx
  | message hs hm =>
    cases hx
    obtain ⟨_, _, _, inner, rfl, hfields, _, _⟩ := Message.of_declare hm
    obtain ⟨j, a, _, hj⟩ := exists_of_mem_eachFrom hfields hf
    obtain ⟨hfile, hparent, _⟩ := Field.of_declare hj
    exact ⟨hfile.trans hs, hparent⟩

end Declared.MadeIn

end SchemaScript
