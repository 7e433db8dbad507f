import SchemaScript.Proofs.Related
import SchemaScript.Proofs.Schema.Making

/-!
# Declarations of descriptors

What the descriptor of a file declares, with the full names, before anything is made of it.

`FileDescriptor.described` lists the messages and the enums of a file in the order in which the file
registers what is made of them.  So the two lists belong together position by position
(`File.declare_described`): each declaration has the full name of its descriptor and is made of it
(`Declared.MadeOf`).  `File.declare_namedMessages` and `File.declare_namedEnums` say it of the
declarations of one sort.
-/

namespace SchemaScript

open Outcome

/-! ## Names -/

/-- A message or an enum as given. -/
inductive Described where
  | message (d : MessageDescriptor)
  | enum (d : EnumDescriptor)

namespace Described

/-- What is given if it is a message. -/
def message? : Described → Option MessageDescriptor
  | .message d => some d
  | .enum _ => none

/-- What is given if it is an enum. -/
def enum? : Described → Option EnumDescriptor
  | .message _ => none
  | .enum d => some d

end Described

mutual

/-- What a message declares with the full names, itself first, where a name is completed by what is
around it. -/
def MessageDescriptor.described (complete : String → String) :
    MessageDescriptor → List (String × Described)
  | ⟨name, fields, oneofs, messages, enums, extensions, isMapEntry, isMessageSet, features⟩ =>
    (complete name, .message
      ⟨name, fields, oneofs, messages, enums, extensions, isMapEntry, isMessageSet, features⟩) ::
      (MessageDescriptor.allDescribed (fun inner => complete name ++ "." ++ inner) messages ++
        enums.map fun e => (complete name ++ "." ++ e.name, .enum e))

/-- What messages in order declare. -/
def MessageDescriptor.allDescribed (complete : String → String) :
    List MessageDescriptor → List (String × Described)
  | [] => []
  | d :: rest => d.described complete ++ MessageDescriptor.allDescribed complete rest

end

namespace MessageDescriptor

theorem allDescribed_eq (complete : String → String) (ds : List MessageDescriptor) :
    allDescribed complete ds = ds.flatMap (·.described complete) := by
  induction ds with
  | nil => rfl
  | cons d rest ih => rw [allDescribed, ih, List.flatMap_cons]

theorem described_eq (complete : String → String) (d : MessageDescriptor) :
    d.described complete = (complete d.name, .message d) ::
      (d.messages.flatMap (·.described fun inner => complete d.name ++ "." ++ inner) ++
        d.enums.map fun e => (complete d.name ++ "." ++ e.name, .enum e)) := by
  cases d
  rw [described, allDescribed_eq]

theorem mem_messagesWithin_iff {complete : String → String} {d m : MessageDescriptor} :
    m ∈ d.messagesWithin ↔ ∃ n, (n, .message m) ∈ d.described complete := by
  induction d using MessageDescriptor.induct generalizing complete with
  | step d ih =>
    rw [messagesWithin_eq, described_eq]
    simp only [List.mem_cons, List.mem_append, List.mem_flatMap, List.mem_map, Prod.mk.injEq,
      Described.message.injEq, reduceCtorEq, and_false, exists_false, or_false, exists_or]
    refine or_congr (by simp) ?_
    constructor
    · rintro ⟨c, hc, hm⟩
      obtain ⟨n, hn⟩ := (ih c hc).mp hm
      exact ⟨n, c, hc, hn⟩
    · rintro ⟨n, c, hc, hn⟩
      exact ⟨c, hc, (ih c hc).mpr ⟨n, hn⟩⟩

end MessageDescriptor

namespace FileDescriptor

/-- What a file declares with the full names. -/
def described (d : FileDescriptor) : List (String × Described) :=
  MessageDescriptor.allDescribed (Scope.joinName d.package) d.messages ++
    d.enums.map fun e => (Scope.joinName d.package e.name, .enum e)

/-- The messages that a file declares, at any depth, with their full names. -/
def namedMessages (d : FileDescriptor) : List (String × MessageDescriptor) :=
  d.described.filterMap fun p => p.2.message?.map (p.1, ·)

/-- The enums that a file declares, at any depth, with their full names. -/
def namedEnums (d : FileDescriptor) : List (String × EnumDescriptor) :=
  d.described.filterMap fun p => p.2.enum?.map (p.1, ·)

/-- The full names of the messages that a file declares. -/
def messageNames (d : FileDescriptor) : List String :=
  d.namedMessages.map Prod.fst

/-- The full names of the enums that a file declares. -/
def enumNames (d : FileDescriptor) : List String :=
  d.namedEnums.map Prod.fst

theorem mem_namedMessages_iff {d : FileDescriptor} {n : String} {m : MessageDescriptor} :
    (n, m) ∈ d.namedMessages ↔ (n, .message m) ∈ d.described := by
  unfold namedMessages
  constructor
  · intro h
    obtain ⟨⟨n', x⟩, hx, hmap⟩ := List.mem_filterMap.mp h
    cases x with
    | message m' => cases hmap; exact hx
    | enum e => cases hmap
  · intro h
    exact List.mem_filterMap.mpr ⟨_, h, rfl⟩

theorem mem_allMessagesWithin_iff {d : FileDescriptor} {m : MessageDescriptor} :
    m ∈ MessageDescriptor.allMessagesWithin d.messages ↔ ∃ n, (n, m) ∈ d.namedMessages := by
  simp only [mem_namedMessages_iff, described, MessageDescriptor.allMessagesWithin_eq,
    MessageDescriptor.allDescribed_eq, List.mem_append, List.mem_flatMap, List.mem_map,
    Prod.mk.injEq, reduceCtorEq, and_false, exists_false, or_false]
  constructor
  · rintro ⟨c, hc, hm⟩
    obtain ⟨n, hn⟩ := MessageDescriptor.mem_messagesWithin_iff.mp hm
    exact ⟨n, c, hc, hn⟩
  · rintro ⟨n, c, hc, hn⟩
    exact ⟨c, hc, MessageDescriptor.mem_messagesWithin_iff.mpr ⟨n, hn⟩⟩

end FileDescriptor

/-- The messages that a file declares, in the order in which it registers them. -/
def File.declaredMessages (f : File) : List Message :=
  f.declared.filterMap Declared.message?

/-- The enums that a file declares, in the order in which it registers them. -/
def File.declaredEnums (f : File) : List Enum :=
  f.declared.filterMap Declared.enum?

theorem File.mem_declaredMessages {f : File} {m : Message} :
    m ∈ f.declaredMessages ↔ .message m ∈ f.declared := by
  simp [declaredMessages, Declared.message?_eq_some_iff]

theorem File.mem_declaredEnums {f : File} {e : Enum} :
    e ∈ f.declaredEnums ↔ .enum e ∈ f.declared := by
  simp [declaredEnums, Declared.enum?_eq_some_iff]

/-! ## What is made of them -/

/-- A message has a full name and is made of a descriptor. -/
def Message.MadeOf (named : String × MessageDescriptor) (m : Message) : Prop :=
  m.fullName = named.1 ∧ ∃ s member i, Message.declare s member i named.2 = .ok m

/-- An enum has a full name and is made of a descriptor. -/
def Enum.MadeOf (named : String × EnumDescriptor) (e : Enum) : Prop :=
  e.fullName = named.1 ∧ ∃ s member i, Enum.declare s member i named.2 = .ok e

/-- A declaration has a full name and is made of a descriptor of its sort. -/
inductive Declared.MadeOf : String × Described → Declared → Prop where
  | message {name : String} {d : MessageDescriptor} {m : Message} (h : m.MadeOf (name, d)) :
      MadeOf (name, .message d) (.message m)
  | enum {name : String} {d : EnumDescriptor} {e : Enum} (h : e.MadeOf (name, d)) :
      MadeOf (name, .enum d) (.enum e)

theorem Enum.declareAll_madeOf {s : Scope} {member : Member} {i : Nat} {ds : List EnumDescriptor}
    {es : List Enum} (h : eachFrom (Enum.declare s member) i ds = .ok es) :
    List.Forall₂ Declared.MadeOf (ds.map fun d => (s.fullName d.name, .enum d))
      (es.map .enum) := by
  rw [List.forall₂_map_left_iff, List.forall₂_map_right_iff]
  refine forall₂_eachFrom (fun j d _ e he => ?_) h
  exact .enum ⟨Enum.declare_fullName he, s, member, j, he⟩

theorem Message.declare_described {s : Scope} {member : Member} {i : Nat} {d : MessageDescriptor}
    {m : Message} (h : Message.declare s member i d = .ok m) :
    List.Forall₂ Declared.MadeOf (d.described s.fullName) m.declared := by
  induction d using MessageDescriptor.induct generalizing s member i m with
  | step d ih =>
    obtain ⟨_, hname, _, inner, rfl, _, hmessages, henums⟩ := Message.of_declare h
    rw [MessageDescriptor.described_eq, Message.declared_eq]
    refine .cons (.message ⟨hname, s, member, i, h⟩) ?_
    refine List.rel_append ?_ (Enum.declareAll_madeOf henums)
    refine Related.flatMap (forall₂_eachFrom (fun j n hn c hc => ?_) hmessages)
    have hnested := ih n hn hc
    exact hnested

section

variable {rule : PathRule} {toGenerate : List String} {index : Nat} {d : FileDescriptor} {f : File}

theorem File.declare_described (h : File.declare rule toGenerate index d = .ok f) :
    List.Forall₂ Declared.MadeOf d.described f.declared := by
  obtain ⟨hheader, _, hmessages, henums⟩ := File.of_declare h
  have hcomplete : (Scope.ofFile f.header).fullName = Scope.joinName d.package := by
    rw [hheader]
    rfl
  rw [FileDescriptor.described, MessageDescriptor.allDescribed_eq, File.declared, ← hcomplete]
  refine List.rel_append ?_ (Enum.declareAll_madeOf henums)
  exact Related.flatMap
    (forall₂_eachFrom (fun j n _ c hc => Message.declare_described hc) hmessages)

theorem File.declare_namedMessages (h : File.declare rule toGenerate index d = .ok f) :
    List.Forall₂ (fun p m => m.MadeOf p) d.namedMessages f.declaredMessages := by
  refine List.rel_filterMap ?_ (File.declare_described h)
  intro p x hx
  cases hx with
  | message hm => exact .some hm
  | enum _ => exact .none

theorem File.declare_namedEnums (h : File.declare rule toGenerate index d = .ok f) :
    List.Forall₂ (fun p e => e.MadeOf p) d.namedEnums f.declaredEnums := by
  refine List.rel_filterMap ?_ (File.declare_described h)
  intro p x hx
  cases hx with
  | message _ => exact .none
  | enum he => exact .some he

end

/-! ## Files in order -/

section

variable {rule : PathRule} {toGenerate : List String} {i : Nat} {ds : List FileDescriptor}
  {fs : List File} {name : String}

theorem File.names_of_declare (h : eachFrom (File.declare rule toGenerate) i ds = .ok fs) :
    fs.map (·.header.name) = ds.map FileDescriptor.name := by
  rw [List.map_eq_flatMap, List.map_eq_flatMap]
  exact flatMap_eachFrom (fun j d _ f hf => by rw [(File.of_declare hf).1]; rfl) h

theorem File.exists_message_iff (h : eachFrom (File.declare rule toGenerate) i ds = .ok fs) :
    (∃ m, .message m ∈ fs.flatMap File.declared ∧ m.fullName = name) ↔
      name ∈ ds.flatMap FileDescriptor.messageNames := by
  rw [List.mem_flatMap]
  have hall : List.Forall₂ (fun d f =>
      List.Forall₂ (fun p m => m.MadeOf p) d.namedMessages f.declaredMessages) ds fs :=
    forall₂_eachFrom (fun j d _ f hf => File.declare_namedMessages hf) h
  constructor
  · rintro ⟨m, hm, rfl⟩
    obtain ⟨f, hf, hm⟩ := List.mem_flatMap.mp hm
    obtain ⟨d, hd, hfd⟩ := Related.exists_left hall hf
    obtain ⟨p, hp, hname, _⟩ := Related.exists_left hfd (File.mem_declaredMessages.mpr hm)
    exact ⟨d, hd, List.mem_map.mpr ⟨p, hp, hname.symm⟩⟩
  · rintro ⟨d, hd, hname⟩
    obtain ⟨p, hp, rfl⟩ := List.mem_map.mp hname
    obtain ⟨f, hf, hfd⟩ := Related.exists_right hall hd
    obtain ⟨m, hm, hname, _⟩ := Related.exists_right hfd hp
    exact ⟨m, List.mem_flatMap.mpr ⟨f, hf, File.mem_declaredMessages.mp hm⟩, hname⟩

theorem File.exists_enum_iff (h : eachFrom (File.declare rule toGenerate) i ds = .ok fs) :
    (∃ e, .enum e ∈ fs.flatMap File.declared ∧ e.fullName = name) ↔
      name ∈ ds.flatMap FileDescriptor.enumNames := by
  rw [List.mem_flatMap]
  have hall : List.Forall₂ (fun d f =>
      List.Forall₂ (fun p e => e.MadeOf p) d.namedEnums f.declaredEnums) ds fs :=
    forall₂_eachFrom (fun j d _ f hf => File.declare_namedEnums hf) h
  constructor
  · rintro ⟨e, he, rfl⟩
    obtain ⟨f, hf, he⟩ := List.mem_flatMap.mp he
    obtain ⟨d, hd, hfd⟩ := Related.exists_left hall hf
    obtain ⟨p, hp, hname, _⟩ := Related.exists_left hfd (File.mem_declaredEnums.mpr he)
    exact ⟨d, hd, List.mem_map.mpr ⟨p, hp, hname.symm⟩⟩
  · rintro ⟨d, hd, hname⟩
    obtain ⟨p, hp, rfl⟩ := List.mem_map.mp hname
    obtain ⟨f, hf, hfd⟩ := Related.exists_right hall hd
    obtain ⟨e, he, hname, _⟩ := Related.exists_right hfd hp
    exact ⟨e, List.mem_flatMap.mpr ⟨f, hf, File.mem_declaredEnums.mp he⟩, hname⟩

end

end SchemaScript
