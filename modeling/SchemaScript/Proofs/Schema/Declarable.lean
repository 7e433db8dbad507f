import SchemaScript.Proofs.Schema.Named
import SchemaScript.Proofs.Schema.Regular

/-!
# Which files can be declared

The faults that end the making of the declarations of a file.

A name or a comment that is no text can be one.  Where all are texts (`FileDescriptor.IsText`), only
the numbers in fields are left: the type and the cardinality must be known, and the oneof must be one
of the message (`FieldDescriptor.InRange`).  Each field that is declared keeps to that
(`Message.inRange_of_declare`), and a file of texts whose fields keep to it is declared
(`File.exists_declare`), at whatever depth the fields stand.
-/

namespace SchemaScript

open Outcome

/-! ## Conditions on descriptors -/

/-- The numbers in a field of a message with a number of oneofs are those of a type, of a
cardinality and of a oneof. -/
structure FieldDescriptor.InRange (oneofs : Nat) (d : FieldDescriptor) : Prop where
  type : 1 ≤ d.typeNumber ∧ d.typeNumber ≤ 18
  label : 1 ≤ d.label ∧ d.label ≤ 3
  oneof : ∀ i ∈ d.oneofIndex, -(oneofs : Int) ≤ i ∧ i < oneofs

/-- All names, references and comments in a file are texts. -/
structure FileDescriptor.IsText (d : FileDescriptor) : Prop where
  names : d.unreadable = []
  comments : ∀ c ∈ d.comments, c.isText = true

/-! ## Numbers -/

theorem ScalarType.ofOrdinal?_isSome_iff {n : Int} :
    (ofOrdinal? n).isSome ↔ n ∈ all.map fun t => (t.ordinal : Int) := by
  simp [ofOrdinal?]

theorem FieldType.ofCode?_isSome_iff {n : Int} : (ofCode? n).isSome ↔ 1 ≤ n ∧ n ≤ 18 := by
  unfold ofCode?
  split
  · simp; omega
  · split
    · simp; omega
    · split
      · simp; omega
      · rw [Option.isSome_map, ScalarType.ofOrdinal?_isSome_iff]
        simp [ScalarType.all, ScalarType.ordinal]
        omega

theorem Cardinality.ofCode?_isSome_iff {n : Int} : (ofCode? n).isSome ↔ 1 ≤ n ∧ n ≤ 3 := by
  unfold ofCode?
  split
  · simp; omega
  · split
    · simp; omega
    · split
      · simp; omega
      · simp; omega

theorem atIndex?_isSome_iff {α : Type} {items : List α} {i : Int} :
    (atIndex? items i).isSome ↔ -(items.length : Int) ≤ i ∧ i < items.length := by
  unfold atIndex?
  split
  · simp; omega
  · split
    · simp; omega
    · simp; omega

theorem Oneof.exists_ofIndex_iff {oneofs : List Oneof} {index : Option Int} :
    (∃ o, Oneof.ofIndex oneofs index = .ok o) ↔
      ∀ i ∈ index, -(oneofs.length : Int) ≤ i ∧ i < oneofs.length := by
  cases index with
  | none => simp [ofIndex]
  | some i =>
    simp only [Option.mem_def, Option.some.injEq, forall_eq', ← atIndex?_isSome_iff]
    cases h : atIndex? oneofs i with
    | none => simp [ofIndex, h]
    | some o => simp [ofIndex, h]

/-! ## Making declarations -/

/-- All texts and comments of a file are what they should be. -/
structure FileHeader.IsText (h : FileHeader) : Prop where
  names : h.unreadable = []
  comments : ∀ c ∈ h.comments, c.isText = true

/-- A scope in a file of texts, in which names can be put after what is around them. -/
structure Scope.IsText (s : Scope) : Prop where
  named : s.isNamed = true
  file : s.file.IsText

section

variable {h : FileHeader} {s : Scope}

theorem FileHeader.IsText.isText (hh : h.IsText) (path : List Nat) : h.isText path = true := by
  simp [FileHeader.isText, hh.names]

theorem FileHeader.IsText.exists_locate (hh : h.IsText) (path : List Nat) :
    ∃ l, h.locate path = .ok l := by
  unfold FileHeader.locate
  split
  · next c hc =>
    rw [if_pos (hh.comments c (List.mem_of_find?_eq_some hc))]
    exact ⟨_, rfl⟩
  · exact ⟨_, rfl⟩

theorem Scope.isText_ofFile (hh : h.IsText) : (ofFile h).IsText :=
  ⟨hh.isText packagePath, hh⟩

theorem Scope.IsText.inside (hs : s.IsText) (path : List Nat) (name : String) :
    (s.inside path name).IsText :=
  ⟨hs.file.isText (namePath path), hs.file⟩

theorem Scope.IsText.checkName (hs : s.IsText) (path : List Nat) : s.checkName path = .ok () := by
  simp [Scope.checkName, hs.named, hs.file.isText]

theorem EnumValue.exists_declareAll (hh : h.IsText) (path : List Nat) (i : Nat)
    (ds : List EnumValueDescriptor) : ∃ vs, EnumValue.declareAll h path i ds = .ok vs := by
  rw [EnumValue.declareAll_eq]
  refine exists_eachFrom (fun j d _ => ?_) i
  obtain ⟨l, hl⟩ := hh.exists_locate (path ++ [Member.enumValues.number, j])
  simp only [EnumValue.declare, bind_eq_ok_iff, pure_eq_ok_iff]
  exact ⟨_, l, hl, rfl⟩

theorem checkStems_of_isText (hh : h.IsText) (stem : String) (vs : List EnumValue) :
    checkStems h stem vs = .ok () := by
  induction vs with
  | nil => rfl
  | cons v rest ih =>
    simp [checkStems, hh.isText, ih]

theorem Enum.exists_declare (hs : s.IsText) (member : Member) (i : Nat) (d : EnumDescriptor) :
    ∃ e, Enum.declare s member i d = .ok e := by
  obtain ⟨l, hl⟩ := hs.file.exists_locate (s.path ++ [member.number, i])
  obtain ⟨vs, hvs⟩ := EnumValue.exists_declareAll hs.file (s.path ++ [member.number, i]) 0 d.values
  have hstem : ∃ stem, d.stem? s.file (s.path ++ [member.number, i]) vs = .ok stem := by
    simp only [EnumDescriptor.stem?, hs.file.isText, checkStems_of_isText hs.file]
    exact ⟨_, rfl⟩
  obtain ⟨stem, hstem⟩ := hstem
  simp only [Enum.declare, bind_eq_ok_iff, pure_eq_ok_iff]
  exact ⟨_, (), hs.checkName _, l, hl, vs, hvs, stem, hstem, rfl⟩

theorem Oneof.exists_declare (hs : s.IsText) (i : Nat) (d : OneofDescriptor) :
    ∃ o, Oneof.declare s i d = .ok o := by
  obtain ⟨l, hl⟩ := hs.file.exists_locate (s.path ++ [Member.messageOneofs.number, i])
  simp only [Oneof.declare, bind_eq_ok_iff, pure_eq_ok_iff]
  exact ⟨_, (), hs.checkName _, l, hl, rfl⟩

theorem Field.inRange_of_declare {messageName : String} {oneofs : List Oneof} {i : Nat}
    {d : FieldDescriptor} {f : Field} (h : Field.declare s messageName oneofs i d = .ok f) :
    d.InRange oneofs.length := by
  simp only [Field.declare, bind_eq_ok_iff] at h
  obtain ⟨o, ho, _, _, h⟩ := h
  split at h
  · next t ht =>
    split at h
    · next c hc =>
      exact ⟨FieldType.ofCode?_isSome_iff.mp (by rw [ht]; rfl),
        Cardinality.ofCode?_isSome_iff.mp (by rw [hc]; rfl),
        Oneof.exists_ofIndex_iff.mp ⟨o, ho⟩⟩
    · cases h
  · cases h

theorem Field.exists_declare (hs : s.IsText) (messageName : String) {oneofs : List Oneof}
    (i : Nat) {d : FieldDescriptor} (hd : d.InRange oneofs.length) :
    ∃ f, Field.declare s messageName oneofs i d = .ok f := by
  obtain ⟨o, ho⟩ := Oneof.exists_ofIndex_iff.mpr hd.oneof
  obtain ⟨t, ht⟩ := Option.isSome_iff_exists.mp (FieldType.ofCode?_isSome_iff.mpr hd.type)
  obtain ⟨c, hc⟩ := Option.isSome_iff_exists.mp (Cardinality.ofCode?_isSome_iff.mpr hd.label)
  obtain ⟨l, hl⟩ := hs.file.exists_locate (s.path ++ [Member.messageFields.number, i])
  simp only [Field.declare, bind_eq_ok_iff, ht, hc, pure_eq_ok_iff]
  exact ⟨_, o, ho, (), hs.checkName _, t, rfl, c, rfl, l, hl, rfl⟩

theorem Message.length_oneofs {member : Member} {i : Nat} {d : MessageDescriptor} {m : Message}
    (h : Message.declare s member i d = .ok m) : m.oneofs.length = d.oneofs.length :=
  length_eachFrom (Message.declare_oneofs h)

theorem Message.inRange_of_declare {member : Member} {i : Nat} {d : MessageDescriptor}
    {m : Message} (h : Message.declare s member i d = .ok m) :
    ∀ f ∈ d.fields, f.InRange d.oneofs.length := by
  intro f hf
  obtain ⟨_, _, _, inner, _, hfields, _⟩ := Message.of_declare h
  obtain ⟨j, g, _, hg⟩ := exists_of_mem_of_eachFrom hfields hf
  rw [← Message.length_oneofs h]
  exact Field.inRange_of_declare hg

theorem Message.exists_declare (hs : s.IsText) (member : Member) (i : Nat) {d : MessageDescriptor}
    (hd : ∀ m ∈ d.messagesWithin, ∀ f ∈ m.fields, f.InRange m.oneofs.length) :
    ∃ m, Message.declare s member i d = .ok m := by
  induction d using MessageDescriptor.induct generalizing s member i with
  | step d ih =>
    rw [MessageDescriptor.messagesWithin_eq] at hd
    cases d with
    | mk name fields oneofs messages enums extensions isMapEntry isMessageSet features =>
      simp only [Message.declare, bind_eq_ok_iff, pure_eq_ok_iff, Oneof.declareAll_eq,
        Field.declareAll_eq, Message.declareAll_eq, Enum.declareAll_eq]
      have hinner := hs.inside (s.path ++ [member.number, i]) name
      obtain ⟨l, hl⟩ := hs.file.exists_locate (s.path ++ [member.number, i])
      obtain ⟨os, hos⟩ := exists_eachFrom
        (fun j o (_ : o ∈ oneofs) => Oneof.exists_declare hinner j o) 0
      have hfields : ∀ j, ∀ f ∈ fields, ∃ g, Field.declare
          (s.inside (s.path ++ [member.number, i]) name) (s.fullName name) os j f = .ok g := by
        intro j f hf
        refine Field.exists_declare hinner _ j ?_
        rw [length_eachFrom hos]
        exact hd _ List.mem_cons_self f hf
      have hmessages : ∀ j, ∀ n ∈ messages, ∃ m, Message.declare
          (s.inside (s.path ++ [member.number, i]) name) .messageMessages j n = .ok m :=
        fun j n hn => ih n hn hinner .messageMessages j fun m hm =>
          hd m (List.mem_cons_of_mem _ (List.mem_flatMap.mpr ⟨n, hn, hm⟩))
      obtain ⟨fs, hfs⟩ := exists_eachFrom hfields 0
      obtain ⟨ms, hms⟩ := exists_eachFrom hmessages 0
      obtain ⟨es, hes⟩ := exists_eachFrom
        (fun j e (_ : e ∈ enums) => Enum.exists_declare hinner .messageEnums j e) 0
      exact ⟨_, (), hs.checkName _, l, hl, os, hos, fs, hfs, ms, hms, es, hes, rfl⟩

end

section

variable {rule : PathRule} {toGenerate : List String} {index : Nat} {d : FileDescriptor} {f : File}

/-- A file of texts is declared unless a number is out of range. -/
theorem File.exists_declare (hd : d.IsText)
    (hrange : ∀ p ∈ d.namedMessages, ∀ f ∈ p.2.fields, f.InRange p.2.oneofs.length)
    (rule : PathRule) (toGenerate : List String) (index : Nat) :
    ∃ f, File.declare rule toGenerate index d = .ok f := by
  have hheader : (FileHeader.ofDescriptor rule toGenerate index d).IsText := ⟨hd.names, hd.comments⟩
  have hscope := Scope.isText_ofFile hheader
  have hmessages : ∀ j, ∀ n ∈ d.messages, ∃ m, Message.declare
      (.ofFile (FileHeader.ofDescriptor rule toGenerate index d)) .fileMessages j n = .ok m := by
    intro j n hn
    refine Message.exists_declare hscope .fileMessages j fun m hm => ?_
    have hmem : m ∈ MessageDescriptor.allMessagesWithin d.messages := by
      rw [MessageDescriptor.allMessagesWithin_eq]
      exact List.mem_flatMap.mpr ⟨n, hn, hm⟩
    obtain ⟨name, hname⟩ := FileDescriptor.mem_allMessagesWithin_iff.mp hmem
    exact hrange (name, m) hname
  obtain ⟨ms, hms⟩ := exists_eachFrom hmessages 0
  obtain ⟨es, hes⟩ := exists_eachFrom
    (fun j e (_ : e ∈ d.enums) => Enum.exists_declare hscope .fileEnums j e) 0
  refine ⟨⟨FileHeader.ofDescriptor rule toGenerate index d, d.dependencies, ms, es⟩, ?_⟩
  simp only [File.declare, hheader.isText, Message.declareAll_eq, Enum.declareAll_eq, hms, hes]
  rfl

end

end SchemaScript
