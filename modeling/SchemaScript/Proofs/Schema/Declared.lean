import Mathlib.Data.List.Induction
import SchemaScript.Proofs.Table
import SchemaScript.Schema.Registry

/-!
# Declarations in a registry

What a registry holds after files were registered.

`File.declared` lists the declarations of a file in the order in which they are registered: a
message, then what is declared in the messages in it, then the enums in it.  The entries of maps are
among them.  Registering a file is registering these one by one (`Registry.addFile_eq`).

Where the full names are distinct, a look-up finds a declaration by its full name and nothing else
(`Registry.Holds.messages_get?_iff`, `Registry.Holds.enums_get?_iff`,
`Registry.Holds.declared?_iff`).
-/

namespace SchemaScript

/-! ## Declarations in order -/

/-- What holds of a message if it holds of the messages in it holds of all messages. -/
theorem Message.induct {P : Message → Prop} (step : ∀ m, (∀ n ∈ m.messages, P n) → P m) :
    ∀ m, P m
  | ⟨file, fullName, symbol, parent, location, isMapEntry, oneofs, fields, messages, enums⟩ =>
    step ⟨file, fullName, symbol, parent, location, isMapEntry, oneofs, fields, messages, enums⟩
      fun n _ => Message.induct step n

mutual

/-- A message and what is declared in it. -/
def Message.declared : Message → List Declared
  | ⟨file, fullName, symbol, parent, location, isMapEntry, oneofs, fields, messages, enums⟩ =>
    .message
      ⟨file, fullName, symbol, parent, location, isMapEntry, oneofs, fields, messages, enums⟩ ::
        (Message.allDeclared messages ++ enums.map .enum)

/-- Messages in order and what is declared in them. -/
def Message.allDeclared : List Message → List Declared
  | [] => []
  | m :: rest => m.declared ++ Message.allDeclared rest

end

theorem Message.allDeclared_eq (ms : List Message) :
    Message.allDeclared ms = ms.flatMap Message.declared := by
  induction ms with
  | nil => rfl
  | cons m rest ih => rw [Message.allDeclared, ih, List.flatMap_cons]

theorem Message.declared_eq (m : Message) :
    m.declared = .message m :: (m.messages.flatMap Message.declared ++ m.enums.map .enum) := by
  cases m
  rw [Message.declared, Message.allDeclared_eq]

/-- What a file declares. -/
def File.declared (f : File) : List Declared :=
  f.messages.flatMap Message.declared ++ f.enums.map .enum

theorem Message.self_mem_declared (m : Message) : .message m ∈ m.declared := by
  rw [Message.declared_eq]
  exact List.mem_cons_self

namespace Declared

/-- A declaration if it is a message. -/
def message? : Declared → Option Message
  | .message m => some m
  | .enum _ => none

/-- A declaration if it is an enum. -/
def enum? : Declared → Option Enum
  | .message _ => none
  | .enum e => some e

/-- Whether a declaration is a message. -/
def isMessage (x : Declared) : Bool :=
  x.message?.isSome

theorem message?_eq_some_iff {x : Declared} {m : Message} :
    x.message? = some m ↔ x = .message m := by
  cases x <;> simp [message?]

theorem enum?_eq_some_iff {x : Declared} {e : Enum} : x.enum? = some e ↔ x = .enum e := by
  cases x <;> simp [enum?]

/-- The names of the declarations of one kind are among those of all. -/
theorem names_sublist {γ : Type} {part : Declared → Option γ} {name : γ → String}
    (hname : ∀ x c, part x = some c → name c = x.fullName) (ds : List Declared) :
    ((ds.filterMap part).map name).Sublist (ds.map Declared.fullName) := by
  induction ds with
  | nil => exact List.Sublist.slnil
  | cons x rest ih =>
    cases hx : part x with
    | none => simpa [List.filterMap_cons, hx] using ih.cons x.fullName
    | some c => simpa [List.filterMap_cons, hx, hname x c hx] using ih.cons_cons x.fullName

end Declared

/-! ## Registering -/

namespace Registry

/-- The registry with a declaration. -/
def add (r : Registry) : Declared → Registry
  | .message m => { r with messages := r.messages.put m.fullName m }
  | .enum e => r.addEnum e

/-- The registry with declarations in order. -/
def addAll (r : Registry) (ds : List Declared) : Registry :=
  ds.foldl add r

theorem addAll_append (r : Registry) (as bs : List Declared) :
    r.addAll (as ++ bs) = (r.addAll as).addAll bs :=
  List.foldl_append

theorem addEnums_eq (es : List Enum) (r : Registry) : r.addEnums es = r.addAll (es.map .enum) := by
  induction es generalizing r with
  | nil => rfl
  | cons e rest ih => exact ih (r.addEnum e)

mutual

theorem addMessage_eq (r : Registry) (m : Message) : r.addMessage m = r.addAll m.declared := by
  cases m with
  | mk file fullName symbol parent location isMapEntry oneofs fields messages enums =>
    rw [addMessage, addMessages_eq, addEnums_eq, Message.declared, ← addAll_append]
    rfl

theorem addMessages_eq (r : Registry) (ms : List Message) :
    r.addMessages ms = r.addAll (Message.allDeclared ms) := by
  cases ms with
  | nil => rfl
  | cons m rest => rw [addMessages, addMessage_eq, addMessages_eq, Message.allDeclared, addAll_append]

end

theorem addFile_eq (r : Registry) (f : File) :
    r.addFile f = { r with files := r.files.put f.header.name f }.addAll f.declared := by
  rw [addFile, addMessages_eq, addEnums_eq, Message.allDeclared_eq, File.declared, addAll_append]

@[simp] theorem add_files (r : Registry) (x : Declared) : (r.add x).files = r.files := by
  cases x <;> rfl

@[simp] theorem addAll_files (r : Registry) (ds : List Declared) :
    (r.addAll ds).files = r.files := by
  induction ds generalizing r with
  | nil => rfl
  | cons x rest ih => exact (ih (r.add x)).trans (add_files r x)

/-- The registry of files in order. -/
def ofFiles (fs : List File) : Registry :=
  fs.foldl addFile empty

theorem ofFiles_concat (fs : List File) (f : File) :
    ofFiles (fs ++ [f]) = (ofFiles fs).addFile f := by
  simp [ofFiles]

/-- The registry holds the declarations of a list, under different names, and no others. -/
structure Holds (r : Registry) (ds : List Declared) : Prop where
  names_nodup : (ds.map Declared.fullName).Nodup
  messages : r.messages.entries = (ds.filterMap Declared.message?).map fun m => (m.fullName, m)
  enums : r.enums.entries = (ds.filterMap Declared.enum?).map fun e => (e.fullName, e)

theorem holds_empty : empty.Holds [] :=
  ⟨List.nodup_nil, rfl, rfl⟩

namespace Holds

variable {r : Registry} {ds : List Declared}

theorem messages_keys (h : r.Holds ds) : r.messages.keys.Sublist (ds.map Declared.fullName) := by
  rw [Table.keys, h.messages, List.map_map]
  refine Declared.names_sublist (fun x m hx => ?_) ds
  rw [Declared.message?_eq_some_iff.mp hx]
  rfl

theorem enums_keys (h : r.Holds ds) : r.enums.keys.Sublist (ds.map Declared.fullName) := by
  rw [Table.keys, h.enums, List.map_map]
  refine Declared.names_sublist (fun x e hx => ?_) ds
  rw [Declared.enum?_eq_some_iff.mp hx]
  rfl

theorem add (h : r.Holds ds) {x : Declared} (hx : x.fullName ∉ ds.map Declared.fullName) :
    (r.add x).Holds (ds ++ [x]) := by
  have hnodup : ((ds ++ [x]).map Declared.fullName).Nodup := by
    rw [List.map_append]
    exact List.nodup_append_comm.mp (List.nodup_cons.mpr ⟨hx, h.names_nodup⟩)
  cases x with
  | message m =>
    refine ⟨hnodup, ?_, ?_⟩
    · have hm : m.fullName ∉ r.messages.keys := fun hk => hx (h.messages_keys.subset hk)
      show (r.messages.put m.fullName m).entries = _
      rw [Table.entries_put_of_not_mem hm, h.messages]
      simp [Declared.message?]
    · simpa [Registry.add, List.filterMap_cons, Declared.enum?] using h.enums
  | enum e =>
    refine ⟨hnodup, ?_, ?_⟩
    · simpa [Registry.add, addEnum, List.filterMap_cons, Declared.message?] using h.messages
    · have he : e.fullName ∉ r.enums.keys := fun hk => hx (h.enums_keys.subset hk)
      show (r.enums.put e.fullName e).entries = _
      rw [Table.entries_put_of_not_mem he, h.enums]
      simp [Declared.enum?]

theorem addAll (h : r.Holds ds) {xs : List Declared}
    (hxs : ((ds ++ xs).map Declared.fullName).Nodup) : (r.addAll xs).Holds (ds ++ xs) := by
  induction xs generalizing r ds with
  | nil => simpa [Registry.addAll] using h
  | cons x rest ih =>
    have hx : x.fullName ∉ ds.map Declared.fullName := by
      intro hmem
      rw [List.map_append, List.nodup_append] at hxs
      exact hxs.2.2 _ hmem _ (by simp) rfl
    have hrest := ih (h.add hx) (by simpa using hxs)
    simpa [Registry.addAll] using hrest

theorem setFiles (h : r.Holds ds) (files : Table String File) : { r with files := files }.Holds ds :=
  ⟨h.names_nodup, h.messages, h.enums⟩

theorem addFile (h : r.Holds ds) {f : File}
    (hf : ((ds ++ f.declared).map Declared.fullName).Nodup) :
    (r.addFile f).Holds (ds ++ f.declared) := by
  rw [addFile_eq]
  exact (h.setFiles _).addAll hf

theorem eq_of_fullName (h : r.Holds ds) {x y : Declared} (hx : x ∈ ds) (hy : y ∈ ds)
    (hxy : x.fullName = y.fullName) : x = y :=
  List.inj_on_of_nodup_map h.names_nodup hx hy hxy

theorem messages_get?_iff (h : r.Holds ds) {n : String} {m : Message} :
    r.messages.get? n = some m ↔ .message m ∈ ds ∧ m.fullName = n := by
  rw [Table.get?_eq_some_iff (h.names_nodup.sublist h.messages_keys), h.messages]
  simp only [List.mem_map, List.mem_filterMap, Declared.message?_eq_some_iff, Prod.mk.injEq]
  constructor
  · rintro ⟨m', ⟨x, hx, rfl⟩, rfl, rfl⟩
    exact ⟨hx, rfl⟩
  · rintro ⟨hx, rfl⟩
    exact ⟨m, ⟨_, hx, rfl⟩, rfl, rfl⟩

theorem enums_get?_iff (h : r.Holds ds) {n : String} {e : Enum} :
    r.enums.get? n = some e ↔ .enum e ∈ ds ∧ e.fullName = n := by
  rw [Table.get?_eq_some_iff (h.names_nodup.sublist h.enums_keys), h.enums]
  simp only [List.mem_map, List.mem_filterMap, Declared.enum?_eq_some_iff, Prod.mk.injEq]
  constructor
  · rintro ⟨e', ⟨x, hx, rfl⟩, rfl, rfl⟩
    exact ⟨hx, rfl⟩
  · rintro ⟨hx, rfl⟩
    exact ⟨e, ⟨_, hx, rfl⟩, rfl, rfl⟩

theorem declared?_iff (h : r.Holds ds) {n : String} {x : Declared} :
    r.declared? n = some x ↔ x ∈ ds ∧ x.fullName = withoutDot n := by
  cases hm : r.messages.get? (withoutDot n) with
  | some m =>
    obtain ⟨hmem, hname⟩ := h.messages_get?_iff.mp hm
    simp only [declared?, hm, Option.some.injEq]
    constructor
    · rintro rfl
      exact ⟨hmem, hname⟩
    · rintro ⟨hx, hxn⟩
      exact h.eq_of_fullName hmem hx (hname.trans hxn.symm)
  | none =>
    simp only [declared?, hm, Option.map_eq_some_iff, h.enums_get?_iff]
    constructor
    · rintro ⟨e, ⟨he, hname⟩, rfl⟩
      exact ⟨he, hname⟩
    · rintro ⟨hx, hxn⟩
      cases x with
      | message m =>
        have hsome := h.messages_get?_iff.mpr ⟨hx, hxn⟩
        rw [hm] at hsome
        cases hsome
      | enum e => exact ⟨e, ⟨hx, hxn⟩, rfl⟩

end Holds

theorem holds_ofFiles (fs : List File)
    (h : ((fs.flatMap File.declared).map Declared.fullName).Nodup) :
    (ofFiles fs).Holds (fs.flatMap File.declared) := by
  induction fs using List.reverseRecOn with
  | nil => exact holds_empty
  | append_singleton fs f ih =>
    rw [List.flatMap_append] at h ⊢
    have hfs := h.sublist (List.Sublist.map _ (List.sublist_append_left _ _))
    rw [ofFiles_concat]
    simpa using (ih hfs).addFile (by simpa using h)

end Registry

end SchemaScript
