import Mathlib.Data.List.Flatten
import SchemaScript.Proofs.Schema.ExportedNames
import SchemaScript.Proofs.Schema.Places

/-!
# Following paths

The path of a declaration leads to its descriptor.

A path is followed through a descriptor two numbers at a time, the number of a member in the message
of the descriptor and the index in that member (`DescriptorNode.at?`).  The numbers are those of the
messages that descriptors are on the wire, so a path can also lead to an extension, of which nothing
is made.

`File.MadeFrom` pairs what stands in a file with the parts of its descriptor by the positions in
their lists, without a look at any path.  Following the path of a declaration ends at the part that
it is made from, however deep it stands (`File.MadeFrom.at?_path`).  In the order of the paths a
message comes before its fields, the messages in it, its enums and its oneofs, so no two
declarations have the same path (`File.placed_sorted`).

The entries of maps are among the nested messages when the declarations are made, and are taken out
of the lists later.  What is left keeps the paths that it was given (`File.addresses`).
-/

namespace SchemaScript

open Outcome

/-! ## Descriptors under their numbers -/

/-- A part of the descriptor of a file. -/
inductive DescriptorNode where
  | file (d : FileDescriptor)
  | message (d : MessageDescriptor)
  | field (d : FieldDescriptor)
  | oneof (d : OneofDescriptor)
  | enum (d : EnumDescriptor)
  | value (d : EnumValueDescriptor)

namespace DescriptorNode

/-- The part at an index of the member of a number. -/
def child? : DescriptorNode → Nat → Nat → Option DescriptorNode
  | .file d, 4, i => d.messages[i]?.map .message
  | .file d, 5, i => d.enums[i]?.map .enum
  | .file d, 7, i => d.extensions[i]?.map .field
  | .message d, 2, i => d.fields[i]?.map .field
  | .message d, 3, i => d.messages[i]?.map .message
  | .message d, 4, i => d.enums[i]?.map .enum
  | .message d, 6, i => d.extensions[i]?.map .field
  | .message d, 8, i => d.oneofs[i]?.map .oneof
  | .enum d, 2, i => d.values[i]?.map .value
  | _, _, _ => none

/-- The part that a path leads to. -/
def at? (n : DescriptorNode) : List Nat → Option DescriptorNode
  | [] => some n
  | [_] => none
  | number :: i :: rest => (n.child? number i).bind fun c => c.at? rest

theorem at?_append {n c : DescriptorNode} {p : List Nat} (h : n.at? p = some c) (q : List Nat) :
    n.at? (p ++ q) = c.at? q := by
  induction n, p using at?.induct with
  | case1 n => cases h; rfl
  | case2 n number => cases h
  | case3 n number i rest ih =>
    obtain ⟨b, hb, hc⟩ := Option.bind_eq_some_iff.mp h
    rw [List.cons_append, List.cons_append, at?, hb, Option.bind_some]
    exact ih b hc

/-- One step further than a path leads. -/
theorem at?_step {n c b : DescriptorNode} {p : List Nat} {number i : Nat} (h : n.at? p = some c)
    (hb : c.child? number i = some b) : n.at? (p ++ [number, i]) = some b := by
  rw [at?_append h, at?, hb]
  rfl

end DescriptorNode

/-! ## What stands in a file -/

/-- Anything that has a location. -/
inductive Placed where
  | message (m : Message)
  | field (f : Field)
  | oneof (o : Oneof)
  | enum (e : Enum)
  | value (v : EnumValue)

/-- The location of what stands in a file. -/
def Placed.location : Placed → Location
  | .message m => m.location
  | .field f => f.location
  | .oneof o => o.location
  | .enum e => e.location
  | .value v => v.location

/-- The path of what stands in a file. -/
def Placed.path (x : Placed) : List Nat :=
  x.location.path

/-- An enum and its values. -/
def Enum.placed (e : Enum) : List Placed :=
  .enum e :: e.values.map .value

mutual

/-- A message and what stands in it, of the nested messages only those that are kept. -/
def Message.placed (kept : Message → Bool) : Message → List Placed
  | ⟨file, fullName, symbol, parent, location, isMapEntry, oneofs, fields, messages, enums⟩ =>
    .message
      ⟨file, fullName, symbol, parent, location, isMapEntry, oneofs, fields, messages, enums⟩ ::
        (fields.map .field ++ (Message.keptPlaced kept messages ++
          (enums.flatMap Enum.placed ++ oneofs.map .oneof)))

/-- The messages of a list that are kept and what stands in them. -/
def Message.keptPlaced (kept : Message → Bool) : List Message → List Placed
  | [] => []
  | m :: rest =>
    if kept m then m.placed kept ++ Message.keptPlaced kept rest else Message.keptPlaced kept rest

end

/-- What stands in a file, of the nested messages only those that are kept. -/
def File.placed (kept : Message → Bool) (f : File) : List Placed :=
  f.messages.flatMap (Message.placed kept) ++ f.enums.flatMap Enum.placed

/-- All that stands in a file. -/
def File.allPlaced (f : File) : List Placed :=
  f.placed fun _ => true

/-- What stands in a file when the entries of maps are taken out of the nested messages. -/
def File.visiblePlaced (f : File) : List Placed :=
  f.placed fun n => !n.isMapEntry

theorem Message.keptPlaced_eq (kept : Message → Bool) (ms : List Message) :
    Message.keptPlaced kept ms = (ms.filter kept).flatMap (Message.placed kept) := by
  induction ms with
  | nil => rfl
  | cons m rest ih =>
    rw [Message.keptPlaced, ih, List.filter_cons]
    split
    · rw [List.flatMap_cons]
    · rfl

theorem Message.placed_eq (kept : Message → Bool) (m : Message) :
    m.placed kept = .message m :: (m.fields.map .field ++
      ((m.messages.filter kept).flatMap (Message.placed kept) ++
        (m.enums.flatMap Enum.placed ++ m.oneofs.map .oneof))) := by
  cases m
  rw [Message.placed, Message.keptPlaced_eq]

theorem Message.placed_all (m : Message) :
    m.placed (fun _ => true) = .message m :: (m.fields.map .field ++
      (m.messages.flatMap (Message.placed fun _ => true) ++
        (m.enums.flatMap Enum.placed ++ m.oneofs.map .oneof))) := by
  rw [Message.placed_eq, List.filter_true]

/-- What is left of a message when nested messages are taken out stands there in the same order. -/
theorem Message.placed_sublist (kept : Message → Bool) (m : Message) :
    (m.placed kept).Sublist (m.placed fun _ => true) := by
  induction m using Message.induct with
  | step m ih =>
    have hnested : ((m.messages.filter kept).flatMap (placed kept)).Sublist
        (m.messages.flatMap (placed fun _ => true)) := by
      refine (List.filter_sublist.flatMap (placed kept)).trans ?_
      exact List.Sublist.flatMap_right _ ih
    rw [placed_eq, placed_all]
    exact ((hnested.append_right _).append_left _).cons_cons _

theorem File.placed_sublist (kept : Message → Bool) (f : File) :
    (f.placed kept).Sublist f.allPlaced := by
  have hmessages : (f.messages.flatMap (Message.placed kept)).Sublist
      (f.messages.flatMap (Message.placed fun _ => true)) :=
    List.Sublist.flatMap_right _ fun m _ => m.placed_sublist kept
  exact hmessages.append_right _

/-! ## What descriptors are made into -/

/-- A part of a descriptor is declared as something that stands in a file of a header. -/
inductive FileHeader.Declares (h : FileHeader) : DescriptorNode → Placed → Prop where
  | message {s : Scope} {member : Member} {i : Nat} {d : MessageDescriptor} {m : Message}
    (hs : s.file = h) (hm : Message.declare s member i d = .ok m) :
    Declares h (.message d) (.message m)
  | enum {s : Scope} {member : Member} {i : Nat} {d : EnumDescriptor} {e : Enum}
    (hs : s.file = h) (he : Enum.declare s member i d = .ok e) : Declares h (.enum d) (.enum e)
  | field {s : Scope} {messageName : String} {oneofs : List Oneof} {i : Nat} {d : FieldDescriptor}
    {f : Field} (hs : s.file = h) (hf : Field.declare s messageName oneofs i d = .ok f) :
    Declares h (.field d) (.field f)
  | oneof {s : Scope} {i : Nat} {d : OneofDescriptor} {o : Oneof}
    (hs : s.file = h) (ho : Oneof.declare s i d = .ok o) : Declares h (.oneof d) (.oneof o)
  | value {path : List Nat} {i : Nat} {d : EnumValueDescriptor} {v : EnumValue}
    (hv : EnumValue.declare h path i d = .ok v) : Declares h (.value d) (.value v)

/-- What stands in a file and the part of the descriptor at the same positions of their lists. -/
inductive File.MadeFrom (f : File) (d : FileDescriptor) : DescriptorNode → Placed → Prop where
  | topMessage {i : Nat} {a : MessageDescriptor} {m : Message} (ha : d.messages[i]? = some a)
    (hm : f.messages[i]? = some m) : MadeFrom f d (.message a) (.message m)
  | topEnum {i : Nat} {a : EnumDescriptor} {e : Enum} (ha : d.enums[i]? = some a)
    (he : f.enums[i]? = some e) : MadeFrom f d (.enum a) (.enum e)
  | message {a : MessageDescriptor} {m : Message} (h : MadeFrom f d (.message a) (.message m))
    {i : Nat} {b : MessageDescriptor} {n : Message} (hb : a.messages[i]? = some b)
    (hn : m.messages[i]? = some n) : MadeFrom f d (.message b) (.message n)
  | enum {a : MessageDescriptor} {m : Message} (h : MadeFrom f d (.message a) (.message m))
    {i : Nat} {b : EnumDescriptor} {e : Enum} (hb : a.enums[i]? = some b)
    (he : m.enums[i]? = some e) : MadeFrom f d (.enum b) (.enum e)
  | field {a : MessageDescriptor} {m : Message} (h : MadeFrom f d (.message a) (.message m))
    {i : Nat} {b : FieldDescriptor} {x : Field} (hb : a.fields[i]? = some b)
    (hx : m.fields[i]? = some x) : MadeFrom f d (.field b) (.field x)
  | oneof {a : MessageDescriptor} {m : Message} (h : MadeFrom f d (.message a) (.message m))
    {i : Nat} {b : OneofDescriptor} {o : Oneof} (hb : a.oneofs[i]? = some b)
    (ho : m.oneofs[i]? = some o) : MadeFrom f d (.oneof b) (.oneof o)
  | value {a : EnumDescriptor} {e : Enum} (h : MadeFrom f d (.enum a) (.enum e))
    {i : Nat} {b : EnumValueDescriptor} {v : EnumValue} (hb : a.values[i]? = some b)
    (hv : e.values[i]? = some v) : MadeFrom f d (.value b) (.value v)

/-- The place of a declaration is looked up under its own path. -/
theorem FileHeader.Declares.locate {h : FileHeader} {node : DescriptorNode} {x : Placed}
    (hx : h.Declares node x) : h.locate x.path = .ok x.location := by
  have hself {path : List Nat} {l : Location} (hl : h.locate path = .ok l) :
      h.locate l.path = .ok l := by
    rw [path_of_locate hl]
    exact hl
  cases hx with
  | message hs hm => subst hs; exact hself (Message.locate_of_declare hm)
  | enum hs he => subst hs; exact hself (Enum.locate_of_declare he)
  | field hs hf => subst hs; exact hself (Field.locate_of_declare hf)
  | oneof hs ho => subst hs; exact hself (Oneof.locate_of_declare ho)
  | value hv => exact hself (EnumValue.locate_of_declare hv)

/-! ## Where paths lead -/

section

variable {rule : PathRule} {toGenerate : List String} {index : Nat} {d : FileDescriptor} {f : File}
  {node : DescriptorNode} {x : Placed}

namespace File.MadeFrom

/-- What is paired by positions is declared of its part. -/
theorem declares (hf : File.declare rule toGenerate index d = .ok f) (h : f.MadeFrom d node x) :
    f.header.Declares node x := by
  obtain ⟨_, _, hmessages, henums⟩ := File.of_declare hf
  induction h with
  | topMessage ha hm => exact .message rfl (eachFrom_at hmessages ha hm)
  | topEnum ha he => exact .enum rfl (eachFrom_at henums ha he)
  | message _ hb hn ih =>
    cases ih with
    | message hs hm =>
      obtain ⟨_, _, _, _, rfl, _, hnested, _⟩ := Message.of_declare hm
      exact .message ((Scope.file_inside _ _ _).trans hs) (eachFrom_at hnested hb hn)
  | enum _ hb he ih =>
    cases ih with
    | message hs hm =>
      obtain ⟨_, _, _, _, rfl, _, _, hnested⟩ := Message.of_declare hm
      exact .enum ((Scope.file_inside _ _ _).trans hs) (eachFrom_at hnested hb he)
  | field _ hb hx ih =>
    cases ih with
    | message hs hm =>
      obtain ⟨_, _, _, _, rfl, hfields, _⟩ := Message.of_declare hm
      exact .field ((Scope.file_inside _ _ _).trans hs) (eachFrom_at hfields hb hx)
  | oneof _ hb ho ih =>
    cases ih with
    | message hs hm =>
      have honeofs := Message.declare_oneofs hm
      exact .oneof ((Scope.file_inside _ _ _).trans hs) (eachFrom_at honeofs hb ho)
  | value _ hb hv ih =>
    cases ih with
    | enum hs he =>
      have hvalues := Enum.declare_values he
      rw [hs] at hvalues
      exact .value (eachFrom_at hvalues hb hv)

theorem childrenInPlace (hf : File.declare rule toGenerate index d = .ok f)
    {a : MessageDescriptor} {m : Message} (h : f.MadeFrom d (.message a) (.message m)) :
    m.ChildrenInPlace := by
  cases h.declares hf with
  | message _ hm => exact Message.childrenInPlace hm

/-- The path of what is paired by positions leads to its part. -/
theorem at?_path (hf : File.declare rule toGenerate index d = .ok f) (h : f.MadeFrom d node x) :
    (DescriptorNode.file d).at? x.path = some node := by
  have hroot : (DescriptorNode.file d).at? [] = some (.file d) := rfl
  induction h with
  | topMessage ha hm =>
    rw [Placed.path, Placed.location, (File.topInPlace hf).messages _ _ hm]
    exact DescriptorNode.at?_step hroot (by rw [DescriptorNode.child?, ha]; rfl)
  | topEnum ha he =>
    rw [Placed.path, Placed.location, (File.topInPlace hf).enums _ _ he]
    exact DescriptorNode.at?_step hroot (by rw [DescriptorNode.child?, ha]; rfl)
  | message h hb hn ih =>
    rw [Placed.path, Placed.location, (h.childrenInPlace hf).messages _ _ hn]
    exact DescriptorNode.at?_step ih (by rw [DescriptorNode.child?, hb]; rfl)
  | enum h hb he ih =>
    rw [Placed.path, Placed.location, (h.childrenInPlace hf).enums _ _ he]
    exact DescriptorNode.at?_step ih (by rw [DescriptorNode.child?, hb]; rfl)
  | field h hb hx ih =>
    rw [Placed.path, Placed.location, (h.childrenInPlace hf).fields _ _ hx]
    exact DescriptorNode.at?_step ih (by rw [DescriptorNode.child?, hb]; rfl)
  | oneof h hb ho ih =>
    rw [Placed.path, Placed.location, (h.childrenInPlace hf).oneofs _ _ ho]
    exact DescriptorNode.at?_step ih (by rw [DescriptorNode.child?, hb]; rfl)
  | value h hb hv ih =>
    cases h.declares hf with
    | enum _ he =>
      rw [Placed.path, Placed.location, Enum.valuesInPlace he _ _ hv]
      exact DescriptorNode.at?_step ih (by rw [DescriptorNode.child?, hb]; rfl)

end File.MadeFrom

/-! ## What is paired -/

theorem Enum.exists_madeFrom (hf : File.declare rule toGenerate index d = .ok f)
    {a : EnumDescriptor} {e : Enum} (h : f.MadeFrom d (.enum a) (.enum e)) (hx : x ∈ e.placed) :
    ∃ node, f.MadeFrom d node x := by
  rcases List.mem_cons.mp hx with rfl | hx
  · exact ⟨_, h⟩
  · obtain ⟨v, hmem, rfl⟩ := List.mem_map.mp hx
    obtain ⟨i, hv⟩ := List.getElem?_of_mem hmem
    cases h.declares hf with
    | enum _ he =>
      obtain ⟨b, hb, _⟩ := getElem?_eachFrom (Enum.declare_values he) hv
      exact ⟨_, h.value hb hv⟩

theorem Message.exists_madeFrom (hf : File.declare rule toGenerate index d = .ok f)
    {a : MessageDescriptor} {m : Message} (h : f.MadeFrom d (.message a) (.message m))
    (hx : x ∈ m.placed fun _ => true) : ∃ node, f.MadeFrom d node x := by
  induction m using Message.induct generalizing a with
  | step m ih =>
    cases h.declares hf with
    | message _ hm =>
      have honeofs := Message.declare_oneofs hm
      obtain ⟨_, _, _, inner, rfl, hfields, hmessages, henums⟩ := Message.of_declare hm
      rw [placed_all, List.mem_cons, List.mem_append, List.mem_append, List.mem_append] at hx
      rcases hx with rfl | hx | hx | hx | hx
      · exact ⟨_, h⟩
      · obtain ⟨y, hmem, rfl⟩ := List.mem_map.mp hx
        obtain ⟨i, hy⟩ := List.getElem?_of_mem hmem
        obtain ⟨b, hb, _⟩ := getElem?_eachFrom hfields hy
        exact ⟨_, h.field hb hy⟩
      · obtain ⟨n, hmem, hx⟩ := List.mem_flatMap.mp hx
        obtain ⟨i, hn⟩ := List.getElem?_of_mem hmem
        obtain ⟨b, hb, _⟩ := getElem?_eachFrom hmessages hn
        exact ih n hmem (h.message hb hn) hx
      · obtain ⟨e, hmem, hx⟩ := List.mem_flatMap.mp hx
        obtain ⟨i, he⟩ := List.getElem?_of_mem hmem
        obtain ⟨b, hb, _⟩ := getElem?_eachFrom henums he
        exact Enum.exists_madeFrom hf (h.enum hb he) hx
      · obtain ⟨o, hmem, rfl⟩ := List.mem_map.mp hx
        obtain ⟨i, ho⟩ := List.getElem?_of_mem hmem
        obtain ⟨b, hb, _⟩ := getElem?_eachFrom honeofs ho
        exact ⟨_, h.oneof hb ho⟩

/-- All that stands in a file is made from a part of its descriptor. -/
theorem File.exists_madeFrom (hf : File.declare rule toGenerate index d = .ok f)
    (hx : x ∈ f.allPlaced) : ∃ node, f.MadeFrom d node x := by
  obtain ⟨_, _, hmessages, henums⟩ := File.of_declare hf
  rcases List.mem_append.mp hx with hx | hx
  · obtain ⟨m, hmem, hx⟩ := List.mem_flatMap.mp hx
    obtain ⟨i, hm⟩ := List.getElem?_of_mem hmem
    obtain ⟨a, ha, _⟩ := getElem?_eachFrom hmessages hm
    exact Message.exists_madeFrom hf (.topMessage ha hm) hx
  · obtain ⟨e, hmem, hx⟩ := List.mem_flatMap.mp hx
    obtain ⟨i, he⟩ := List.getElem?_of_mem hmem
    obtain ⟨a, ha, _⟩ := getElem?_eachFrom henums he
    exact Enum.exists_madeFrom hf (.topEnum ha he) hx

/-! ## The order of paths in a file -/

theorem Enum.placed_sorted {e : Enum} (he : e.ValuesInPlace) :
    (e.placed.map Placed.path).Pairwise (· < ·) ∧
      ∀ p ∈ e.placed.map Placed.path, e.location.path <+: p := by
  have hvalues : SortedBelow e.location.path 2 (e.values.map (·.location.path)) := .map he
  have hpaths : e.placed.map Placed.path =
      e.location.path :: e.values.map (·.location.path) := by
    rw [Enum.placed, List.map_cons, List.map_map]
    rfl
  rw [hpaths]
  exact hvalues.toFrom.self_cons

/-- A message stands before its fields, the messages in it, its enums and its oneofs. -/
theorem Message.placed_sorted {s : Scope} {member : Member} {i : Nat} {a : MessageDescriptor}
    {m : Message} (h : Message.declare s member i a = .ok m) :
    ((m.placed fun _ => true).map Placed.path).Pairwise (· < ·) ∧
      ∀ p ∈ (m.placed fun _ => true).map Placed.path, m.location.path <+: p := by
  induction a using MessageDescriptor.induct generalizing s member i m with
  | step a ih =>
    have hplace := Message.childrenInPlace h
    obtain ⟨_, _, _, inner, _, _, hmessages, henums⟩ := Message.of_declare h
    have hfields : SortedBelow m.location.path 2 ((m.fields.map Placed.field).map Placed.path) := by
      rw [List.map_map]
      exact .map hplace.fields
    have hnested : SortedBelow m.location.path 3
        (m.messages.flatMap fun n => (n.placed fun _ => true).map Placed.path) := by
      refine .flatMap fun j n hn => ?_
      rw [← hplace.messages j n hn]
      obtain ⟨b, hb, hmade⟩ := getElem?_eachFrom hmessages hn
      exact ih b (List.mem_of_getElem? hb) hmade
    have hlisted : SortedBelow m.location.path 4
        (m.enums.flatMap fun e => e.placed.map Placed.path) := by
      refine .flatMap fun j e he => ?_
      rw [← hplace.enums j e he]
      obtain ⟨b, _, hmade⟩ := getElem?_eachFrom henums he
      exact Enum.placed_sorted (Enum.valuesInPlace hmade)
    have honeofs : SortedBelow m.location.path 8 ((m.oneofs.map Placed.oneof).map Placed.path) := by
      rw [List.map_map]
      exact .map hplace.oneofs
    have hlast := hlisted.append honeofs.toFrom (by decide)
    have hchildren := hfields.append (hnested.append hlast (by decide)) (by decide)
    rw [placed_all, List.map_cons, List.map_append, List.map_append, List.map_append,
      List.map_flatMap, List.map_flatMap]
    exact hchildren.self_cons

/-- What stands in a file is listed in the order of the paths. -/
theorem File.placed_sorted (hf : File.declare rule toGenerate index d = .ok f) :
    (f.allPlaced.map Placed.path).Pairwise (· < ·) := by
  have htop := File.topInPlace hf
  obtain ⟨_, _, hmessages, henums⟩ := File.of_declare hf
  have hnested : SortedBelow [] 4
      (f.messages.flatMap fun m => (m.placed fun _ => true).map Placed.path) := by
    refine .flatMap fun j m hm => ?_
    rw [List.nil_append, ← htop.messages j m hm]
    obtain ⟨b, _, hmade⟩ := getElem?_eachFrom hmessages hm
    exact Message.placed_sorted hmade
  have hlisted : SortedBelow [] 5 (f.enums.flatMap fun e => e.placed.map Placed.path) := by
    refine .flatMap fun j e he => ?_
    rw [List.nil_append, ← htop.enums j e he]
    obtain ⟨b, _, hmade⟩ := getElem?_eachFrom henums he
    exact Enum.placed_sorted (Enum.valuesInPlace hmade)
  rw [allPlaced, placed, List.map_append, List.map_flatMap, List.map_flatMap]
  exact (hnested.append hlisted.toFrom (by decide)).sorted

end

/-! ## Comments -/

/-- The comments of a location are those of the first entry for its path, cleaned, and empty if
there is no entry. -/
inductive Location.Quotes (comments : List CommentEntry) (l : Location) : Prop where
  | first {before after : List CommentEntry} {e : CommentEntry}
    (hsplit : comments = before ++ e :: after) (hpath : e.path = l.path.map Int.ofNat)
    (hbefore : ∀ b ∈ before, b.path ≠ l.path.map Int.ofNat)
    (hleading : l.leading = Text.cleanComment e.leading)
    (htrailing : l.trailing = Text.cleanComment e.trailing)
    (hdetached : l.detached = e.detached.map Text.cleanComment) : Quotes comments l
  | absent (hnone : ∀ e ∈ comments, e.path ≠ l.path.map Int.ofNat) (hleading : l.leading = "")
    (htrailing : l.trailing = "") (hdetached : l.detached = []) : Quotes comments l

theorem FileHeader.quotes_of_locate {h : FileHeader} {path : List Nat} {l : Location}
    (hl : h.locate path = .ok l) : l.Quotes h.comments := by
  unfold locate at hl
  split at hl
  · next e hfound =>
    split at hl
    · cases hl
      obtain ⟨hpath, before, after, hsplit, hbefore⟩ := List.find?_eq_some_iff_append.mp hfound
      refine .first hsplit (of_decide_eq_true hpath) (fun b hb => ?_) rfl rfl rfl
      simpa using hbefore b hb
    · cases hl
  · next hfound =>
    cases hl
    refine .absent (fun e he => ?_) rfl rfl rfl
    simpa using List.find?_eq_none.mp hfound e he

/-! ## Locations address declarations -/

/-- No two things in a list have the same path, each path leads to the part that its thing is made
from, and the comments there are those of the thing. -/
structure File.Addresses (f : File) (d : FileDescriptor) (xs : List Placed) : Prop where
  distinct : (xs.map Placed.path).Nodup
  leads : ∀ x ∈ xs, ∃ node, f.MadeFrom d node x ∧ f.header.Declares node x ∧
    (DescriptorNode.file d).at? x.path = some node
  comments : ∀ x ∈ xs, x.location.Quotes d.comments

/-- The location of everything in a file addresses the descriptor that it is made from.  It still
does when the entries of maps are taken out of the nested messages. -/
theorem File.addresses {rule : PathRule} {toGenerate : List String} {index : Nat}
    {d : FileDescriptor} {f : File} (hf : File.declare rule toGenerate index d = .ok f) :
    f.Addresses d f.allPlaced ∧ f.Addresses d f.visiblePlaced := by
  have hall : f.Addresses d f.allPlaced := by
    constructor
    case distinct => exact (File.placed_sorted hf).imp fun h => ne_of_lt h
    case leads =>
      intro x hx
      obtain ⟨node, hnode⟩ := File.exists_madeFrom hf hx
      exact ⟨node, hnode, hnode.declares hf, hnode.at?_path hf⟩
    case comments =>
      intro x hx
      obtain ⟨node, hnode⟩ := File.exists_madeFrom hf hx
      have hquotes := FileHeader.quotes_of_locate (hnode.declares hf).locate
      rwa [(File.of_declare hf).1] at hquotes
  have hsub : f.visiblePlaced.Sublist f.allPlaced := f.placed_sublist _
  refine ⟨hall, ?_⟩
  exact ⟨hall.distinct.sublist (hsub.map _), fun x hx => hall.leads x (hsub.subset hx),
    fun x hx => hall.comments x (hsub.subset hx)⟩

/-! ### A message after an entry -/

/-- A file where a message is nested after the entry of a map, with two entries of comments for the
field of that message. -/
def treeFile : FileDescriptor :=
  { Schema.sampleFile "tree.proto" "p" []
      [{ Schema.sampleMessage "Tree" false
          [Schema.sampleField "sizes" 1 3 11 (some ".p.Tree.SizesEntry")]
          [Schema.sampleMessage "SizesEntry" true
            [Schema.sampleField "key" 1 1 9 none, Schema.sampleField "value" 2 1 4 none] [],
            Schema.sampleMessage "Leaf" false [Schema.sampleField "size" 1 1 4 none] []] with
          enums := [⟨"Color", [⟨"COLOR_RED", 0⟩], .none⟩]
          oneofs := [⟨"part", .none⟩] }]
      [] with
    comments := [⟨[4, 0, 3, 1, 2, 0], " How many.\n", "", [], true⟩,
      ⟨[4, 0, 3, 1, 2, 0], " Not this.\n", "", [], true⟩] }

/-- The message keeps its path when the entry before it is taken out. -/
theorem File.addresses_of_treeFile :
    ∃ f, File.declare defaultPathRule [] 0 treeFile = .ok f ∧
      f.visiblePlaced.map (fun x => (x.path, x.location.leading)) =
        [([4, 0], ""), ([4, 0, 2, 0], ""), ([4, 0, 3, 1], ""), ([4, 0, 3, 1, 2, 0], "How many."),
          ([4, 0, 4, 0], ""), ([4, 0, 4, 0, 2, 0], ""), ([4, 0, 8, 0], "")] ∧
      f.allPlaced.length = 10 ∧ f.Addresses treeFile f.allPlaced ∧
      f.Addresses treeFile f.visiblePlaced := by
  have hdeclared : (treeFile.declared.map fun f =>
      (f.visiblePlaced.map (fun x => (x.path, x.location.leading)), f.allPlaced.length)) =
        some ([([4, 0], ""), ([4, 0, 2, 0], ""), ([4, 0, 3, 1], ""),
          ([4, 0, 3, 1, 2, 0], "How many."), ([4, 0, 4, 0], ""), ([4, 0, 4, 0, 2, 0], ""),
          ([4, 0, 8, 0], "")], 10) := by
    decide +kernel
  obtain ⟨f, hf, hplaced⟩ := Option.map_eq_some_iff.mp hdeclared
  obtain ⟨hvisible, hcount⟩ := Prod.mk.inj hplaced
  have hd := FileDescriptor.declare_of_declared hf
  exact ⟨f, hd, hvisible, hcount, File.addresses hd⟩

end SchemaScript
