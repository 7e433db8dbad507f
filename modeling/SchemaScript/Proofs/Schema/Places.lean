import Mathlib.Data.List.Lex
import SchemaScript.Proofs.Schema.Exports

/-!
# Places of declarations

Where the declarations of a file stand, and in which order they are registered.

The path of a declaration is that of what is around it with two numbers more, the member that it is
declared in and its index there (`File.TopInPlace`, `Message.ChildrenInPlace`,
`Enum.ValuesInPlace`).  Ordered as lists of numbers, paths put a message before what is declared in
it, the messages in it before its enums, and declarations of one member by their indices.  That is
the order in which a file registers its declarations (`File.declared_sorted`).  So no two of them
stand at the same path, and none is registered twice.
-/

namespace SchemaScript

open Outcome

/-! ## The order of paths -/

theorem path_lt_append (p : List Nat) (a : Nat) (t : List Nat) : p < p ++ a :: t := by
  induction p with
  | nil => exact List.nil_lt_cons a t
  | cons b rest ih => exact List.cons_lt_cons_iff.mpr (.inr ⟨rfl, ih⟩)

theorem path_append_lt (p : List Nat) {a b : Nat} (hab : a < b) (t u : List Nat) :
    p ++ a :: t < p ++ b :: u := by
  induction p with
  | nil => exact List.cons_lt_cons_iff.mpr (.inl hab)
  | cons c rest ih => exact List.cons_lt_cons_iff.mpr (.inr ⟨rfl, ih⟩)

/-- What stands below two paths that part at one number is in the order of that number. -/
theorem path_lt_of_prefix {p : List Nat} {a b : Nat} (hab : a < b) {x y t u : List Nat}
    (hx : p ++ a :: t <+: x) (hy : p ++ b :: u <+: y) : x < y := by
  obtain ⟨t', rfl⟩ := hx
  obtain ⟨u', rfl⟩ := hy
  rw [List.append_assoc, List.append_assoc]
  exact path_append_lt p hab _ _

/-! ## Places -/

/-- The path of a declaration. -/
def Declared.path : Declared → List Nat
  | .message m => m.location.path
  | .enum e => e.location.path

/-- What is declared in a message stands where its position says. -/
structure Message.ChildrenInPlace (m : Message) : Prop where
  fields : ∀ i f, m.fields[i]? = some f → f.location.path = m.location.path ++ [2, i]
  messages : ∀ i n, m.messages[i]? = some n → n.location.path = m.location.path ++ [3, i]
  enums : ∀ i e, m.enums[i]? = some e → e.location.path = m.location.path ++ [4, i]
  oneofs : ∀ i o, m.oneofs[i]? = some o → o.location.path = m.location.path ++ [8, i]

/-- The values of an enum stand where their positions say. -/
def Enum.ValuesInPlace (e : Enum) : Prop :=
  ∀ i v, e.values[i]? = some v → v.location.path = e.location.path ++ [2, i]

/-- What is declared at the top of a file stands where its position says. -/
structure File.TopInPlace (f : File) : Prop where
  messages : ∀ i m, f.messages[i]? = some m → m.location.path = [4, i]
  enums : ∀ i e, f.enums[i]? = some e → e.location.path = [5, i]

section

variable {h : FileHeader} {s : Scope} {member : Member} {i : Nat}

theorem FileHeader.path_of_locate {path : List Nat} {l : Location} (hl : h.locate path = .ok l) :
    l.path = path := by
  unfold locate at hl
  split at hl
  · split at hl
    · cases hl; rfl
    · cases hl
  · cases hl; rfl

theorem Enum.locate_of_declare {d : EnumDescriptor} {e : Enum}
    (he : Enum.declare s member i d = .ok e) :
    s.file.locate (s.path ++ [member.number, i]) = .ok e.location := by
  simp only [Enum.declare, bind_eq_ok_iff, pure_eq_ok_iff] at he
  obtain ⟨_, _, l, hl, _, _, _, _, rfl⟩ := he
  exact hl

theorem Message.locate_of_declare {d : MessageDescriptor} {m : Message}
    (hm : Message.declare s member i d = .ok m) :
    s.file.locate (s.path ++ [member.number, i]) = .ok m.location := by
  cases d with
  | mk name fields oneofs messages enums extensions isMapEntry isMessageSet features =>
    simp only [Message.declare, bind_eq_ok_iff, pure_eq_ok_iff] at hm
    obtain ⟨_, _, l, hl, _, _, _, _, _, _, _, _, rfl⟩ := hm
    exact hl

theorem Field.locate_of_declare {messageName : String} {oneofs : List Oneof} {d : FieldDescriptor}
    {f : Field} (hf : Field.declare s messageName oneofs i d = .ok f) :
    s.file.locate (s.path ++ [2, i]) = .ok f.location := by
  simp only [Field.declare, bind_eq_ok_iff] at hf
  obtain ⟨_, _, _, _, hf⟩ := hf
  split at hf
  · split at hf
    · simp only [bind_eq_ok_iff, pure_eq_ok_iff] at hf
      obtain ⟨_, _, _, _, l, hl, rfl⟩ := hf
      exact hl
    · cases hf
  · cases hf

theorem Oneof.locate_of_declare {d : OneofDescriptor} {o : Oneof}
    (ho : Oneof.declare s i d = .ok o) : s.file.locate (s.path ++ [8, i]) = .ok o.location := by
  simp only [Oneof.declare, bind_eq_ok_iff, pure_eq_ok_iff] at ho
  obtain ⟨_, _, l, hl, rfl⟩ := ho
  exact hl

theorem EnumValue.locate_of_declare {path : List Nat} {d : EnumValueDescriptor} {v : EnumValue}
    (hv : EnumValue.declare h path i d = .ok v) : h.locate (path ++ [2, i]) = .ok v.location := by
  simp only [EnumValue.declare, bind_eq_ok_iff, pure_eq_ok_iff] at hv
  obtain ⟨l, hl, rfl⟩ := hv
  exact hl

theorem Enum.path_of_declare {d : EnumDescriptor} {e : Enum}
    (he : Enum.declare s member i d = .ok e) : e.location.path = s.path ++ [member.number, i] :=
  FileHeader.path_of_locate (locate_of_declare he)

theorem Message.path_of_declare {d : MessageDescriptor} {m : Message}
    (hm : Message.declare s member i d = .ok m) : m.location.path = s.path ++ [member.number, i] :=
  FileHeader.path_of_locate (locate_of_declare hm)

theorem Enum.valuesInPlace {d : EnumDescriptor} {e : Enum}
    (he : Enum.declare s member i d = .ok e) : e.ValuesInPlace := by
  intro j v hv
  obtain ⟨a, _, ha⟩ := getElem?_eachFrom (Enum.declare_values he) hv
  rw [FileHeader.path_of_locate (EnumValue.locate_of_declare ha), Enum.path_of_declare he,
    Nat.zero_add]

theorem Message.childrenInPlace {d : MessageDescriptor} {m : Message}
    (hm : Message.declare s member i d = .ok m) : m.ChildrenInPlace := by
  have honeofs := Message.declare_oneofs hm
  obtain ⟨_, _, _, inner, rfl, hfields, hmessages, henums⟩ := Message.of_declare hm
  rw [← Message.path_of_declare hm] at hfields hmessages henums honeofs
  constructor
  case fields =>
    intro j f hf
    obtain ⟨a, _, ha⟩ := getElem?_eachFrom hfields hf
    rw [FileHeader.path_of_locate (Field.locate_of_declare ha), Nat.zero_add]
    rfl
  case messages =>
    intro j n hn
    obtain ⟨a, _, ha⟩ := getElem?_eachFrom hmessages hn
    rw [Message.path_of_declare ha, Nat.zero_add]
    rfl
  case enums =>
    intro j e he
    obtain ⟨a, _, ha⟩ := getElem?_eachFrom henums he
    rw [Enum.path_of_declare ha, Nat.zero_add]
    rfl
  case oneofs =>
    intro j o ho
    obtain ⟨a, _, ha⟩ := getElem?_eachFrom honeofs ho
    rw [FileHeader.path_of_locate (Oneof.locate_of_declare ha), Nat.zero_add]
    rfl

end

section

variable {rule : PathRule} {toGenerate : List String} {index : Nat} {d : FileDescriptor} {f : File}

theorem File.topInPlace (hf : File.declare rule toGenerate index d = .ok f) : f.TopInPlace := by
  obtain ⟨_, _, hmessages, henums⟩ := File.of_declare hf
  constructor
  · intro j m hm
    obtain ⟨d, _, hd⟩ := getElem?_eachFrom hmessages hm
    rw [Message.path_of_declare hd, Nat.zero_add]
    rfl
  · intro j e he
    obtain ⟨d, _, hd⟩ := getElem?_eachFrom henums he
    rw [Enum.path_of_declare hd, Nat.zero_add]
    rfl

theorem File.childrenInPlace (hf : File.declare rule toGenerate index d = .ok f) {m : Message}
    (hm : .message m ∈ f.declared) : m.ChildrenInPlace := by
  cases File.declare_made hf _ hm with
  | message _ hmade => exact Message.childrenInPlace hmade

end

/-! ## The order of registration -/

/-- Paths in order that all lead through one member of the place of a path. -/
structure SortedBelow (p : List Nat) (member : Nat) (paths : List (List Nat)) : Prop where
  sorted : paths.Pairwise (· < ·)
  below : ∀ x ∈ paths, p ++ [member] <+: x

namespace SortedBelow

variable {p : List Nat} {a b : Nat} {xs ys : List (List Nat)}

/-- The paths below the items of a member, one item after the other. -/
theorem flatMap {α : Type} {items : List α} {paths : α → List (List Nat)}
    (h : ∀ i item, items[i]? = some item →
      (paths item).Pairwise (· < ·) ∧ ∀ x ∈ paths item, p ++ [a, i] <+: x) :
    SortedBelow p a (items.flatMap paths) := by
  constructor
  · rw [List.pairwise_flatMap, List.pairwise_iff_getElem]
    refine ⟨fun item hitem => ?_, fun i j hi hj hij x hx y hy => ?_⟩
    · obtain ⟨i, hi⟩ := List.getElem?_of_mem hitem
      exact (h i item hi).1
    · have hx := (h i _ (List.getElem?_eq_getElem hi)).2 x hx
      have hy := (h j _ (List.getElem?_eq_getElem hj)).2 y hy
      rw [List.append_cons] at hx hy
      exact path_lt_of_prefix hij hx hy
  · intro x hx
    obtain ⟨item, hitem, hx⟩ := List.mem_flatMap.mp hx
    obtain ⟨i, hi⟩ := List.getElem?_of_mem hitem
    refine List.IsPrefix.trans ⟨[i], ?_⟩ ((h i item hi).2 x hx)
    rw [List.append_assoc]
    rfl

/-- The paths of items of a member. -/
theorem map {α : Type} {items : List α} {path : α → List Nat}
    (h : ∀ i item, items[i]? = some item → path item = p ++ [a, i]) :
    SortedBelow p a (items.map path) := by
  rw [List.map_eq_flatMap]
  refine flatMap fun i item hitem => ⟨List.pairwise_singleton _ _, fun x hx => ?_⟩
  exact (List.mem_singleton.mp hx).trans (h i item hitem) ▸ List.prefix_rfl

end SortedBelow

/-- Paths in order that all lead through members of the place of a path, from a member on. -/
structure SortedFrom (p : List Nat) (member : Nat) (paths : List (List Nat)) : Prop where
  sorted : paths.Pairwise (· < ·)
  below : ∀ x ∈ paths, ∃ a, member ≤ a ∧ p ++ [a] <+: x

section

variable {p : List Nat} {a b : Nat} {xs ys : List (List Nat)}

theorem SortedBelow.toFrom (hx : SortedBelow p a xs) : SortedFrom p a xs :=
  ⟨hx.sorted, fun x hmem => ⟨a, Nat.le_refl a, hx.below x hmem⟩⟩

/-- What lies below a member comes before what lies below later ones. -/
theorem SortedBelow.append (hx : SortedBelow p a xs) (hy : SortedFrom p b ys) (hab : a < b) :
    SortedFrom p a (xs ++ ys) := by
  constructor
  · refine List.pairwise_append.mpr ⟨hx.sorted, hy.sorted, fun x hmem y hmem' => ?_⟩
    obtain ⟨c, hc, hbelow⟩ := hy.below y hmem'
    exact path_lt_of_prefix (Nat.lt_of_lt_of_le hab hc) (hx.below x hmem) hbelow
  · intro z hz
    rcases List.mem_append.mp hz with hmem | hmem
    · exact ⟨a, Nat.le_refl a, hx.below z hmem⟩
    · obtain ⟨c, hc, hbelow⟩ := hy.below z hmem
      exact ⟨c, Nat.le_trans (Nat.le_of_lt hab) hc, hbelow⟩

/-- A path comes before what lies below it. -/
theorem SortedFrom.self_cons (hx : SortedFrom p a xs) :
    (p :: xs).Pairwise (· < ·) ∧ ∀ x ∈ p :: xs, p <+: x := by
  have hprefix : ∀ x ∈ xs, ∃ c t, x = p ++ c :: t := by
    intro x hmem
    obtain ⟨c, _, t, ht⟩ := hx.below x hmem
    exact ⟨c, t, by rw [← ht, List.append_assoc]; rfl⟩
  constructor
  · refine List.pairwise_cons.mpr ⟨fun x hmem => ?_, hx.sorted⟩
    obtain ⟨c, t, rfl⟩ := hprefix x hmem
    exact path_lt_append p c t
  · intro x hmem
    rcases List.mem_cons.mp hmem with rfl | hmem
    · exact List.prefix_rfl
    · obtain ⟨c, t, rfl⟩ := hprefix x hmem
      exact List.prefix_append p (c :: t)

end

theorem Declared.map_path_enums (es : List Enum) :
    (es.map Declared.enum).map Declared.path = es.map (·.location.path) := by
  rw [List.map_map]
  rfl

/-- A message is registered before what is declared in it, and that in order. -/
theorem Message.declared_sorted {m : Message}
    (hplace : ∀ n, .message n ∈ m.declared → n.ChildrenInPlace) :
    (m.declared.map Declared.path).Pairwise (· < ·) ∧
      ∀ x ∈ m.declared.map Declared.path, m.location.path <+: x := by
  induction m using Message.induct with
  | step m ih =>
    have hself := hplace m m.self_mem_declared
    have hnested : SortedBelow m.location.path 3
        (m.messages.flatMap fun n => n.declared.map Declared.path) := by
      refine SortedBelow.flatMap fun i n hn => ?_
      rw [← hself.messages i n hn]
      have hmem := List.mem_of_getElem? hn
      exact ih n hmem fun k hk => hplace k (declared_subset hmem hk)
    have henums := SortedBelow.map hself.enums
    rw [declared_eq, List.map_cons, List.map_append, List.map_flatMap, Declared.map_path_enums]
    exact (hnested.append henums.toFrom (by decide)).self_cons

/-- A file registers its declarations in the order of their paths. -/
theorem File.declared_sorted {rule : PathRule} {toGenerate : List String} {index : Nat}
    {d : FileDescriptor} {f : File} (hf : File.declare rule toGenerate index d = .ok f) :
    (f.declared.map Declared.path).Pairwise (· < ·) := by
  have htop := File.topInPlace hf
  have hmessages : SortedBelow [] 4 (f.messages.flatMap fun m => m.declared.map Declared.path) := by
    refine SortedBelow.flatMap fun i m hm => ?_
    rw [List.nil_append, ← htop.messages i m hm]
    have hmem := List.mem_of_getElem? hm
    refine Message.declared_sorted fun n hn => File.childrenInPlace hf ?_
    exact List.mem_append_left _ (List.mem_flatMap.mpr ⟨m, hmem, hn⟩)
  rw [File.declared, List.map_append, List.map_flatMap, Declared.map_path_enums]
  exact (hmessages.append (SortedBelow.map htop.enums).toFrom (by decide)).sorted

end SchemaScript
