import Mathlib.Data.List.Flatten
import Mathlib.Data.List.Perm.Basic
import SchemaScript.Proofs.Schema.ExportedNames
import SchemaScript.Proofs.Schema.Places

/-!
# Visible declarations

Three walks through a file that must agree: the registration of its declarations, the removal of the
entries of maps, and the collection of what the module exports.

What a file registers falls into what it exports and what is declared in the entries of maps, the
entries among it, and nothing is in both or missing (`File.declared_perm`).  As no declaration is
registered twice, the exports are the registered declarations that are in no entry
(`File.mem_allMessages_iff`, `File.mem_allEnums_iff`), each of them once.
-/

namespace SchemaScript

open List (Perm)

/-! ## Registered and collected -/

/-- What is declared in the entries of maps in a message, the entries among it. -/
def Message.inEntries (m : Message) : List Declared :=
  (m.messages.filter Message.isMapEntry).flatMap Message.declared

theorem Message.withNested_eq_visible (m : Message) :
    m.withNested = m :: m.visibleMessages.flatMap Message.withNested := by
  have hfilter (ms : List Message) : (ms.filter fun n => !n.isMapEntry).flatMap withNested =
      ms.flatMap fun n => if n.isMapEntry then [] else n.withNested := by
    induction ms with
    | nil => rfl
    | cons n rest ih => cases hn : n.isMapEntry <;> simp [hn, ih]
  rw [withNested_eq, visibleMessages, hfilter]

/-- Each declaration in a message is a visible message, an enum of one or in an entry of one. -/
theorem Message.declared_perm (m : Message) :
    Perm m.declared (m.withNested.flatMap fun n => .message n :: (n.enums.map .enum ++ n.inEntries)) := by
  induction m using Message.induct with
  | step m ih =>
    have hvisible : Perm (m.visibleMessages.flatMap declared) (m.visibleMessages.flatMap fun n =>
        n.withNested.flatMap fun k => .message k :: (k.enums.map .enum ++ k.inEntries)) :=
      Perm.flatMap_left _ fun n hn => ih n (List.mem_of_mem_filter hn)
    have hsplit : Perm (m.messages.flatMap declared)
        (m.inEntries ++ m.visibleMessages.flatMap declared) := by
      rw [inEntries, visibleMessages, ← List.flatMap_append]
      exact (List.filter_append_perm isMapEntry m.messages).symm.flatMap_right _
    rw [declared_eq, withNested_eq_visible, List.flatMap_cons, List.flatMap_assoc, List.cons_append]
    refine Perm.cons _ (List.perm_append_comm.trans ((hsplit.append_left _).trans ?_))
    rw [List.append_assoc]
    exact (hvisible.append_left _).append_left _

theorem Message.withNested_sublist (m : Message) :
    (m.withNested.map .message).Sublist m.declared := by
  induction m using Message.induct with
  | step m ih =>
    rw [declared_eq, withNested_eq_visible, List.map_cons, List.map_flatMap]
    refine List.Sublist.cons_cons _ (List.Sublist.trans ?_ (List.sublist_append_left _ _))
    have hvisible : m.visibleMessages.Sublist m.messages := List.filter_sublist
    refine List.Sublist.trans ?_ (hvisible.flatMap declared)
    exact List.Sublist.flatMap_right _ fun n hn => ih n (hvisible.subset hn)

/-- What is declared in an entry of a map in a message is declared in the message. -/
theorem Message.declared_subset_of_mem {m n : Message} (hn : .message n ∈ m.declared) :
    n.declared ⊆ m.declared := by
  induction m using Message.induct with
  | step m ih =>
    have hcases := hn
    rw [declared_eq, List.mem_cons, List.mem_append] at hcases
    rcases hcases with h | h | h
    · cases h
      exact List.Subset.refl _
    · obtain ⟨c, hc, hn⟩ := List.mem_flatMap.mp h
      exact List.Subset.trans (ih c hc hn) (declared_subset hc)
    · obtain ⟨e, _, he⟩ := List.mem_map.mp h
      cases he

namespace File

variable (f : File)

/-- What is declared in the entries of maps in a file, the entries among it. -/
def inEntries : List Declared :=
  f.allMessages.flatMap Message.inEntries

/-- What a file registers is what it exports and what is declared in its entries of maps. -/
theorem declared_perm : Perm f.declared (f.exports ++ f.inEntries) := by
  have hmessages : Perm (f.messages.flatMap Message.declared) (f.allMessages.map .message ++
      ((f.allMessages.flatMap Message.enums).map .enum ++ f.inEntries)) := by
    refine (Perm.flatMap_left _ fun m _ => m.declared_perm).trans ?_
    rw [← List.flatMap_assoc]
    refine (List.map_append_flatMap_perm _ _ _).symm.trans (Perm.append_left _ ?_)
    rw [List.map_flatMap]
    exact (List.flatMap_append_perm _ _ _).symm
  rw [declared, exports, allEnums, List.map_append]
  refine (hmessages.append_right _).trans (List.perm_append_comm.trans ?_)
  have hswap : Perm (f.allMessages.map .message ++
      (f.allMessages.flatMap Message.enums).map .enum ++ f.inEntries)
      ((f.allMessages.flatMap Message.enums).map .enum ++ f.allMessages.map .message ++
        f.inEntries) := List.perm_append_comm.append_right _
  simpa only [List.append_assoc] using hswap.append_left (f.enums.map .enum)

theorem allMessages_sublist : (f.allMessages.map .message).Sublist f.declared := by
  rw [allMessages, List.map_flatMap]
  refine List.Sublist.trans ?_ (List.sublist_append_left _ _)
  exact List.Sublist.flatMap_right _ fun m _ => m.withNested_sublist

/-- A declaration is the entry of a map that is nested in a message, or stands in one. -/
def InEntry (x : Declared) : Prop :=
  ∃ m e, .message m ∈ f.declared ∧ e ∈ m.messages ∧ e.isMapEntry = true ∧ x ∈ e.declared

theorem mem_inEntries_iff {x : Declared} : x ∈ f.inEntries ↔ f.InEntry x := by
  constructor
  · intro hx
    obtain ⟨m, hm, hx⟩ := List.mem_flatMap.mp hx
    obtain ⟨e, he, hx⟩ := List.mem_flatMap.mp hx
    obtain ⟨he, hentry⟩ := List.mem_filter.mp he
    exact ⟨m, e, File.mem_declared_of_allMessages hm, he, hentry, hx⟩
  · rintro ⟨m, e, hm, he, hentry, hx⟩
    rcases List.mem_append.mp (f.declared_perm.subset hm) with hm | hm
    · have hvisible : m ∈ f.allMessages := by simpa [exports] using hm
      exact List.mem_flatMap.mpr ⟨m, hvisible,
        List.mem_flatMap.mpr ⟨e, List.mem_filter.mpr ⟨he, hentry⟩, hx⟩⟩
    · -- the message is in an entry itself, and so is what stands in it
      obtain ⟨m', hm', hin⟩ := List.mem_flatMap.mp hm
      obtain ⟨e', he', hin⟩ := List.mem_flatMap.mp hin
      have hx' : x ∈ e'.declared :=
        Message.declared_subset_of_mem hin (Message.declared_subset he hx)
      exact List.mem_flatMap.mpr ⟨m', hm', List.mem_flatMap.mpr ⟨e', he', hx'⟩⟩

end File

/-! ## Declared files -/

section

variable {rule : PathRule} {toGenerate : List String} {index : Nat} {d : FileDescriptor} {f : File}

theorem File.declared_paths_nodup (hf : File.declare rule toGenerate index d = .ok f) :
    (f.declared.map Declared.path).Nodup :=
  (File.declared_sorted hf).imp fun h => ne_of_lt h

/-- A declaration is exported exactly if it is registered and in no entry of a map. -/
theorem File.mem_exports_iff (hf : File.declare rule toGenerate index d = .ok f) {x : Declared} :
    x ∈ f.exports ↔ x ∈ f.declared ∧ ¬ f.InEntry x := by
  have hnodup : (f.exports ++ f.inEntries).Nodup :=
    f.declared_perm.nodup_iff.mp (List.Nodup.of_map _ (File.declared_paths_nodup hf))
  rw [f.declared_perm.mem_iff, List.mem_append, ← f.mem_inEntries_iff]
  constructor
  · intro hx
    exact ⟨.inl hx, fun hin => (List.nodup_append.mp hnodup).2.2 x hx x hin rfl⟩
  · rintro ⟨hx, hin⟩
    exact hx.resolve_right hin

theorem File.mem_allMessages_iff (hf : File.declare rule toGenerate index d = .ok f) {m : Message} :
    m ∈ f.allMessages ↔ .message m ∈ f.declared ∧ ¬ f.InEntry (.message m) := by
  rw [← File.mem_exports_iff hf]
  simp [exports]

theorem File.mem_allEnums_iff (hf : File.declare rule toGenerate index d = .ok f) {e : Enum} :
    e ∈ f.allEnums ↔ .enum e ∈ f.declared ∧ ¬ f.InEntry (.enum e) := by
  rw [← File.mem_exports_iff hf]
  simp [exports]

theorem File.allMessages_sorted (hf : File.declare rule toGenerate index d = .ok f) :
    (f.allMessages.map (·.location.path)).Pairwise (· < ·) := by
  have hsorted := (File.declared_sorted hf).sublist (f.allMessages_sublist.map Declared.path)
  rwa [List.map_map] at hsorted

theorem File.allEnums_nodup (hf : File.declare rule toGenerate index d = .ok f) :
    (f.allEnums.map (·.location.path)).Nodup := by
  have hpaths := (f.declared_perm.map Declared.path).nodup_iff.mp (File.declared_paths_nodup hf)
  rw [exports, List.map_append, List.map_append, Declared.map_path_enums, List.append_assoc] at hpaths
  exact hpaths.of_append_left

/-- What is collected from a file is what it registers outside of the entries of maps, each
declaration once.  Paths tell where a declaration stands, so the messages in their order come before
the messages in them, and those of one member in the order in which they are declared. -/
structure File.CollectsOnce (f : File) : Prop where
  top : f.TopInPlace
  children : ∀ m, .message m ∈ f.declared → m.ChildrenInPlace
  registered : ∀ r : Registry,
    r.addFile f = { r with files := r.files.put f.header.name f }.addAll f.declared
  messages : ∀ m, m ∈ f.allMessages ↔ .message m ∈ f.declared ∧ ¬ f.InEntry (.message m)
  messagesInOrder : (f.allMessages.map (·.location.path)).Pairwise (· < ·)
  enums : ∀ e, e ∈ f.allEnums ↔ .enum e ∈ f.declared ∧ ¬ f.InEntry (.enum e)
  enumsOnce : (f.allEnums.map (·.location.path)).Nodup

theorem File.collectsOnce (hf : File.declare rule toGenerate index d = .ok f) : f.CollectsOnce where
  top := File.topInPlace hf
  children _ hm := File.childrenInPlace hf hm
  registered r := r.addFile_eq f
  messages _ := File.mem_allMessages_iff hf
  messagesInOrder := File.allMessages_sorted hf
  enums _ := File.mem_allEnums_iff hf
  enumsOnce := File.allEnums_nodup hf

end

end SchemaScript
