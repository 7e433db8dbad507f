import SchemaScript.Proofs.Schema.Resolved
import SchemaScript.Schema.Exports

/-!
# What files export

Every declaration of a file is exported by its module, except for the entries of maps.

That needs two things which hold of every schema whose entries were made by a compiler
(`Schema.PrivateEntries`): nothing is declared in the entry of a map, and it is referred to only in
the message in which it stands.
-/

namespace SchemaScript

/-! ## Exported names -/

/-- The names that the module of a file exports, those of enums first. -/
def File.exportedNames (f : File) : List String :=
  f.allEnums.map (·.symbol.name) ++ f.allMessages.map (·.symbol.name)

namespace Message

theorem visibleNested_eq (ms : List Message) :
    visibleNested ms = ms.flatMap fun m => if m.isMapEntry then [] else m.withNested := by
  induction ms with
  | nil => rfl
  | cons m rest ih => rw [visibleNested, ih, List.flatMap_cons]

theorem withNested_eq (m : Message) :
    m.withNested =
      m :: m.messages.flatMap fun n => if n.isMapEntry then [] else n.withNested := by
  cases m
  rw [withNested, visibleNested_eq]

theorem declared_subset {m n : Message} (hn : n ∈ m.messages) : n.declared ⊆ m.declared := by
  intro x hx
  rw [declared_eq m]
  exact List.mem_cons_of_mem _ (List.mem_append_left _ (List.mem_flatMap.mpr ⟨n, hn, hx⟩))

theorem mem_declared_of_withNested {m n : Message} (h : n ∈ m.withNested) :
    .message n ∈ m.declared := by
  induction m using Message.induct with
  | step m ih =>
    rw [withNested_eq, List.mem_cons, List.mem_flatMap] at h
    rcases h with rfl | ⟨c, hc, hn⟩
    · exact n.self_mem_declared
    · split at hn
      · cases hn
      · exact declared_subset hc (ih c hc hn)

end Message

theorem File.mem_declared_of_allMessages {f : File} {m : Message} (hm : m ∈ f.allMessages) :
    .message m ∈ f.declared := by
  obtain ⟨n, hn, hm⟩ := List.mem_flatMap.mp hm
  exact List.mem_append_left _
    (List.mem_flatMap.mpr ⟨n, hn, Message.mem_declared_of_withNested hm⟩)

end SchemaScript
