import SchemaScript.Config
import SchemaScript.Proofs.FieldInfo.Literal

/-!
# Field literals lose nothing

The way from the schema to the field literal and back.

The information about a declared field is minimized, a literal is written for it, and the reader of
the module completes what the literal says.  What comes out is the information at the start
(`FieldInfo.literal_reads_back`).  Two things are not in a literal.  A message has no name there,
but the reader gets the symbol of the declaration that is registered under that name.  And an object
has texts for keys, so a table among the options is read with the texts of its keys, which are its
keys if it has texts for keys.

The module can be in any state, as long as the names of its own declarations were reserved before
anything was imported.
-/

namespace SchemaScript.FieldInfo

variable {r : Registry} {w : Writer} {d : Draft} {i : FieldInfo}

/-- A draft that comes after one in which all own names are taken and nothing is imported. -/
theorem ready_of_reserved {c : Draft} (himports : c.imports = ∅)
    (hreserved : r.namesIn c.path ⊆ c.taken) (hd : c.Leads d) : Ready r d := by
  have hnone : ∀ s, c.localName? s = none := by
    intro s
    rw [Draft.localName?_eq_bind, himports]
    rfl
  have hsound : c.Sound := (Draft.sound_new c.name c.path).congr rfl himports nofun
  have hready : Ready r c := ⟨hsound, Draft.guards_of_no_imports hnone hreserved⟩
  exact hready.leads hd

end SchemaScript.FieldInfo
