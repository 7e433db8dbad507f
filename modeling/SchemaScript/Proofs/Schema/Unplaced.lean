import SchemaScript.Proofs.Schema.Revised

/-!
# Declarations without their place

What is left of a declaration when the place of its file is forgotten.

The header of a file says at which position of its schema the file stands and whether a module is to
be generated for it.  Nothing else in a declaration depends on the request that the file came with.
`unplaced` puts the first position and no module in their stead, in the header of a file and in
every declaration of the file, where the header stands as well.

Making declarations does not look at the place (`Revision.unplaced_follows`).  So the same descriptor
makes files in two schemas that differ in their place only (`File.declare_unplaced`).
-/

namespace SchemaScript

open Outcome

/-! ## Forgetting the place -/

/-- The header of a file at no place. -/
def FileHeader.unplaced (h : FileHeader) : FileHeader :=
  { h with index := 0, generate := false }

/-- A field of a file at no place. -/
def Field.unplaced (f : Field) : Field :=
  { f with file := f.file.unplaced }

/-- Declarations are put in a file at no place. -/
def Revision.unplaced : Revision where
  index := fun _ => 0
  generate := fun _ => false
  field := Field.unplaced

/-- An enum of a file at no place. -/
abbrev Enum.unplaced (e : Enum) : Enum :=
  e.revised .unplaced

/-- A message of a file at no place, with all that is in it. -/
abbrev Message.unplaced (m : Message) : Message :=
  m.revised .unplaced

/-- A declaration of a file at no place. -/
abbrev Declared.unplaced (x : Declared) : Declared :=
  x.revised .unplaced

/-- A file at no place. -/
abbrev File.unplaced (f : File) : File :=
  f.revised .unplaced

/-- A view that forgetting something does not change is the same where what is left is the same. -/
theorem view_eq_of_forget {α β : Type} (forget : β → β) (view : β → α)
    (hview : ∀ b, view (forget b) = view b) {b b' : β} (h : forget b = forget b') :
    view b = view b' := by
  rw [← hview b, h, hview b']

/-! ## Making declarations -/

theorem Revision.unplaced_follows : Revision.unplaced.Follows fun _ d => d :=
  FieldRewrite.Keeps.follows ⟨fun _ _ => rfl, fun _ _ => rfl, fun _ _ => rfl, fun _ _ => rfl⟩
    fun _ => rfl

/-- A descriptor makes files that differ in their place only. -/
theorem File.declare_unplaced {rule : PathRule} {toGenerate toGenerate' : List String}
    {index index' : Nat} {d : FileDescriptor} {f f' : File}
    (hf : File.declare rule toGenerate index d = .ok f)
    (hf' : File.declare rule toGenerate' index' d = .ok f') : f.unplaced = f'.unplaced := by
  -- Both are what the descriptor makes as the first file of a schema without modules.
  have hmade {names : List String} {i : Nat} {g : File}
      (hg : File.declare rule names i d = .ok g) : File.declare rule [] 0 d = .ok g.unplaced := by
    have hheader : FileHeader.ofDescriptor rule [] 0 (d.rewritten fun _ a => a) =
        (FileHeader.ofDescriptor rule names i d).revised .unplaced := by
      rw [FileDescriptor.rewritten_id]
      simp [FileHeader.ofDescriptor, FileHeader.revised, Revision.unplaced]
    have hrevised := File.declare_revised Revision.unplaced_follows hheader
    rwa [FileDescriptor.rewritten_id, hg] at hrevised
  exact Except.ok.inj ((hmade hf).symm.trans (hmade hf'))

end SchemaScript
