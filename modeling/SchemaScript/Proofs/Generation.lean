import SchemaScript.Generation
import SchemaScript.Proofs.Outcome

/-!
# Successful runs

What a run that answers modules is made of: its parameters were accepted, and each module is the
content of the draft that was written for its file, in order.
-/

namespace SchemaScript

open Outcome

/-- Each module that is generated is the content of the draft for its file. -/
theorem Job.generateAll_ok {j : Job} {fs : List File} {notices : List Notice}
    {gs : List Generated} (h : j.generateAll fs = (notices, .ok gs)) :
    List.Forall₂ (fun f g => ∃ d, j.writeModule f (draftFor f) = (.ok (), d) ∧
      g = ⟨d.name, d.content⟩) fs gs := by
  induction fs generalizing notices gs with
  | nil => cases h; exact .nil
  | cons f rest ih =>
    unfold generateAll at h
    rcases hf : j.writeModule f (draftFor f) with ⟨cause | u, d⟩
    · rw [hf] at h
      cases h
    · rw [hf] at h
      rcases hrest : j.generateAll rest with ⟨notices', outcome⟩
      simp only [hrest, Prod.mk.injEq, map_eq_ok_iff] at h
      obtain ⟨_, gs', rfl, rfl⟩ := h
      exact .cons ⟨d, hf, rfl⟩ (ih hrest)

/-- A run that answers modules has generated them by accepted parameters. -/
theorem generate_ok {s : Schema} {files : Option (List FileDescriptor)} {parameters : Parameters}
    {notices : List Notice} {gs : List Generated}
    (h : generate s files parameters = (notices, .ok (.written gs))) :
    ∃ config customOptions, Config.ofParameters parameters = .ok config ∧
      files.mapM CustomOptions.ofFiles = .ok customOptions ∧
      Job.generateAll ⟨config, s, customOptions.join⟩ s.toGenerate = (notices, .ok gs) := by
  unfold generate at h
  split at h
  · cases h
  · next config hconfig =>
    split at h
    · cases h
    · next customOptions hoptions =>
      split at h
      · next notices' gs' hall =>
        cases h
        exact ⟨config, customOptions, hconfig, hoptions, hall⟩
      · next notices' failure hall =>
        unfold Failure.outcome at h
        split at h <;> cases h

/-- Whether a run answers modules. -/
def Outcome.isWritten (o : SchemaScript.Outcome) : Bool :=
  match o with
  | (_, .ok ⟨none, _⟩) => true
  | _ => false

theorem Outcome.exists_of_isWritten {o : SchemaScript.Outcome} (h : isWritten o = true) :
    ∃ notices gs, o = (notices, .ok (.written gs)) := by
  obtain ⟨notices, cause | ⟨message | _, gs⟩⟩ := o
  · cases h
  · exact ⟨notices, gs, rfl⟩
  · cases h

end SchemaScript
