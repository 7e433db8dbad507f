import SchemaScript.Wire.Basic

/-!
# Responses

What a run answers: the modules that it generated, or a text that tells what went wrong.

On the wire the text is field 1 and each module a field 15 that has the name as field 1 and the
content as field 15.
-/

namespace SchemaScript

/-- A generated module. -/
structure Generated where
  name : String
  content : String
deriving DecidableEq, Repr

/-- What a run answers. -/
structure Response where
  /-- What went wrong, told to the caller. -/
  error : Option String
  /-- The modules, none if something went wrong. -/
  files : List Generated
deriving DecidableEq, Repr

namespace Response

/-- The answer that something went wrong. -/
def failed (message : String) : Response :=
  ⟨some message, []⟩

/-- The answer with modules. -/
def written (files : List Generated) : Response :=
  ⟨none, files⟩

/-- The content of the first module of a name, and whether there is one. -/
def lookup (r : Response) (name : String) : String × Bool :=
  match r.files.find? fun f => f.name = name with
  | some f => (f.content, true)
  | none => ("", false)

/-! ## On the wire -/

/-- The bytes of a module in an answer. -/
def encodeFile (f : Generated) : List UInt8 :=
  Wire.encodeDelimited 15
    (Wire.encodeDelimited 1 (Wire.utf8 f.name) ++ Wire.encodeDelimited 15 (Wire.utf8 f.content))

/-- The bytes of an answer. -/
def encode (r : Response) : List UInt8 :=
  (match r.error with
    | some message => Wire.encodeDelimited 1 (Wire.utf8 message)
    | none => []) ++ r.files.flatMap encodeFile

end Response

end SchemaScript
