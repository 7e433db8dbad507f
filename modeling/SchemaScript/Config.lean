import SchemaScript.Error
import SchemaScript.ImportPath
import SchemaScript.Notice
import SchemaScript.Parameters

/-!
# Configuration

What a run can be told: where the generated modules import the runtime from, how runtime constants
are written, the normal long type, and from which level on notices are shown.

Parameters are pairs of a name and a value.  They are taken in order, and the first one that is not
acceptable ends the reading: an unknown name, an empty import path, a mode or a level that does not
exist, or a second choice of a long type after an earlier one, whatever the two choices are.
-/

namespace SchemaScript

/-- The configuration of a run. -/
structure Config where
  /-- The module that the runtime is imported from. -/
  runtime : ImportPath
  /-- Whether runtime constants are written by their ordinals. -/
  inlined : Bool
  /-- The long type of 64-bit integers without a choice of their own. -/
  normalLong : LongType
  /-- The level from which on notices are shown. -/
  level : Level
deriving DecidableEq, Repr

namespace Config

/-- The module that the runtime is imported from by default. -/
def defaultRuntime : ImportPath :=
  ⟨"@protobuf-ts/runtime"⟩

/-- The configuration without parameters. -/
def default : Config :=
  ⟨defaultRuntime, true, .bigint, .warning⟩

/-! ## Reading parameters -/

/-- The choices read so far.  A choice that was not made is absent. -/
structure Choices where
  runtime : Option String
  inlined : Option Bool
  long : Option LongType
  level : Option Level
deriving DecidableEq, Repr

/-- No choices. -/
def Choices.none : Choices :=
  ⟨.none, .none, .none, .none⟩

/-- The configuration that choices make. -/
def Choices.config (c : Choices) : Config :=
  { runtime := (c.runtime.map ImportPath.mk).getD defaultRuntime
    inlined := c.inlined.getD true
    normalLong := c.long.getD .bigint
    level := c.level.getD .warning }

/-- The choices with a long type chosen, unless one is chosen already. -/
def Choices.chooseLong (c : Choices) (l : LongType) : Except ParameterFault Choices :=
  if c.long.isSome then .error .secondLongType else .ok { c with long := some l }

/-- The choices after one more parameter. -/
def Choices.take (c : Choices) (name value : String) : Except ParameterFault Choices :=
  if name = "runtime_import_path" then
    if value = "" then .error .empty else .ok { c with runtime := some value }
  else if name = "type_enums" then
    if value = "inline" then .ok { c with inlined := some true }
    else if value = "qualified" then .ok { c with inlined := some false }
    else .error .notTypeEnumMode
  else if name = "long_type_string" then
    c.chooseLong .string
  else if name = "long_type_number" then
    c.chooseLong .number
  else if name = "log_level" then
    match Level.ofWord? value with
    | some level => .ok { c with level := some level }
    | .none => .error .notLogLevel
  else
    .error .unknown

/-- The choices after parameters in order. -/
def Choices.takeAll (c : Choices) : List (String × String) → Except Error Choices
  | [] => .ok c
  | (name, value) :: rest =>
    match c.take name value with
    | .ok c => c.takeAll rest
    | .error fault => .error (.invalidParameter name value fault)

/-- The configuration that parameters make. -/
def ofParameters (parameters : Parameters) : Except Error Config :=
  (Choices.none.takeAll parameters.entries).map Choices.config

end Config

end SchemaScript
