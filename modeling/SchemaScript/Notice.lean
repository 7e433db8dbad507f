import SchemaScript.Text.Display

/-!
# Notices

What a run tells on its way, besides its result.  Each notice has a level, and a run shows the
notices from a chosen level on.  A notice is kept by its content; its text is made when it is shown.
-/

namespace SchemaScript

/-- The levels of notices, the least important first. -/
inductive Level where
  | debug
  | info
  | warning
  | error
deriving DecidableEq, Repr

namespace Level

/-- The weight of a level. -/
def weight : Level → Nat
  | .debug => 10
  | .info => 20
  | .warning => 30
  | .error => 40

/-- The name of a level in capitals, as a shown notice starts with it. -/
def name : Level → String
  | .debug => "DEBUG"
  | .info => "INFO"
  | .warning => "WARNING"
  | .error => "ERROR"

/-- The level that a parameter names. -/
def ofWord? : String → Option Level
  | "debug" => some .debug
  | "info" => some .info
  | "warning" => some .warning
  | "error" => some .error
  | _ => none

end Level

/-- What a run tells. -/
inductive Notice where
  /-- The module `file` imports a name under a local name from a path. -/
  | imported (file name localName path : String)
  /-- The field `referrer` refers to a type under a local name. -/
  | referred (file referrer typeName localName : String)
  /-- A field has custom options of the given names. -/
  | customOptions (field : String) (names : List String)
  /-- A module is complete. -/
  | completed (file : String) (enums messages : Nat)
  /-- The parameters are not accepted. -/
  | refused (message : String)
  /-- A file can not be generated. -/
  | failed (file message : String)
deriving DecidableEq, Repr

namespace Notice

/-- The level of a notice. -/
def level : Notice → Level
  | .imported .. => .debug
  | .referred .. => .debug
  | .customOptions .. => .debug
  | .completed .. => .info
  | .refused _ => .error
  | .failed .. => .error

/-- Names in the order of their codes. -/
def sorted (names : List String) : List String :=
  names.mergeSort fun a b => decide (a ≤ b)

/-- The text of a notice. -/
def message : Notice → String
  | .imported file name localName path =>
    file ++ ": import " ++ name ++ " as " ++ localName ++ " from " ++ path
  | .referred file referrer typeName localName =>
    file ++ ": " ++ referrer ++ " refers to " ++ typeName ++ " as " ++ localName
  | .customOptions field names =>
    field ++ ": custom options " ++ Text.displayedList (sorted names)
  | .completed file enums messages =>
    file ++ ": " ++ Nat.repr enums ++ " enums, " ++ Nat.repr messages ++ " messages"
  | .refused message => message
  | .failed file message => file ++ ": " ++ message

/-- The text that shows a notice. -/
def line (n : Notice) : String :=
  "protoc-gen-protots: " ++ n.level.name ++ ": " ++ n.message

/-- The lines that show a notice.  Only a line feed separates them. -/
def lines (n : Notice) : List String :=
  (n.line.toList.splitOn '\n').map String.ofList

end Notice

/-- The notices that are shown from a level on. -/
def shownFrom (threshold : Level) (notices : List Notice) : List Notice :=
  notices.filter fun n => threshold.weight ≤ n.level.weight

end SchemaScript
