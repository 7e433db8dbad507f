import SchemaScript.Expr.Printer
import SchemaScript.ImportPath
import SchemaScript.Notice
import SchemaScript.Text.Lines

/-!
# Drafts

A module while it is being written: its lines so far, its imports, and the names that are taken in
it.

Names come into a module in two ways.  A name is *reserved* when the module declares it.  A symbol
of another module is *requested*, and gets a local name at its first request: its exported name,
with as many dollar signs after it as it takes to find a name that is not taken.  The local name is
taken from then on, and every later request for the symbol gives it again.  A symbol of the module
itself keeps its name and is never imported.

The search for a free name ends, since every name that it passes is taken and the names that it
passes are all different.  So it needs no more steps than there are taken names (`freshName`).

The import statements stand where the lines were *marked* last, one statement for each module in the
order of first use, with its symbols in the order of first use.  A symbol requested after the mark
is listed there too.  Without a mark no statement is written.

Every line is written at the indentation of the draft.  The notices of what was imported are kept
with the draft, the oldest first.
-/

namespace SchemaScript

/-- A module being written. -/
structure Draft where
  /-- The file name of the module. -/
  name : String
  /-- The path by which the module is imported. -/
  path : ImportPath
  /-- The lines so far, the oldest first. -/
  lines : List String
  /-- The count of lines before the import statements. -/
  mark : Option Nat
  /-- The local names of the imported symbols, by module and exported name. -/
  imports : Table ImportPath (Table String String)
  /-- The names that are taken. -/
  taken : List String
  /-- The indentation of the next line. -/
  level : Nat
  /-- What was told so far. -/
  notices : List Notice

namespace Draft

/-- A draft without lines. -/
def new (name : String) (path : ImportPath) : Draft :=
  ⟨name, path, [], none, Table.empty, [], 0, []⟩

/-! ## Names -/

/-- The name with dollar signs after it that is first found free, in at most `steps` steps. -/
def freshFrom (taken : List String) : Nat → String → String
  | 0, name => name
  | steps + 1, name => if name ∈ taken then freshFrom taken steps (name ++ "$") else name

/-- The name with the least count of dollar signs after it that is not taken. -/
def freshName (taken : List String) (name : String) : String :=
  freshFrom taken taken.length name

/-- The names imported from a module. -/
def importsFrom (d : Draft) (module : ImportPath) : Table String String :=
  (d.imports.get? module).getD Table.empty

/-- The local name of an imported symbol. -/
def localName? (d : Draft) (s : Symbol) : Option String :=
  (d.importsFrom s.module).get? s.name

/-- The draft with a name taken by a declaration. -/
def reserve (d : Draft) (name : String) : Draft :=
  { d with taken := name :: d.taken }

/-- The draft with a symbol imported under a local name. -/
def importAs (d : Draft) (s : Symbol) (localName : String) : Draft :=
  { d with
    imports := d.imports.put s.module ((d.importsFrom s.module).put s.name localName)
    taken := localName :: d.taken
    notices := d.notices ++ [.imported d.name s.name localName s.module.path] }

/-- The name of a symbol in the module, and the draft with the symbol imported if need be. -/
def request (d : Draft) (s : Symbol) : String × Draft :=
  if s.module = d.path then
    (s.name, d)
  else
    match d.localName? s with
    | some localName => (localName, d)
    | none =>
      let localName := freshName d.taken s.name
      (localName, d.importAs s localName)

/-! ## Lines -/

/-- What a line is put together from. -/
inductive Piece where
  | text (s : String)
  | symbol (s : Symbol)
  | expr (e : Expr)

/-- The text of pieces in a row, and the draft with their symbols imported.  A piece without a text
ends the row, and the symbols before it stay imported. -/
def spell (d : Draft) : List Piece → Except Error String × Draft
  | [] => (.ok "", d)
  | .text s :: rest =>
    let (line, d) := d.spell rest
    (line.map (s ++ ·), d)
  | .symbol s :: rest =>
    let (word, d) := d.request s
    let (line, d) := d.spell rest
    (line.map (word ++ ·), d)
  | .expr e :: rest =>
    match e.written "" with
    | .error cause => (.error cause, d)
    | .ok s =>
      let (line, d) := d.spell rest
      (line.map (s ++ ·), d)

/-- The draft with one more line, which the pieces make up. -/
def write (d : Draft) (pieces : List Piece) : Except Error Unit × Draft :=
  match d.spell pieces with
  | (.ok line, d) => (.ok (), { d with lines := d.lines ++ [Text.indent d.level line] })
  | (.error cause, d) => (.error cause, d)

/-- The draft with the import statements placed after its lines so far. -/
def markImports (d : Draft) : Draft :=
  { d with mark := some d.lines.length }

/-! ## Content -/

/-- An imported name in its statement. -/
def specifier (name localName : String) : String :=
  if name = localName then name else name ++ " as " ++ localName

/-- The statement that imports names from a module. -/
def importStatement (importer module : ImportPath) (names : Table String String) : String :=
  "import \x7b " ++ ", ".intercalate (names.entries.map fun e => specifier e.1 e.2) ++
    " \x7d from \"" ++ module.specifierFrom importer ++ "\";"

/-- The import statements in order. -/
def importStatements (d : Draft) : List String :=
  d.imports.entries.map fun e => importStatement d.path e.1 e.2

/-- The lines with the import statements in their place. -/
def allLines (d : Draft) : List String :=
  match d.mark with
  | some n => d.lines.take n ++ d.importStatements ++ d.lines.drop n
  | none => d.lines

/-- The text of the module. -/
def content (d : Draft) : String :=
  "\n".intercalate d.allLines ++ "\n"

end Draft

example : Draft.freshName ["A", "A$"] "A" = "A$$" := by decide +kernel

end SchemaScript
