import SchemaScript.Text.Display

/-!
# Import paths

The paths by which modules are imported, and the specifier that an importing module writes.

A path that starts with `./` names a generated module and counts from the root of the output.  Any
other path names a package and is written as it is.

To write the specifier of a generated module, both the module and the directory of the importer are
taken as *places*: a number of steps up from the root and the names of the directories below.  An
empty name and a single dot stand for no step, and two dots take back the name before them or else
go one step up.  The specifier goes up from the importer to the deepest place above both and from
there down to the module.  It starts with two dots and a slash, or with `./` in front of everything
else.  Where the module is the directory of the importer or a place above it that is one step away,
nothing or `..` is left, and `./.` or `./..` is written.

What lies above the root is not known.  So a place above the root is never the same as a place that
was entered by a name, and a path that starts with a slash counts from the root as well.
-/

namespace SchemaScript

/-- The path of a module. -/
structure ImportPath where
  /-- The path as a text. -/
  path : String
deriving DecidableEq, Repr

/-- A directory or module seen from the root of the output. -/
structure Place where
  /-- The steps up from the root. -/
  up : Nat
  /-- The names below, the outermost first. -/
  names : List String
deriving DecidableEq, Repr

/-! ## Places -/

namespace Place

/-- The root of the output. -/
def root : Place :=
  ⟨0, []⟩

/-- The place that one component of a path leads to. -/
def step (p : Place) (component : String) : Place :=
  if component = "" ∨ component = "." then
    p
  else if component = ".." then
    if p.names = [] then ⟨p.up + 1, []⟩ else ⟨p.up, p.names.dropLast⟩
  else
    ⟨p.up, p.names ++ [component]⟩

/-- The place that a path leads to from a place. -/
def follow (p : Place) (components : List String) : Place :=
  components.foldl step p

/-- How many steps two lists of names go together. -/
def commonSteps : List String → List String → Nat
  | a :: as, b :: bs => if a = b then commonSteps as bs + 1 else 0
  | _, _ => 0

/-- The components that lead from a directory to a place.  When one of the two lies higher above
the root, the way leads over the higher one. -/
def componentsFrom (directory target : Place) : List String :=
  if directory.up = target.up then
    let common := commonSteps directory.names target.names
    List.replicate (directory.names.length - common) ".." ++ target.names.drop common
  else
    List.replicate (directory.names.length + (target.up - directory.up)) ".." ++ target.names

end Place

namespace ImportPath

/-- The components of a path. -/
def components (path : List Char) : List String :=
  (path.splitOn '/').map String.ofList

/-- The path of the directory that holds a module: all up to the last slash. -/
def directory (path : List Char) : List Char :=
  (path.reverse.dropWhile (· != '/')).reverse

/-- Whether a path names a generated module. -/
def isRelative (p : ImportPath) : Bool :=
  "./".toList.isPrefixOf p.path.toList

/-- The place of a module. -/
def place (p : ImportPath) : Place :=
  Place.root.follow (components p.path.toList)

/-- The place of the directory of a module. -/
def directoryPlace (p : ImportPath) : Place :=
  Place.root.follow (components (directory p.path.toList))

/-- The way from the directory of a module to a generated module, `.` if it is none. -/
def wayFrom (importer p : ImportPath) : String :=
  match importer.directoryPlace.componentsFrom p.place with
  | [] => "."
  | parts => "/".intercalate parts

/-- The specifier by which a module imports the module of a path. -/
def specifierFrom (p importer : ImportPath) : String :=
  if p.isRelative then
    let way := wayFrom importer p
    if "../".toList.isPrefixOf way.toList then way else "./" ++ way
  else
    p.path

/-- A path as it is shown in a message. -/
def displayed (p : ImportPath) : String :=
  "TsImportPath(" ++ Text.displayed p.path ++ ")"

end ImportPath

/-- An exported name of a module. -/
structure Symbol where
  /-- The module that exports it. -/
  module : ImportPath
  /-- The name by which it is exported. -/
  name : String
deriving DecidableEq, Repr

/-- The name of a schema file without its extension, which takes the last six characters. -/
def fileStem (fileName : String) : String :=
  String.ofList (fileName.toList.take (fileName.length - 6))

/-- The path of the module generated for a schema file. -/
def defaultImportPath (fileName : String) : String :=
  "./" ++ fileStem fileName

example : (ImportPath.mk "./a/b").specifierFrom ⟨"./x/y"⟩ = "../a/b" := by decide +kernel
example : (ImportPath.mk "./a").specifierFrom ⟨"./a/b"⟩ = "./." := by decide +kernel
example : (ImportPath.mk "@scope/p").specifierFrom ⟨"./a/b"⟩ = "@scope/p" := by decide +kernel

end SchemaScript
