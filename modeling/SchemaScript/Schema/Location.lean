import SchemaScript.Error
import SchemaScript.ImportPath
import SchemaScript.Schema.Descriptor
import SchemaScript.Text.Lines

/-!
# Locations

Where a declaration stands, and the comments that stand there with it.

A path starts at the file and goes inward.  Each step of it is the number of a member on the wire
and the index of a declaration in that member, so the message at index 2 of a file has the path
`[4, 2]` and the first field of it the path `[4, 2, 2, 0]`.

The comments of a declaration are those of the first entry for its path, with the blank after each
comment mark taken off.  Without an entry there are none, and an entry with comments that are no
text is refused.

A name has a path as well, that of its declaration with one step more.
-/

namespace SchemaScript

/-! ## Paths -/

/-- The members of a file and of messages by their numbers on the wire. -/
inductive Member where
  | fileMessages
  | fileEnums
  | messageFields
  | messageMessages
  | messageEnums
  | messageOneofs
  | enumValues
deriving DecidableEq, Repr

/-- The number of a member. -/
def Member.number : Member → Nat
  | .fileMessages => 4
  | .fileEnums => 5
  | .messageFields => 2
  | .messageMessages => 3
  | .messageEnums => 4
  | .messageOneofs => 8
  | .enumValues => 2

/-- The path of the text under a number of a declaration. -/
def textPath (path : List Nat) (number : Nat) : List Nat :=
  path ++ [number, 0]

/-- The path of the name of a declaration, or of a file. -/
def namePath (path : List Nat) : List Nat :=
  textPath path 1

/-- The path of the package of a file. -/
def packagePath : List Nat :=
  textPath [] 2

/-- The path of the reference of a field. -/
def referencePath (path : List Nat) : List Nat :=
  textPath path 6

/-! ## Comments -/

/-- The comments at a path of a file. -/
structure Location where
  /-- The path. -/
  path : List Nat
  /-- The comment in front. -/
  leading : String
  /-- The comment behind. -/
  trailing : String
  /-- The comments in front with a blank line after them. -/
  detached : List String
deriving DecidableEq, Repr

/-! ## Files -/

/-- What all declarations of a file share. -/
structure FileHeader where
  /-- The position of the file in its schema. -/
  index : Nat
  /-- The name of the file. -/
  name : String
  /-- The package, empty if there is none. -/
  package : String
  /-- The dialect, never empty. -/
  dialect : String
  /-- The path of the generated module. -/
  importPath : ImportPath
  /-- Whether a module is to be generated. -/
  generate : Bool
  /-- The comments in the file. -/
  comments : List CommentEntry
  /-- The places of texts in the file that are none. -/
  unreadable : List (List Nat)
deriving DecidableEq, Repr

namespace FileHeader

/-- Whether the file is in the older dialect, which is also the one of files that name none. -/
def isOlderDialect (h : FileHeader) : Bool :=
  h.dialect == "proto2"

/-- Whether what stands at a path as a text is one. -/
def isText (h : FileHeader) (path : List Nat) : Bool :=
  !h.unreadable.contains path

/-- The location of a path. -/
def locate (h : FileHeader) (path : List Nat) : Except Error Location :=
  match h.comments.find? fun e => e.path = path.map Int.ofNat with
  | some e =>
    if e.isText then
      .ok ⟨path, Text.cleanComment e.leading, Text.cleanComment e.trailing,
        e.detached.map Text.cleanComment⟩
    else
      .error (.notText .comment)
  | none => .ok ⟨path, "", "", []⟩

end FileHeader

end SchemaScript
