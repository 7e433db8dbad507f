import SchemaScript.Draft.Edit
import SchemaScript.Schema.Location
import SchemaScript.Text.BlockComment

/-!
# Documentation comments

The comment in front of each declaration of a module and of each member of an enum.  It holds the
comment of the schema line by line, without the line feeds at its end, then an empty line, and last
a line that names what the declaration was generated from.  Without a comment in the schema only the
last line is left.

Every line stands after a star of its own, and an empty line has no blank after the star.
-/

namespace SchemaScript

/-- The lines of a documentation comment, without their marks. -/
def docLines (location : Location) (origin : String) : List String :=
  let comment :=
    if location.leading = "" then []
    else Text.lines (Text.dropFinalLineFeeds location.leading) ++ [""]
  comment ++ ["@generated from " ++ origin]

/-- A line of a documentation comment with its mark. -/
def docLine (line : String) : String :=
  if line = "" then " *" else " * " ++ Text.commentText line

/-- Writes texts as lines. -/
def writeLines (lines : List String) : Edit Unit :=
  Edit.each (fun line => Edit.write [.text line]) lines

/-- Writes a documentation comment. -/
def writeDoc (location : Location) (origin : String) : Edit Unit :=
  writeLines (["/**"] ++ (docLines location origin).map docLine ++ [" */"])

end SchemaScript
