/-!
# Block comments

The text inside a block comment.  The comment ends at the first star that a slash follows, so where
a text has these two characters a backslash is set between them.  Nothing else is changed, and what
is written holds no end of a comment.
-/

namespace SchemaScript.Text

/-- Characters with a backslash between a star and a slash that follows it. -/
def breakCommentEnds : List Char → List Char
  | '*' :: '/' :: rest => '*' :: '\\' :: '/' :: breakCommentEnds rest
  | c :: rest => c :: breakCommentEnds rest
  | [] => []

/-- A text that can stand inside a block comment. -/
def commentText (s : String) : String :=
  String.ofList (breakCommentEnds s.toList)

example : commentText "a*/b**//" = "a*\\/b**\\//" := by decide +kernel

end SchemaScript.Text
