/-!
# Lines

How a text falls into lines, and the two operations that work line by line: indenting a text and
cleaning a comment.

Eleven ends close a line: the line feed, the vertical tab, the form feed, the carriage return, the
three ASCII separators of files, groups and records, the next-line control, the Unicode line and
paragraph separators, and the pair of a carriage return and a line feed, which closes one line and
not two.  An end at the very end of a text closes the last line and does not open another one, so a
text of one end is one empty line and the empty text has no line.

Both operations join the lines with line feeds and write no end after the last line.  So a text
that goes through either of them ends its lines with line feeds only, and loses one end at its end.
-/

namespace SchemaScript.Text

/-! ## Splitting -/

/-- Whether a character ends a line. -/
def isLineEnd (c : Char) : Bool :=
  (0x0a ≤ c.toNat && c.toNat ≤ 0x0d) || (0x1c ≤ c.toNat && c.toNat ≤ 0x1e) ||
    c.toNat == 0x85 || c.toNat == 0x2028 || c.toNat == 0x2029

/-- The lines of a text, without their ends. -/
def splitLines : List Char → List (List Char)
  | [] => []
  | '\r' :: '\n' :: rest => [] :: splitLines rest
  | c :: rest =>
    if isLineEnd c then
      [] :: splitLines rest
    else
      match splitLines rest with
      | [] => [[c]]
      | line :: lines => (c :: line) :: lines

/-- The lines of a text, without their ends. -/
def lines (s : String) : List String :=
  (splitLines s.toList).map String.ofList

/-! ## Line by line -/

/-- Blanks in a row. -/
def blanks (width : Nat) : String :=
  String.ofList (List.replicate width ' ')

/-- A line moved to the right.  An empty line stays empty. -/
def indentLine (width : Nat) (line : String) : String :=
  if line = "" then line else blanks width ++ line

/-- A text whose lines that are not empty start with `width` more blanks. -/
def indent (width : Nat) (s : String) : String :=
  "\n".intercalate ((lines s).map (indentLine width))

/-- A line without the blank that separates it from its comment mark, if there is one. -/
def cleanLine : List Char → List Char
  | ' ' :: rest => rest
  | line => line

/-- A comment without the blank that each line starts with. -/
def cleanComment (s : String) : String :=
  "\n".intercalate ((splitLines s.toList).map fun line => String.ofList (cleanLine line))

/-- A text without the line feeds at its end. -/
def dropFinalLineFeeds (s : String) : String :=
  String.ofList (s.toList.reverse.dropWhile (· == '\n')).reverse

example : lines "a\r\nb\n\nc" = ["a", "b", "", "c"] := by decide +kernel
example : lines "\n" = [""] ∧ lines "" = [] := by decide +kernel
example : indent 2 "a\n\n b" = "  a\n\n   b" := by decide +kernel
example : cleanComment " a\n  b\nc\n" = "a\n b\nc" := by decide +kernel

end SchemaScript.Text
