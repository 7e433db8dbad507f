import SchemaScript.Text.Case
import SchemaScript.Text.PrintableTable
import SchemaScript.Text.Quoted

/-!
# Displayed text

The form in which messages and log lines show a text or bytes, so that a reader can tell where they
begin and end.

A text is set between apostrophes, or between quotation marks when it holds an apostrophe and no
quotation mark.  The enclosing mark and the backslash are written after a backslash, and the line
feed, the carriage return and the tab as a backslash and a letter.  A printable character stands
for itself, in any script.  Every other character is written as its hexadecimal code, in two, four
or eight digits after `\x`, `\u` or `\U`.  Bytes are shown like the text of their codes after the
letter `b`, with only the printable ASCII characters standing for themselves.
-/

namespace SchemaScript.Text

/-- Whether a character has a visible form. -/
def isPrintable (c : Char) : Bool :=
  if c.toNat < 128 then decide (0x20 ≤ c.toNat ∧ c.toNat ≤ 0x7e)
  else inRanges printableRanges c.toNat

/-- The apostrophe. -/
def apostrophe : Char :=
  Char.ofNat 0x27

/-- The quotation mark. -/
def quotationMark : Char :=
  Char.ofNat 0x22

/-- The mark that encloses the display of a text. -/
def enclosing (s : List Char) : Char :=
  if s.contains apostrophe && !s.contains quotationMark then quotationMark else apostrophe

/-- A code written in the shortest of the three widths. -/
def escapedCode (code : Nat) : List Char :=
  if code < 0x100 then '\\' :: 'x' :: hex 2 code
  else if code < 0x10000 then '\\' :: 'u' :: hex 4 code
  else '\\' :: 'U' :: hex 8 code

/-- The characters that show one character between the given marks. -/
def displayedChar (printable : Char → Bool) (mark c : Char) : List Char :=
  if c = mark ∨ c = '\\' then ['\\', c]
  else if c = '\n' then ['\\', 'n']
  else if c = '\r' then ['\\', 'r']
  else if c = '\t' then ['\\', 't']
  else if printable c then [c]
  else escapedCode c.toNat

/-- A text as it is shown in a message. -/
def displayed (s : String) : String :=
  let mark := enclosing s.toList
  String.ofList (mark :: s.toList.flatMap (displayedChar isPrintable mark) ++ [mark])

/-- Bytes as they are shown in a message. -/
def displayedBytes (bytes : List UInt8) : String :=
  let s := bytes.map fun b => Char.ofNat b.toNat
  let mark := enclosing s
  String.ofList
    ('b' :: mark :: s.flatMap (displayedChar (fun c => 0x20 ≤ c.toNat && c.toNat ≤ 0x7e) mark)
      ++ [mark])

/-- Texts as they are shown in a message, in brackets. -/
def displayedList (items : List String) : String :=
  "[" ++ ", ".intercalate (items.map displayed) ++ "]"

example : displayed "it's" = "\"it's\"" ∧ displayed "a\n" = "'a\\n'" := by decide +kernel

end SchemaScript.Text
