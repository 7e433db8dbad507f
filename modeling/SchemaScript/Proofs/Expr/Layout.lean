import SchemaScript.Draft.Basic
import SchemaScript.Proofs.Expr.Keys
import SchemaScript.Proofs.Number.Layout
import SchemaScript.Proofs.Text.Comments

/-!
# Layout of expressions

Printing an expression at an indentation, and moving its text to that indentation.

The lines of a text are those that the printer begins, as long as no name, no comment of a number
and no key brings a line end into it (`Expr.KeepsLines`).  String literals can not: their line ends
are escaped.  For such an expression the indentation is found after every line feed of the text and
nowhere else (`Expr.KeepsLines.print_append`), and no line is empty
(`Expr.KeepsLines.hasFullLines_print`).  So a draft, which splits the text into lines again to move
them to the right, writes what the printer would have written there
(`Expr.KeepsLines.print_indented`).  Each string literal stands in it as it is quoted, so it is read
back as its text.

Arrays and objects on one line and on many lines are four forms of one text of marks and parts
(`Marks.text`).  The induction over the nesting needs what this text does with the parts, and no
more.
-/

namespace SchemaScript

open Text

/-! ## String literals in a text -/

/-- String literals that stand in a text one after another, with anything around them. -/
inductive Literals : List String → String → Prop where
  | nil (s : String) : Literals [] s
  | cons (before text : String) {texts : List String} {after : String} (h : Literals texts after) :
    Literals (text :: texts) (before ++ quoted text ++ after)

namespace Literals

variable {texts others : List String} {s t : String}

theorem after (before : String) (h : Literals texts s) : Literals texts (before ++ s) := by
  cases h with
  | nil s => exact nil _
  | cons between text h =>
    rw [String.append_assoc, ← String.append_assoc, ← String.append_assoc]
    exact cons (before ++ between) text h

theorem append (hs : Literals texts s) (ht : Literals others t) :
    Literals (texts ++ others) (s ++ t) := by
  induction hs with
  | nil s => exact ht.after s
  | cons before text h ih =>
    rw [String.append_assoc]
    exact cons before text ih

theorem before (h : Literals texts s) (after : String) : Literals texts (s ++ after) := by
  rw [← texts.append_nil]
  exact h.append (nil after)

theorem quoted (text : String) : Literals [text] (quoted text) := by
  have h := cons "" text (nil "")
  rwa [String.empty_append, String.append_empty] at h

theorem intercalate {α : Type} {texts : α → List String} {part : α → String} {as : List α}
    (h : ∀ a ∈ as, Literals (texts a) (part a)) (sep : String) :
    Literals (as.flatMap texts) (sep.intercalate (as.map part)) := by
  match as with
  | [] => exact nil _
  | [a] =>
    rw [List.flatMap_singleton, List.map_singleton, String.intercalate_singleton]
    exact h a List.mem_cons_self
  | a :: next :: rest =>
    obtain ⟨ha, hrest⟩ := List.forall_mem_cons.mp h
    rw [List.flatMap_cons, List.map_cons, List.map_cons, String.intercalate_cons_cons]
    exact (ha.before sep).append (intercalate hrest sep)

end Literals

theorem isFullLine_quoted (s : String) : IsFullLine (quoted s) :=
  (Script.Spells.text s).isFullLine

/-! ## Parts of a literal -/

theorem isLine_innerIndent {indent : String} (h : isLine indent = true) :
    isLine (indent ++ innerIndent) = true := by
  rw [isLine_append, h]
  decide

section

variable {opening closing : String}

/-- Parts on one line are shifted where they stand. -/
theorem shift_onOneLine (hopening : IsFullLine opening) (hclosing : IsFullLine closing)
    (indent : String) (parts : List String) : shift indent (onOneLine opening closing parts) =
      onOneLine opening closing (parts.map (shift indent)) := by
  have hsep : shift indent ", " = ", " := shift_of_isLine (by decide) indent
  rw [onOneLine, shift_append, shift_append, shift_intercalate, hsep,
    shift_of_isLine hopening.single, shift_of_isLine hclosing.single]
  rfl

variable {parts : List String}

/-- The lines of parts on a line each start further right. -/
theorem shift_onManyLines (hopening : IsFullLine opening) (hclosing : IsFullLine closing)
    {inner : String} (hinner : isLine inner = true) (hne : parts ≠ []) (outer : String) :
    shift outer (onManyLines opening closing inner parts) =
      onManyLines opening closing (outer ++ inner) (parts.map (shift outer)) := by
  have hparts : (parts.map (inner ++ innerIndent ++ ·)).map (shift outer) =
      (parts.map (shift outer)).map (inner ++ innerIndent ++ ·) := by
    rw [List.map_map, List.map_map]
    refine List.map_congr_left fun s _ => ?_
    rw [Function.comp_apply, Function.comp_apply, shift_append,
      shift_of_isLine (isLine_innerIndent hinner)]
  have hsep : shift outer ",\n" = ",\n" ++ outer := by
    rw [show (",\n" : String) = "," ++ "\n" from rfl, shift_append, shift_feed,
      shift_of_isLine (by decide), String.append_assoc]
  -- The indentation behind the line feed that separates two parts is that in front of the second.
  have hjoined : ",\n".intercalate
      ((parts.map (shift outer)).map (outer ++ inner ++ innerIndent ++ ·)) =
      outer ++ (",\n" ++ outer).intercalate
        ((parts.map (shift outer)).map (inner ++ innerIndent ++ ·)) := by
    rw [← intercalate_map_append _ _ (by simpa using hne), List.map_map (g := (outer ++ ·))]
    simp only [Function.comp_def, String.append_assoc]
  rw [onManyLines, onManyLines, hjoined]
  simp only [shift_append, shift_feed, shift_of_isLine hopening.single,
    shift_of_isLine hclosing.single, shift_of_isLine hinner, shift_intercalate, hparts, hsep]
  simp only [String.append_assoc]

theorem hasFullLines_onOneLine (hopening : IsFullLine opening) (hclosing : IsFullLine closing)
    (hne : parts ≠ []) (h : ∀ part ∈ parts, HasFullLines part) :
    HasFullLines (onOneLine opening closing parts) := by
  have hparts : HasFullLines (", ".intercalate parts) :=
    .intercalate (fun hs ht => (hs.append_line (by decide)).append ht) hne h
  exact (hparts.line_append hopening.single).append_line hclosing.single

theorem hasFullLines_onManyLines (hopening : IsFullLine opening) (hclosing : IsFullLine closing)
    {indent : String} (hindent : isLine indent = true) (hne : parts ≠ [])
    (h : ∀ part ∈ parts, HasFullLines part) :
    HasFullLines (onManyLines opening closing indent parts) := by
  have hsep {s t : String} (hs : HasFullLines s) (ht : HasFullLines t) :
      HasFullLines (s ++ ",\n" ++ t) := by
    have hcomma : HasFullLines (s ++ ",") := hs.append_line (by decide)
    have hends : s ++ "," ++ "\n" = s ++ ",\n" := String.append_assoc
    exact hends ▸ hcomma.feed ht
  have hparts : HasFullLines (",\n".intercalate (parts.map (indent ++ innerIndent ++ ·))) :=
    .intercalate hsep (by simpa using hne)
      (List.forall_mem_map.mpr fun part hpart =>
        (h part hpart).line_append (isLine_innerIndent hindent))
  have hlast := (hclosing.line_append hindent).hasFullLines
  have hall := (hopening.hasFullLines.feed hparts).feed hlast
  rwa [← String.append_assoc] at hall

end

/-! ## Marks and parts -/

/-- The marks of a literal, each of them on one line. -/
structure Marks where
  /-- The literal without parts. -/
  bare : String
  /-- The mark in front of parts on one line. -/
  opening : String
  /-- The mark behind parts on one line. -/
  closing : String
  /-- The mark on the line before parts on a line each. -/
  openingLine : String
  /-- The mark on the line after parts on a line each. -/
  closingLine : String
  full : ∀ mark ∈ [bare, opening, closing, openingLine, closingLine], IsFullLine mark

namespace Marks

/-- The marks of array literals. -/
def array : Marks :=
  ⟨"[]", "[", "]", "[", "]", by decide⟩

/-- The marks of object literals. -/
def object : Marks :=
  ⟨"\x7b\x7d", "\x7b ", " \x7d", "\x7b", "\x7d", by decide⟩

/-- The text of a literal from the texts of its parts. -/
def text (m : Marks) (indent : String) (multiLine : Bool) : List String → String
  | [] => m.bare
  | part :: parts =>
    if multiLine then onManyLines m.openingLine m.closingLine indent (part :: parts)
    else onOneLine m.opening m.closing (part :: parts)

variable (m : Marks)

theorem isFullLine : IsFullLine m.bare ∧ IsFullLine m.opening ∧ IsFullLine m.closing ∧
    IsFullLine m.openingLine ∧ IsFullLine m.closingLine := by
  have hfull := m.full
  simp only [List.forall_mem_cons] at hfull
  obtain ⟨hbare, hopening, hclosing, hopeningLine, hclosingLine, _⟩ := hfull
  exact ⟨hbare, hopening, hclosing, hopeningLine, hclosingLine⟩

/-- A literal is shifted part by part. -/
theorem shift_text {inner : String} (hinner : isLine inner = true) (outer : String)
    (multiLine : Bool) (parts : List String) : shift outer (m.text inner multiLine parts) =
      m.text (outer ++ inner) multiLine (parts.map (shift outer)) := by
  obtain ⟨hbare, hopening, hclosing, hopeningLine, hclosingLine⟩ := m.isFullLine
  cases parts with
  | nil => exact shift_of_isLine hbare.single outer
  | cons part parts =>
    cases multiLine with
    | false => exact shift_onOneLine hopening hclosing outer (part :: parts)
    | true =>
      exact shift_onManyLines hopeningLine hclosingLine hinner (List.cons_ne_nil _ _) outer

theorem hasFullLines_text {indent : String} (hindent : isLine indent = true) (multiLine : Bool)
    {parts : List String} (h : ∀ part ∈ parts, HasFullLines part) :
    HasFullLines (m.text indent multiLine parts) := by
  obtain ⟨hbare, hopening, hclosing, hopeningLine, hclosingLine⟩ := m.isFullLine
  cases parts with
  | nil => exact hbare.hasFullLines
  | cons part parts =>
    cases multiLine with
    | false => exact hasFullLines_onOneLine hopening hclosing (List.cons_ne_nil _ _) h
    | true =>
      exact hasFullLines_onManyLines hopeningLine hclosingLine hindent (List.cons_ne_nil _ _) h

/-- The string literals of the parts stand in a literal in the order of the parts. -/
theorem literals_text {α : Type} {texts : α → List String} {part : α → String} {as : List α}
    (h : ∀ a ∈ as, Literals (texts a) (part a)) (indent : String) (multiLine : Bool) :
    Literals (as.flatMap texts) (m.text indent multiLine (as.map part)) := by
  cases as with
  | nil => exact .nil _
  | cons a rest =>
    cases multiLine with
    | false => exact ((Literals.intercalate h ", ").after m.opening).before m.closing
    | true =>
      have hparts : ∀ b ∈ a :: rest, Literals (texts b) (indent ++ innerIndent ++ part b) :=
        fun b hb => (h b hb).after _
      have hall := (((Literals.intercalate hparts ",\n").after (m.openingLine ++ "\n")).before
        "\n").before (indent ++ m.closingLine)
      rw [← String.append_assoc] at hall
      show Literals _ (onManyLines _ _ _ _)
      rw [onManyLines, ← List.map_cons, List.map_map]
      exact hall

end Marks

namespace Expr

/-! ## Expressions by their kind -/

section

variable (indent : String)

theorem print_ident (name : String) : print indent (.ident name) = name := rfl

theorem print_number (value : Number) (comment : Option String) :
    print indent (.number value comment) = value.text ++ commentAfter comment := rfl

theorem print_misfit (value : Value) : print indent (.misfit value) = "" := rfl

theorem print_text (s : String) : print indent (.text s) = Text.quoted s := rfl

theorem print_bool (b : Bool) : print indent (.bool b) = if b then "true" else "false" := rfl

theorem print_access (base : Expr) (name : String) :
    print indent (.access base name) = print indent base ++ "." ++ name := rfl

theorem print_arrow (body : Expr) :
    print indent (.arrow body) = "() => " ++ print indent body := rfl

end

theorem print_array (indent : String) (elements : List Expr) (multiLine : Bool) :
    print indent (.array elements multiLine) =
      Marks.array.text indent multiLine
        (elements.map (print (propertyIndent indent multiLine))) := by
  cases elements with
  | nil => rfl
  | cons e rest =>
    cases multiLine with
    | false =>
      show onOneLine "[" "]" (printAll indent (e :: rest)) = _
      rw [printAll_eq_map]
      rfl
    | true =>
      show onManyLines "[" "]" indent (printAll (indent ++ innerIndent) (e :: rest)) = _
      rw [printAll_eq_map]
      rfl

theorem print_object_marks (indent : String) (properties : List (String × Expr))
    (multiLine : Bool) : print indent (.object properties multiLine) =
      Marks.object.text indent multiLine (properties.map fun p =>
        propertyName p.1 ++ ": " ++ print (propertyIndent indent multiLine) p.2) := by
  rw [print_object]
  cases properties with
  | nil => rfl
  | cons p rest => rfl

theorem isLine_propertyIndent {indent : String} (h : isLine indent = true) (multiLine : Bool) :
    isLine (propertyIndent indent multiLine) = true := by
  unfold propertyIndent
  split
  · exact isLine_innerIndent h
  · exact h

theorem propertyIndent_append (outer inner : String) (multiLine : Bool) :
    propertyIndent (outer ++ inner) multiLine = outer ++ propertyIndent inner multiLine := by
  unfold propertyIndent
  split
  · exact String.append_assoc
  · rfl

/-! ## String literals of an expression -/

/-- The string literal that a key is written as, if it is not written bare. -/
def keyTexts (key : String) : List String :=
  if isBareKey key.toList then [] else [key]

mutual

/-- The texts of the string literals in an expression, in the order in which they are written. -/
def texts : Expr → List String
  | .text s => [s]
  | .access base _ => texts base
  | .arrow body => texts body
  | .array elements _ => textsInAll elements
  | .object properties _ => textsInProperties properties
  | .ident _ | .number _ _ | .misfit _ | .bool _ => []

/-- The texts in expressions in order. -/
def textsInAll : List Expr → List String
  | [] => []
  | e :: rest => texts e ++ textsInAll rest

/-- The texts in properties in order. -/
def textsInProperties : List (String × Expr) → List String
  | [] => []
  | (key, e) :: rest => keyTexts key ++ texts e ++ textsInProperties rest

end

theorem textsInAll_eq_flatMap (es : List Expr) : textsInAll es = es.flatMap texts := by
  induction es with
  | nil => rfl
  | cons e rest ih => rw [textsInAll, ih, List.flatMap_cons]

theorem textsInProperties_eq_flatMap (ps : List (String × Expr)) :
    textsInProperties ps = ps.flatMap fun p => keyTexts p.1 ++ texts p.2 := by
  induction ps with
  | nil => rfl
  | cons p rest ih => rw [textsInProperties, ih, List.flatMap_cons]

theorem literals_propertyName (key : String) : Literals (keyTexts key) (propertyName key) := by
  unfold keyTexts propertyName
  split
  · exact .nil key
  · exact .quoted key

/-! ## Expressions that keep the lines -/

/-- No name, no comment of a number and no key brings a line end into the text of an expression, and
no identifier is empty. -/
inductive KeepsLines : Expr → Prop where
  | ident {name : String} (hne : name ≠ "") (hname : isLine name = true) : KeepsLines (.ident name)
  | number (value : Number) {comment : Option String} (h : ∀ c ∈ comment, isLine c = true) :
    KeepsLines (.number value comment)
  | misfit (value : Value) : KeepsLines (.misfit value)
  | text (s : String) : KeepsLines (.text s)
  | bool (b : Bool) : KeepsLines (.bool b)
  | access {base : Expr} {name : String} (hbase : KeepsLines base) (hname : isLine name = true) :
    KeepsLines (.access base name)
  | arrow {body : Expr} (h : KeepsLines body) : KeepsLines (.arrow body)
  | array {elements : List Expr} {multiLine : Bool} (h : ∀ e ∈ elements, KeepsLines e) :
    KeepsLines (.array elements multiLine)
  | object {properties : List (String × Expr)} {multiLine : Bool}
    (hkeys : ∀ p ∈ properties, p.1.toList.getLast? ≠ some '\n')
    (h : ∀ p ∈ properties, KeepsLines p.2) : KeepsLines (.object properties multiLine)

theorem isFullLine_number {comment : Option String} (h : ∀ c ∈ comment, isLine c = true)
    (value : Number) : IsFullLine (value.text ++ commentAfter comment) := by
  have hvalue : IsFullLine value.text := by
    cases value with
    | int n => exact isFullLine_intText n
    | double d => exact Double.isFullLine_text (by decide) (by decide) d
  refine hvalue.append_line ?_
  cases comment with
  | none => decide
  | some c =>
    rw [commentAfter, isLine_append, isLine_append, isLine_commentText (h c rfl)]
    decide

theorem isFullLine_bool (b : Bool) : IsFullLine (if b then "true" else "false") := by
  cases b with
  | false => decide
  | true => decide

theorem isFullLine_propertyName {key : String} (h : key.toList.getLast? ≠ some '\n') :
    IsFullLine (propertyName key) := by
  have hspells := Script.SpellsKey.propertyName h
  obtain ⟨c, rest, hkey, _⟩ := hspells.starts
  exact isFullLine_of_isVisible hkey hspells.visible

theorem misfit?_of_firstMisfit? {es : List Expr} (h : firstMisfit? es = none) :
    ∀ e ∈ es, e.misfit? = none := by
  induction es with
  | nil => nofun
  | cons e rest ih =>
    rw [firstMisfit?, Option.or_eq_none_iff] at h
    exact List.forall_mem_cons.mpr ⟨h.1, ih h.2⟩

theorem misfit?_of_propertyMisfit? {ps : List (String × Expr)} (h : propertyMisfit? ps = none) :
    ∀ p ∈ ps, p.2.misfit? = none := by
  induction ps with
  | nil => nofun
  | cons p rest ih =>
    rw [propertyMisfit?, Option.or_eq_none_iff] at h
    exact List.forall_mem_cons.mpr ⟨h.1, ih h.2⟩

theorem isLine_dot : isLine "." = true := by decide

theorem isLine_arrow : isLine "() => " = true := by decide

theorem isLine_colon : isLine ": " = true := by decide

namespace KeepsLines

variable {e : Expr}

/-- The text of an expression further right is its text with more blanks after every line feed. -/
theorem print_append (h : e.KeepsLines) (outer : String) {inner : String}
    (hinner : isLine inner = true) : print (outer ++ inner) e = shift outer (print inner e) := by
  induction h generalizing inner with
  | ident hne hname =>
    rw [print_ident, print_ident, shift_of_isLine hname]
  | number value hcomment =>
    rw [print_number, print_number, shift_of_isLine (isFullLine_number hcomment value).single]
  | misfit value => rw [print_misfit, print_misfit]; rfl
  | text s => rw [print_text, print_text, shift_of_isLine (isFullLine_quoted s).single]
  | bool b => rw [print_bool, print_bool, shift_of_isLine (isFullLine_bool b).single]
  | access hbase hname ih =>
    have hdot : shift outer "." = "." := shift_of_isLine isLine_dot outer
    rw [print_access, print_access, shift_append, shift_append, ih hinner, shift_of_isLine hname,
      hdot]
  | arrow h ih =>
    have harrow : shift outer "() => " = "() => " := shift_of_isLine isLine_arrow outer
    rw [print_arrow, print_arrow, shift_append, ih hinner, harrow]
  | @array elements multiLine h ih =>
    rw [print_array, print_array, Marks.shift_text _ hinner, List.map_map, propertyIndent_append]
    refine congrArg (Marks.array.text (outer ++ inner) multiLine) (List.map_congr_left ?_)
    exact fun e he => ih e he (isLine_propertyIndent hinner multiLine)
  | @object properties multiLine hkeys h ih =>
    rw [print_object_marks, print_object_marks, Marks.shift_text _ hinner, List.map_map,
      propertyIndent_append]
    refine congrArg (Marks.object.text (outer ++ inner) multiLine) (List.map_congr_left ?_)
    intro p hp
    have hcolon : shift outer ": " = ": " := shift_of_isLine isLine_colon outer
    rw [Function.comp_apply, shift_append, shift_append, hcolon,
      shift_of_isLine (isFullLine_propertyName (hkeys p hp)).single,
      ih p hp (isLine_propertyIndent hinner multiLine)]

/-- No line of the text of an expression is empty, and only line feeds stand between the lines. -/
theorem hasFullLines_print (h : e.KeepsLines) (hmisfit : e.misfit? = none) {indent : String}
    (hindent : isLine indent = true) : HasFullLines (print indent e) := by
  induction h generalizing indent with
  | ident hne hname =>
    rw [print_ident]
    exact IsFullLine.hasFullLines ⟨hne, hname⟩
  | number value hcomment =>
    rw [print_number]
    exact (isFullLine_number hcomment value).hasFullLines
  | misfit value => rw [misfit?] at hmisfit; cases hmisfit
  | text s =>
    rw [print_text]
    exact (isFullLine_quoted s).hasFullLines
  | bool b =>
    rw [print_bool]
    exact (isFullLine_bool b).hasFullLines
  | access hbase hname ih =>
    rw [misfit?] at hmisfit
    rw [print_access]
    exact ((ih hmisfit hindent).append_line isLine_dot).append_line hname
  | arrow h ih =>
    rw [misfit?] at hmisfit
    rw [print_arrow]
    exact (ih hmisfit hindent).line_append isLine_arrow
  | @array elements multiLine h ih =>
    rw [misfit?] at hmisfit
    rw [print_array]
    refine Marks.hasFullLines_text _ hindent multiLine (List.forall_mem_map.mpr fun e he => ?_)
    exact ih e he (misfit?_of_firstMisfit? hmisfit e he) (isLine_propertyIndent hindent multiLine)
  | @object properties multiLine hkeys h ih =>
    rw [misfit?] at hmisfit
    rw [print_object_marks]
    refine Marks.hasFullLines_text _ hindent multiLine (List.forall_mem_map.mpr fun p hp => ?_)
    have hvalue := ih p hp (misfit?_of_propertyMisfit? hmisfit p hp)
      (isLine_propertyIndent hindent multiLine)
    have hkey := (isFullLine_propertyName (hkeys p hp)).append_line isLine_colon
    exact hvalue.line_append hkey.single

/-- The string literals of an expression stand in its text in their order. -/
theorem literals_print (h : e.KeepsLines) (indent : String) :
    Literals e.texts (print indent e) := by
  induction h generalizing indent with
  | text s =>
    rw [print_text, texts]
    exact .quoted s
  | access hbase hname ih =>
    rw [print_access, texts]
    exact ((ih indent).before ".").before _
  | arrow h ih =>
    rw [print_arrow, texts]
    exact (ih indent).after "() => "
  | @array elements multiLine h ih =>
    rw [print_array, texts, textsInAll_eq_flatMap]
    exact Marks.literals_text _ (fun e he => ih e he _) indent multiLine
  | @object properties multiLine hkeys h ih =>
    rw [print_object_marks, texts, textsInProperties_eq_flatMap]
    refine Marks.literals_text _ (fun p hp => ?_) indent multiLine
    exact ((literals_propertyName p.1).before ": ").append (ih p hp _)
  | ident hne hname => exact .nil _
  | number value hcomment => exact .nil _
  | misfit value => exact .nil _
  | bool b => exact .nil _

/-- Printing an expression at an indentation is printing it without one and setting the indentation
after every line feed.  So a draft writes the text of an expression as it would have been printed
at the level of the draft, behind the blanks of that level, and the string literals in it are left
as they are. -/
theorem print_indented (h : e.KeepsLines) :
    (∀ indent : String, e.print indent = shift indent (e.print "") ∧
      e.written indent = (e.written "").map (shift indent)) ∧
    ∀ d : Draft, e.misfit? = none →
      let line := blanks d.level ++ e.print (blanks d.level)
      d.write [.expr e] = (.ok (), { d with lines := d.lines ++ [line] }) ∧
        Literals e.texts line := by
  have hprint (indent : String) : e.print indent = shift indent (e.print "") := by
    have happend : print (indent ++ "") e = shift indent (print "" e) :=
      h.print_append indent (by decide)
    rwa [String.append_empty] at happend
  refine ⟨fun indent => ⟨hprint indent, ?_⟩, fun d hmisfit => ⟨?_, ?_⟩⟩
  · unfold written
    split
    · rw [hprint]
      rfl
    · rfl
  · have hwritten : e.written "" = .ok (e.print "") := by
      rw [written, hmisfit]
    have hline : indent d.level (e.print "" ++ "") =
        blanks d.level ++ e.print (blanks d.level) := by
      rw [String.append_empty, (h.hasFullLines_print hmisfit (by decide)).indent, ← hprint]
    have hspell : d.spell [.expr e] = (.ok (e.print "" ++ ""), d) := by
      rw [Draft.spell, hwritten]
      rfl
    rw [Draft.write, hspell]
    dsimp only
    rw [hline]
  · exact (h.literals_print (blanks d.level)).after _

end KeepsLines

/-- An array on many lines, with an object on many lines and an array on one line in it, and with
line ends in string literals. -/
def sampleLayout : Expr :=
  .array [.object [("a\u2028", .text "b\nc\u2028")] true,
    .array [.number (.int 2) (some "D*/"), .arrow (.object [("e", .access (.ident "F") "g")] true)]
      false] true

theorem keepsLines_sampleLayout : sampleLayout.KeepsLines := by
  have hinner : ∀ p ∈ [("a\u2028", Expr.text "b\nc\u2028")], p.2.KeepsLines :=
    List.forall_mem_singleton.mpr (.text _)
  have haccess : (Expr.access (.ident "F") "g").KeepsLines :=
    .access (.ident (by decide) (by decide)) (by decide)
  have hbody : ∀ p ∈ [("e", Expr.access (.ident "F") "g")], p.2.KeepsLines :=
    List.forall_mem_singleton.mpr haccess
  have hnumber : (Expr.number (.int 2) (some "D*/")).KeepsLines :=
    .number _ fun c hc => Option.some.inj hc ▸ by decide
  have hline : ∀ e ∈ [Expr.number (.int 2) (some "D*/"),
      .arrow (.object [("e", .access (.ident "F") "g")] true)], e.KeepsLines :=
    List.forall_mem_cons.mpr ⟨hnumber,
      List.forall_mem_singleton.mpr (.arrow (.object (by decide) hbody))⟩
  exact .array (List.forall_mem_cons.mpr ⟨.object (by decide) hinner,
    List.forall_mem_singleton.mpr (.array hline)⟩)

/-- The line that is written for it at an indentation of two blanks. -/
def sampleLine : String :=
  "  [\n      \x7b\n          \"a\\u2028\": \"b\\nc\\u2028\"\n      \x7d,\n" ++
    "      [2 /*D*\\/*/, () => \x7b\n          e: F.g\n      \x7d]\n  ]"

theorem print_indented_of_sampleLayout :
    sampleLayout.KeepsLines ∧ sampleLayout.misfit? = none ∧
      sampleLayout.print "  " = shift "  " (sampleLayout.print "") ∧
      ({ Draft.new "main.ts" ⟨"./main"⟩ with level := 2 }).write [.expr sampleLayout] =
        (.ok (), { Draft.new "main.ts" ⟨"./main"⟩ with lines := [sampleLine], level := 2 }) ∧
      Literals ["a\u2028", "b\nc\u2028"] sampleLine := by
  obtain ⟨hprint, hwrite⟩ := keepsLines_sampleLayout.print_indented
  have hmisfit : sampleLayout.misfit? = none := by decide +kernel
  have hline : blanks 2 ++ sampleLayout.print (blanks 2) = sampleLine := by decide
  obtain ⟨hwritten, hliterals⟩ := hwrite { Draft.new "main.ts" ⟨"./main"⟩ with level := 2 } hmisfit
  dsimp only at hwritten hliterals
  rw [hline] at hwritten hliterals
  exact ⟨keepsLines_sampleLayout, hmisfit, (hprint "  ").1, hwritten, hliterals⟩

end Expr

end SchemaScript
