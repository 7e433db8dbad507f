import SchemaScript.Proofs.Module.Source
import SchemaScript.Proofs.Text.Comments

/-!
# Enclosed comments

No text gets out of the documentation comment that it is written in.

Behind the blanks of the indentation such a comment is opened, and the first end of a comment in it
is at its end (`IsComment`).  Every line but the last one stays open, and no star meets a slash where
a line feed joins two lines.  So it does not matter what the schema says in a comment or how a
declaration is called.

The lines of a comment in the schema are written in their order, one for each (`Carries`).  The
empty lines at its end are left out.
-/

namespace SchemaScript

open Text

/-! ## Open lines -/

theorem staysOpen_docLine (line : String) : StaysOpen (docLine line).toList := by
  unfold docLine
  split
  · exact .of_not_mem (by decide)
  · rw [String.toList_append]
    exact StaysOpen.append (.of_not_mem (by decide)) (staysOpen_commentText line)
      (.inl (by decide))

theorem docLine_ne (line : String) : docLine line ≠ "" := by
  unfold docLine
  split
  · decide
  · simp

theorem isLine_docLine {line : String} (h : isLine line = true) : isLine (docLine line) = true := by
  unfold docLine
  split
  · decide
  · rw [isLine_append, isLine_commentText h]
    decide

/-! ## Comments as a whole -/

/-- A text is one documentation comment behind blanks.  The comment that is opened at its start is
closed at its end and not before. -/
structure IsComment (level : Nat) (text : String) : Prop where
  opens : ∃ rest, text = blanks level ++ "/**" ++ rest
  closes : ∃ rest, text = rest ++ "*/"
  once : ∀ before after, text = before ++ "*/" ++ after → after = ""

/-- Lines that stay open make a comment between the line that opens it and the line that closes
it. -/
theorem isComment_of_staysOpen {level : Nat} {lines : List String}
    (h : ∀ line ∈ lines, StaysOpen line.toList) :
    IsComment level ("\n".intercalate
      ((blanks level ++ "/**") :: (lines ++ [blanks level ++ " */"]))) := by
  let inner := "\n".intercalate ((blanks level ++ "/**") :: lines) ++ ("\n" ++ (blanks level ++ " "))
  have hinner : StaysOpen inner.toList := by
    have hlines : StaysOpen ("\n".intercalate ((blanks level ++ "/**") :: lines)).toList := by
      rw [String.toList_intercalate]
      refine StaysOpen.intercalate (List.forall_mem_map.mpr (List.forall_mem_cons.mpr ⟨?_, h⟩))
      exact staysOpen_blanks_append (by decide)
    have hlast : StaysOpen (blanks level ++ " ").toList :=
      staysOpen_blanks_append (by decide)
    rw [String.toList_append, String.toList_append]
    exact hlines.append (hlast.cons (.inl (by decide))) (.inr (by simp))
  have htext : "\n".intercalate ((blanks level ++ "/**") :: (lines ++ [blanks level ++ " */"])) =
      inner ++ "*/" := by
    rw [← List.cons_append, String.intercalate_append_of_ne_nil (List.cons_ne_nil _ _) (by simp),
      String.intercalate_singleton, String.append_assoc, String.append_assoc, String.append_assoc,
      String.append_assoc]
    rfl
  constructor
  case opens =>
    rw [String.intercalate_cons_of_ne_nil (by simp), String.append_assoc]
    exact ⟨_, rfl⟩
  case closes => exact ⟨inner, htext⟩
  case once =>
    intro before after hsplit
    exact eq_empty_of_staysOpen hinner (htext.symm.trans hsplit)

/-! ## Lines of the schema -/

/-- A line of a comment in the schema, and the line that is written for it.  There is a mark in
front of it, no line end in it, and a backslash in each end of a comment. -/
structure Carries (level : Nat) (line written : String) : Prop where
  single : isLine written = true
  empty : line = "" → written = blanks level ++ " *"
  disarmed : line ≠ "" → ∃ text, Disarms text line ∧ written = blanks level ++ " * " ++ text

/-- The marks at both ends of a comment are moved to the right, and so is every line between. -/
theorem map_indent_docText (location : Location) (origin : String) (level : Nat) :
    (docText location origin).map (indent level) = (blanks level ++ "/**") ::
      ((docLines location origin).map (fun line => indent level (docLine line)) ++
        [blanks level ++ " */"]) := by
  have hopening : indent level "/**" = blanks level ++ "/**" :=
    indent_of_no_end (by decide) (by decide) level
  have hclosing : indent level " */" = blanks level ++ " */" :=
    indent_of_no_end (by decide) (by decide) level
  rw [docText, List.map_append, List.map_append, List.map_singleton, List.map_singleton,
    List.map_map, hopening, hclosing]
  rfl

/-- The lines of a comment that was cleaned come first. -/
theorem docLines_of_cleaned {location : Location} {raw : String}
    (h : location.leading = cleanComment raw) (origin : String) :
    docLines location origin =
      commentLines raw ++ (if location.leading = "" then [] else [""]) ++
        ["@generated from " ++ origin] := by
  unfold docLines
  dsimp only
  split
  · next hempty =>
    have hnone : commentLines raw = [] := by
      rw [← lines_cleanComment, ← h, hempty]
      rfl
    rw [hnone]
    rfl
  · rw [h, lines_cleanComment]

theorem carries_docLine {line : String} (h : isLine line = true) (level : Nat) :
    Carries level line (indent level (docLine line)) := by
  rw [indent_of_no_end (isLine_docLine h) (docLine_ne line)]
  constructor
  case single => rw [isLine_append, isLine_blanks, isLine_docLine h]; rfl
  case empty => rintro rfl; rfl
  case disarmed =>
    intro hne
    refine ⟨commentText line, disarms_commentText line, ?_⟩
    rw [docLine, if_neg hne, String.append_assoc]

/-! ## What is written -/

/-- The lines that are written for a documentation comment are one comment, whatever the schema says
and whatever the declaration is called.  The comment of a location was cleaned (`FileHeader.locate`).
The lines of the comment that it was cleaned from stand in it one by one, and after them an empty
line and the origin. -/
theorem writeDoc_encloses (location : Location) (origin : String) (d : Draft) :
    ∃ written, writeDoc location origin d = (.ok (), { d with lines := d.lines ++ written }) ∧
      IsComment d.level ("\n".intercalate written) ∧
      ∀ raw, location.leading = cleanComment raw →
        ∃ body, List.Forall₂ (Carries d.level) (commentLines raw) body ∧
          written = [blanks d.level ++ "/**"] ++ body ++
            (if location.leading = "" then [] else [blanks d.level ++ " *"]) ++
            [indent d.level (docLine ("@generated from " ++ origin)), blanks d.level ++ " */"] := by
  have hprints : writeDoc location origin d = (.ok (),
      { d with lines := d.lines ++ (docText location origin).map (indent d.level) }) :=
    writeDoc_prints location origin d
  rw [map_indent_docText] at hprints
  refine ⟨_, hprints, ?_, fun raw hraw => ?_⟩
  · refine isComment_of_staysOpen (List.forall_mem_map.mpr fun line _ => ?_)
    exact staysOpen_indent (staysOpen_docLine line)
  · refine ⟨(commentLines raw).map fun line => indent d.level (docLine line), ?_, ?_⟩
    · rw [List.forall₂_map_right_iff, List.forall₂_same]
      exact fun line hline => carries_docLine (isLine_of_mem_commentLines hline) d.level
    · have hempty : indent d.level (docLine "") = blanks d.level ++ " *" :=
        indent_of_no_end (by decide +kernel) (by decide +kernel) d.level
      rw [docLines_of_cleaned hraw]
      split
      · simp
      · simp [hempty]

example : (docText ⟨[], cleanComment " a*/\x0b/b **\n \n", "", []⟩ "p*/").map (indent 2) =
    ["  /**", "   * a*\\/", "   * /b **", "   *", "   * @generated from p*\\/", "   */"] := by
  decide

end SchemaScript
