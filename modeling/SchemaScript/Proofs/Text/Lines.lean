import Mathlib.Data.List.Infix
import SchemaScript.Text.Lines

/-!
# Lines of texts

How a text falls into lines, and how the lines begin before and after it is moved to the right.

The lines of a text are stretches of it without line ends, the first one at its start.  Lines that
line feeds join are read back as they are, but for an empty one at the end
(`splitLines_intercalate`).

Where a text starts with a stretch without line ends, that stretch starts its first line.  So it
still starts the text when nothing is moved (`indent_zero_append`), and it stands behind the blanks
when all is moved (`indent_append`).  A text that is moved starts with a blank unless its first line
is empty (`head?_indent`).  Its lines that are not empty are those of the text before, behind as many
blanks as it is moved by (`movedBy_indent`).
-/

namespace SchemaScript.Text

/-! ## Splitting -/

theorem splitLines_cons {c : Char} (hc : isLineEnd c = false) (rest : List Char) :
    splitLines (c :: rest) = (c :: (splitLines rest).headD []) :: (splitLines rest).tail := by
  have hreturn : c ≠ '\r' := by
    rintro rfl
    exact absurd hc (by decide)
  have hstep := (splitLines.eq_3 c rest fun _ h _ => hreturn h).trans (if_neg (by simp [hc]))
  cases hrest : splitLines rest <;> rw [hrest] at hstep <;> exact hstep

/-- Whether a text has no line ends. -/
def isLine (s : String) : Bool :=
  s.toList.all fun c => !isLineEnd c

theorem isLine_iff {s : String} : isLine s = true ↔ ∀ c ∈ s.toList, isLineEnd c = false := by
  simp [isLine]

theorem isLine_append (s t : String) : isLine (s ++ t) = (isLine s && isLine t) := by
  rw [isLine, isLine, isLine, String.toList_append, List.all_append]

theorem isLine_replicate {c : Char} (h : isLineEnd c = false) (n : Nat) :
    isLine (String.ofList (List.replicate n c)) = true := by
  refine isLine_iff.mpr fun d hd => ?_
  rw [String.toList_ofList] at hd
  rw [List.eq_of_mem_replicate hd]
  exact h

theorem isLine_blanks (width : Nat) : isLine (blanks width) = true :=
  isLine_replicate (by decide) width

/-- A stretch without line ends starts the first line. -/
theorem splitLines_append {p : List Char} (hp : ∀ c ∈ p, isLineEnd c = false) (hne : p ≠ [])
    (s : List Char) : ∃ line lines, splitLines (p ++ s) = (p ++ line) :: lines := by
  induction p with
  | nil => exact absurd rfl hne
  | cons c rest ih =>
    rw [List.cons_append, splitLines_cons (hp c List.mem_cons_self)]
    cases rest with
    | nil => exact ⟨(splitLines s).headD [], (splitLines s).tail, rfl⟩
    | cons c' rest' =>
      obtain ⟨line, lines, hlines⟩ :=
        ih (fun a ha => hp a (List.mem_cons_of_mem _ ha)) (List.cons_ne_nil _ _)
      rw [hlines]
      exact ⟨line, lines, rfl⟩

/-- A text without line ends is one line. -/
theorem splitLines_of_no_end {p : List Char} (hp : ∀ c ∈ p, isLineEnd c = false) (hne : p ≠ []) :
    splitLines p = [p] := by
  induction p with
  | nil => exact absurd rfl hne
  | cons c rest ih =>
    rw [splitLines_cons (hp c List.mem_cons_self)]
    cases rest with
    | nil => rfl
    | cons c' rest' =>
      rw [ih (fun a ha => hp a (List.mem_cons_of_mem _ ha)) (List.cons_ne_nil _ _)]
      rfl

/-- A text without lines is empty, and any other one starts with an end or with a character that is
none. -/
theorem splitLines_induction {motive : List Char → List (List Char) → Prop} (nil : motive [] [])
    (close : ∀ ends rest, motive rest (splitLines rest) →
      motive (ends ++ rest) ([] :: splitLines rest))
    (char : ∀ c rest, isLineEnd c = false → motive rest (splitLines rest) →
      motive (c :: rest) ((c :: (splitLines rest).headD []) :: (splitLines rest).tail))
    (chars : List Char) : motive chars (splitLines chars) := by
  induction chars using splitLines.induct with
  | case1 => exact nil
  | case2 rest ih => exact close ['\r', '\n'] rest ih
  | case3 c rest hpair hc ih =>
    rw [splitLines.eq_3 c rest hpair, if_pos hc]
    exact close [c] rest ih
  | case4 c rest hpair hc hrest ih =>
    rw [splitLines_cons (Bool.eq_false_iff.mpr hc)]
    exact char c rest (Bool.eq_false_iff.mpr hc) ih
  | case5 c rest hpair hc line lines hrest ih =>
    rw [splitLines_cons (Bool.eq_false_iff.mpr hc)]
    exact char c rest (Bool.eq_false_iff.mpr hc) ih

/-- No line holds an end. -/
theorem isLineEnd_of_mem_splitLines (chars : List Char) :
    ∀ line ∈ splitLines chars, ∀ c ∈ line, isLineEnd c = false := by
  induction chars using splitLines_induction with
  | nil => nofun
  | close ends rest ih => exact List.forall_mem_cons.mpr ⟨nofun, ih⟩
  | char c rest hc ih =>
    refine List.forall_mem_cons.mpr ⟨List.forall_mem_cons.mpr ⟨hc, ?_⟩, fun line hline =>
      ih line (List.mem_of_mem_tail hline)⟩
    cases hrest : splitLines rest with
    | nil => nofun
    | cons line lines => exact ih line (hrest ▸ List.mem_cons_self)

/-- The first line starts the text, and every line is a stretch of it. -/
theorem infix_of_mem_splitLines (chars : List Char) :
    (splitLines chars).headD [] <+: chars ∧ ∀ line ∈ splitLines chars, line <:+: chars := by
  induction chars using splitLines_induction with
  | nil => exact ⟨List.prefix_refl _, nofun⟩
  | close ends rest ih =>
    refine ⟨List.nil_prefix, List.forall_mem_cons.mpr ⟨List.nil_infix, fun line hline => ?_⟩⟩
    exact (ih.2 line hline).trans (List.suffix_append _ _).isInfix
  | char c rest hc ih =>
    have hfirst : c :: (splitLines rest).headD [] <+: c :: rest :=
      (List.prefix_cons_inj c).mpr ih.1
    refine ⟨hfirst, List.forall_mem_cons.mpr ⟨hfirst.isInfix, fun line hline => ?_⟩⟩
    exact (ih.2 line (List.mem_of_mem_tail hline)).trans (List.suffix_cons _ _).isInfix

/-- A line feed closes the line before it. -/
theorem splitLines_append_line_feed {line : List Char} (h : ∀ c ∈ line, isLineEnd c = false)
    (rest : List Char) : splitLines (line ++ '\n' :: rest) = line :: splitLines rest := by
  induction line with
  | nil =>
    rw [List.nil_append, splitLines.eq_3 _ _ fun _ h _ => absurd h (by decide)]
    rfl
  | cons c line ih =>
    obtain ⟨hc, hline⟩ := List.forall_mem_cons.mp h
    rw [List.cons_append, splitLines_cons hc, ih hline]
    rfl

/-- Lines that line feeds join are read back if the last one is not empty. -/
theorem splitLines_intercalate {lines : List (List Char)}
    (h : ∀ line ∈ lines, ∀ c ∈ line, isLineEnd c = false) (hlast : lines.getLast? ≠ some []) :
    splitLines (['\n'].intercalate lines) = lines := by
  match lines with
  | [] => rfl
  | [line] =>
    rw [List.intercalate_singleton]
    exact splitLines_of_no_end (h line List.mem_cons_self) (by simpa using hlast)
  | line :: next :: rest =>
    obtain ⟨hline, hrest⟩ := List.forall_mem_cons.mp h
    rw [List.intercalate_cons_cons, List.append_assoc, List.singleton_append,
      splitLines_append_line_feed hline, splitLines_intercalate hrest]
    rwa [List.getLast?_cons_cons] at hlast

/-! ## Indenting -/

/-- Lines that are joined start with the first of them, and a line feed follows it if anything. -/
theorem intercalate_cons (line : String) (lines : List String) :
    ∃ rest : List Char, ("\n".intercalate (line :: lines)).toList = line.toList ++ rest ∧
      ∀ c ∈ rest.head?, c = '\n' := by
  cases lines with
  | nil => exact ⟨[], by simp, by simp⟩
  | cons line' lines =>
    refine ⟨'\n' :: ("\n".intercalate (line' :: lines)).toList, ?_, by simp⟩
    rw [String.intercalate_cons_of_ne_nil (List.cons_ne_nil _ _)]
    simp

theorem indentLine_of_ne {width : Nat} {line : String} (h : line ≠ "") :
    indentLine width line = blanks width ++ line := if_neg h

/-- A stretch without line ends stands behind the blanks in front of the first line. -/
theorem indent_append {p : String} (hp : isLine p = true) (hne : p ≠ "")
    (width : Nat) (s : String) : ∃ rest, indent width (p ++ s) = blanks width ++ p ++ rest := by
  obtain ⟨line, lines, hlines⟩ :=
    splitLines_append (isLine_iff.mp hp) (fun h => hne (String.toList_eq_nil_iff.mp h)) s.toList
  have hsplit : Text.lines (p ++ s) = (p ++ String.ofList line) :: lines.map String.ofList := by
    rw [Text.lines, String.toList_append, hlines, List.map_cons, String.ofList_append,
      String.ofList_toList]
  have hline : p ++ String.ofList line ≠ "" := by
    intro h
    exact hne (String.append_eq_empty_iff.mp h).1
  obtain ⟨rest, hrest, _⟩ := intercalate_cons (indentLine width (p ++ String.ofList line))
    ((lines.map String.ofList).map (indentLine width))
  refine ⟨String.ofList line ++ String.ofList rest, String.toList_inj.mp ?_⟩
  rw [indent, hsplit, List.map_cons, hrest, indentLine_of_ne hline]
  simp [String.append_assoc]

/-- A text that is not moved starts as it is written. -/
theorem indent_zero_append {p : String} (hp : isLine p = true) (hne : p ≠ "")
    (s : String) : ∃ rest, indent 0 (p ++ s) = p ++ rest := by
  obtain ⟨rest, hrest⟩ := indent_append hp hne 0 s
  exact ⟨rest, by rw [hrest, show blanks 0 = "" from rfl, String.empty_append]⟩

/-- A line is moved as a whole. -/
theorem indent_of_no_end {s : String} (hs : isLine s = true) (hne : s ≠ "")
    (width : Nat) : indent width s = blanks width ++ s := by
  have hlines : Text.lines s = [s] := by
    rw [Text.lines, splitLines_of_no_end (isLine_iff.mp hs) fun h => hne (String.toList_eq_nil_iff.mp h)]
    simp
  rw [indent, hlines, List.map_singleton, indentLine_of_ne hne, String.intercalate_singleton]

/-- A text that is moved starts with a blank or an empty line. -/
theorem head?_indent {width : Nat} (hwidth : 0 < width) (s : String) :
    ∀ c ∈ (indent width s).toList.head?, c = ' ' ∨ c = '\n' := by
  unfold indent
  cases Text.lines s with
  | nil => simp
  | cons line lines =>
    obtain ⟨rest, hrest, hfeed⟩ :=
      intercalate_cons (indentLine width line) (lines.map (indentLine width))
    rw [List.map_cons, hrest]
    by_cases hline : line = ""
    · subst hline
      intro c hc
      exact .inr (hfeed c hc)
    · obtain ⟨n, rfl⟩ := Nat.exists_eq_add_one.mpr hwidth
      rw [indentLine_of_ne hline]
      intro c hc
      left
      simpa [blanks, List.replicate_succ] using hc.symm

/-! ## Moved lines -/

/-- The lines of an entry that are not empty are those of a text, each with `width` blanks in
front. -/
def MovedBy (width : ℕ) (text entry : String) : Prop :=
  (entry.toList.splitOn '\n').filter (· ≠ []) =
    ((lines text).filter (· ≠ "")).map fun line => List.replicate width ' ' ++ line.toList

theorem toList_indentLine {width : ℕ} {line : String} (h : line ≠ "") :
    (indentLine width line).toList = List.replicate width ' ' ++ line.toList := by
  rw [indentLine_of_ne h, String.toList_append, blanks, String.toList_ofList]

theorem toList_indentLine_ne_nil_iff {width : ℕ} {line : String} :
    (indentLine width line).toList ≠ [] ↔ line ≠ "" := by
  constructor
  · rintro h rfl
    exact h rfl
  · intro h hnil
    rw [toList_indentLine h] at hnil
    exact h (String.toList_eq_nil_iff.mp (List.append_eq_nil_iff.mp hnil).2)

theorem line_feed_not_mem_indentLine {width : ℕ} {s line : String} (h : line ∈ lines s) :
    '\n' ∉ (indentLine width line).toList := by
  obtain ⟨chars, hchars, rfl⟩ := List.mem_map.mp h
  have hline : '\n' ∉ (String.ofList chars).toList := by
    rw [String.toList_ofList]
    intro hfeed
    exact absurd (isLineEnd_of_mem_splitLines s.toList chars hchars _ hfeed) (by decide)
  by_cases hempty : String.ofList chars = ""
  · rw [hempty]
    exact List.not_mem_nil
  · rw [toList_indentLine hempty]
    refine List.not_mem_append (fun hblank => ?_) hline
    exact absurd (List.eq_of_mem_replicate hblank) (by decide)

theorem movedBy_indent (width : ℕ) (s : String) : MovedBy width s (indent width s) := by
  unfold MovedBy indent
  rw [String.toList_intercalate]
  by_cases hnone : lines s = []
  · rw [hnone]
    rfl
  · have hfeeds : ∀ line ∈ ((lines s).map (indentLine width)).map String.toList, '\n' ∉ line :=
      List.forall_mem_map.mpr (List.forall_mem_map.mpr fun line => line_feed_not_mem_indentLine)
    have hne : ((lines s).map (indentLine width)).map String.toList ≠ [] := by simpa using hnone
    have hfeed : "\n".toList = ['\n'] := rfl
    rw [hfeed, List.splitOn_intercalate '\n' hfeeds hne, List.map_map, List.filter_map]
    have hkept : (lines s).filter (fun line => (indentLine width line).toList ≠ []) =
        (lines s).filter (· ≠ "") :=
      List.filter_congr fun line _ => decide_eq_decide.mpr toList_indentLine_ne_nil_iff
    refine (congrArg _ hkept).trans (List.map_congr_left fun line hline => toList_indentLine ?_)
    exact of_decide_eq_true (List.mem_filter.mp hline).2

end SchemaScript.Text
