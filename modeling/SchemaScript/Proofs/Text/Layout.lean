import SchemaScript.Proofs.Text.Lines

/-!
# Texts on several lines

What becomes of a text on several lines when it is moved to the right.

`shift` sets an indentation after every line feed of a text.  It is determined by what it does to the
parts of a text (`shift_append`), and a part without line feeds stays as it is.

A text has full lines (`HasFullLines`) if none of its lines is empty and only line feeds stand
between them.  Moving such a text to the right is setting the blanks in front of it and after every
line feed, and nothing else (`HasFullLines.indent`).  Texts with full lines make such a text when one
follows the other, on the same line or on the next.
-/

namespace SchemaScript.Text

/-! ## Shifting -/

/-- A character, with an indentation after it if it is a line feed. -/
def shiftChar (indent : String) (c : Char) : List Char :=
  if c = '\n' then '\n' :: indent.toList else [c]

/-- A text with an indentation after every line feed. -/
def shift (indent s : String) : String :=
  String.ofList (s.toList.flatMap (shiftChar indent))

theorem toList_shift (indent s : String) :
    (shift indent s).toList = s.toList.flatMap (shiftChar indent) :=
  String.toList_ofList

theorem shift_append (indent s t : String) :
    shift indent (s ++ t) = shift indent s ++ shift indent t := by
  rw [shift, String.toList_append, List.flatMap_append, String.ofList_append]
  rfl

theorem flatMap_shiftChar_of_not_mem {chars : List Char} (h : '\n' ∉ chars) (indent : String) :
    chars.flatMap (shiftChar indent) = chars := by
  have hsingle : ∀ c ∈ chars, shiftChar indent c = [c] :=
    fun c hc => if_neg (ne_of_mem_of_not_mem hc h)
  rw [List.flatMap_congr hsingle]
  exact List.flatMap_singleton' chars

/-- A text without line feeds stays as it is. -/
theorem shift_of_isLine {s : String} (h : isLine s = true) (indent : String) :
    shift indent s = s := by
  rw [shift, flatMap_shiftChar_of_not_mem, String.ofList_toList]
  exact fun hfeed => absurd (isLine_iff.mp h _ hfeed) (by decide)

theorem shift_feed (indent : String) : shift indent "\n" = "\n" ++ indent := by
  refine String.toList_inj.mp ?_
  rw [toList_shift, String.toList_append]
  exact List.flatMap_singleton _ _

/-- Joined texts are shifted part by part. -/
theorem shift_intercalate (indent sep : String) (parts : List String) :
    shift indent (sep.intercalate parts) =
      (shift indent sep).intercalate (parts.map (shift indent)) := by
  match parts with
  | [] => rfl
  | [part] => rw [String.intercalate_singleton, List.map_singleton, String.intercalate_singleton]
  | part :: next :: rest =>
    rw [String.intercalate_cons_cons, shift_append, shift_append,
      shift_intercalate indent sep (next :: rest), List.map_cons, List.map_cons, List.map_cons,
      String.intercalate_cons_cons]

/-- Parts with the same text in front of each. -/
theorem intercalate_map_append (sep front : String) {parts : List String} (h : parts ≠ []) :
    sep.intercalate (parts.map (front ++ ·)) = front ++ (sep ++ front).intercalate parts := by
  match parts with
  | [part] =>
    rw [List.map_singleton, String.intercalate_singleton, String.intercalate_singleton]
  | part :: next :: rest =>
    have ih := intercalate_map_append sep front (List.cons_ne_nil next rest)
    rw [List.map_cons] at ih
    rw [List.map_cons, List.map_cons, String.intercalate_cons_cons, ih,
      String.intercalate_cons_cons]
    simp only [String.append_assoc]

/-! ## Full lines -/

/-- A text is one line and is not empty. -/
structure IsFullLine (s : String) : Prop where
  ne : s ≠ ""
  single : isLine s = true

instance : DecidablePred IsFullLine := fun s =>
  decidable_of_iff (s ≠ "" ∧ isLine s = true) ⟨fun h => ⟨h.1, h.2⟩, fun h => ⟨h.ne, h.single⟩⟩

namespace IsFullLine

variable {s t : String}

theorem append_line (hs : IsFullLine s) (ht : isLine t = true) : IsFullLine (s ++ t) := by
  refine ⟨fun h => hs.ne (String.append_eq_empty_iff.mp h).1, ?_⟩
  rw [isLine_append, hs.single, ht]
  rfl

theorem line_append (hs : isLine s = true) (ht : IsFullLine t) : IsFullLine (s ++ t) := by
  refine ⟨fun h => ht.ne (String.append_eq_empty_iff.mp h).2, ?_⟩
  rw [isLine_append, hs, ht.single]
  rfl

end IsFullLine

/-- A text has at least one line, none of its lines is empty, and only line feeds stand between
them. -/
def HasFullLines (s : String) : Prop :=
  ∃ lines : List String, lines ≠ [] ∧ (∀ line ∈ lines, IsFullLine line) ∧
    s = "\n".intercalate lines

theorem IsFullLine.hasFullLines {s : String} (h : IsFullLine s) : HasFullLines s :=
  ⟨[s], List.cons_ne_nil _ _, List.forall_mem_singleton.mpr h, String.intercalate_singleton.symm⟩

/-- Where joined texts follow each other, the last of the one and the first of the other make one
part. -/
theorem intercalate_append_intercalate (sep last first : String) (before after : List String) :
    sep.intercalate (before ++ [last]) ++ sep.intercalate (first :: after) =
      sep.intercalate (before ++ (last ++ first) :: after) := by
  cases before with
  | nil => rw [List.nil_append, List.nil_append, String.intercalate_singleton,
      String.intercalate_cons_append]
  | cons part parts =>
    rw [String.intercalate_append_of_ne_nil (List.cons_ne_nil _ _) (List.cons_ne_nil _ _),
      String.intercalate_append_of_ne_nil (List.cons_ne_nil _ _) (List.cons_ne_nil _ _),
      String.intercalate_singleton, String.intercalate_cons_append, String.append_assoc]

namespace HasFullLines

variable {s t : String}

/-- One text follows the other on the same line. -/
theorem append (hs : HasFullLines s) (ht : HasFullLines t) : HasFullLines (s ++ t) := by
  obtain ⟨lines, hne, hlines, rfl⟩ := hs
  obtain ⟨others, hne', hothers, rfl⟩ := ht
  obtain ⟨before, last, rfl⟩ := lines.eq_nil_or_concat'.resolve_left hne
  obtain ⟨first, after, rfl⟩ := List.exists_cons_of_ne_nil hne'
  obtain ⟨hbefore, hlast⟩ := List.forall_mem_append.mp hlines
  obtain ⟨hfirst, hafter⟩ := List.forall_mem_cons.mp hothers
  have hjoint : IsFullLine (last ++ first) :=
    (List.forall_mem_singleton.mp hlast).append_line hfirst.single
  exact ⟨before ++ (last ++ first) :: after, by simp,
    List.forall_mem_append.mpr ⟨hbefore, List.forall_mem_cons.mpr ⟨hjoint, hafter⟩⟩,
    intercalate_append_intercalate _ _ _ _ _⟩

/-- One text follows the other on the next line. -/
theorem feed (hs : HasFullLines s) (ht : HasFullLines t) : HasFullLines (s ++ "\n" ++ t) := by
  obtain ⟨lines, hne, hlines, rfl⟩ := hs
  obtain ⟨others, hne', hothers, rfl⟩ := ht
  exact ⟨lines ++ others, by simp [hne], List.forall_mem_append.mpr ⟨hlines, hothers⟩,
    (String.intercalate_append_of_ne_nil hne hne').symm⟩

theorem append_line (hs : HasFullLines s) (ht : isLine t = true) : HasFullLines (s ++ t) := by
  rcases eq_or_ne t "" with rfl | hne
  · rwa [String.append_empty]
  · exact hs.append (IsFullLine.hasFullLines ⟨hne, ht⟩)

theorem line_append (hs : isLine s = true) (ht : HasFullLines t) : HasFullLines (s ++ t) := by
  rcases eq_or_ne s "" with rfl | hne
  · rwa [String.empty_append]
  · exact (IsFullLine.hasFullLines ⟨hne, hs⟩).append ht

/-- What joins two texts with full lines joins any number of them. -/
theorem intercalate {sep : String}
    (hsep : ∀ {s t : String}, HasFullLines s → HasFullLines t → HasFullLines (s ++ sep ++ t))
    {parts : List String} (hne : parts ≠ []) (h : ∀ part ∈ parts, HasFullLines part) :
    HasFullLines (sep.intercalate parts) := by
  match parts with
  | [part] =>
    rw [String.intercalate_singleton]
    exact h part List.mem_cons_self
  | part :: next :: rest =>
    obtain ⟨hpart, hrest⟩ := List.forall_mem_cons.mp h
    rw [String.intercalate_cons_cons]
    exact hsep hpart (intercalate hsep (List.cons_ne_nil _ _) hrest)

/-- The lines of such a text. -/
theorem lines_intercalate {lines : List String} (h : ∀ line ∈ lines, IsFullLine line) :
    Text.lines ("\n".intercalate lines) = lines := by
  have hchars : splitLines ("\n".intercalate lines).toList = lines.map String.toList := by
    rw [String.toList_intercalate]
    refine splitLines_intercalate (List.forall_mem_map.mpr fun line hline =>
      isLine_iff.mp (h line hline).single) fun hlast => ?_
    obtain ⟨line, hline, hempty⟩ := List.mem_map.mp (List.mem_of_getLast? hlast)
    exact (h line hline).ne (String.toList_eq_nil_iff.mp hempty)
  rw [Text.lines, hchars, List.map_map]
  exact List.map_id'' (fun _ => String.ofList_toList) lines

/-- A text with full lines is moved to the right as a whole. -/
theorem indent (h : HasFullLines s) (width : Nat) :
    Text.indent width s = blanks width ++ shift (blanks width) s := by
  obtain ⟨lines, hne, hlines, rfl⟩ := h
  have hmoved : lines.map (indentLine width) = lines.map (blanks width ++ ·) :=
    List.map_congr_left fun line hline => indentLine_of_ne (hlines line hline).ne
  have hkept : lines.map (shift (blanks width)) = lines :=
    (List.map_congr_left fun line hline => shift_of_isLine (hlines line hline).single _).trans
      (List.map_id' lines)
  rw [Text.indent, lines_intercalate hlines, hmoved, shift_intercalate, hkept, shift_feed,
    intercalate_map_append _ _ hne]

end HasFullLines

end SchemaScript.Text
