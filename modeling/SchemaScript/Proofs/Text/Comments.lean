import Mathlib.Data.List.Chain
import Mathlib.Data.List.DropRight
import SchemaScript.Proofs.Text.Joined
import SchemaScript.Proofs.Text.Lines
import SchemaScript.Text.BlockComment

/-!
# Comments

What is left of a text that is set in a comment.

A comment goes on as long as no star in it is followed by a slash (`StaysOpen`).  That is a property
of neighbours.  So a text keeps it when it is cut at line ends, when its lines are moved to the
right, and when texts are joined at a place where no star meets a slash.

`commentText` makes a text that stays open of any text, and changes the ends of comments in it only
(`Disarms`).

A comment is cleaned before it is written, and the line feeds at its end are dropped.  Its lines are
then those of the comment as it stood, each without its first blank, up to the last one that is not
empty (`lines_cleanComment`).
-/

namespace SchemaScript.Text

/-! ## Ends of comments -/

/-- No star is followed by a slash. -/
def StaysOpen (chars : List Char) : Prop :=
  chars.IsChain fun a b => ¬ (a = '*' ∧ b = '/')

instance : DecidablePred StaysOpen := fun chars =>
  inferInstanceAs (Decidable (chars.IsChain fun a b => ¬ (a = '*' ∧ b = '/')))

theorem staysOpen_iff {chars : List Char} :
    StaysOpen chars ↔ ∀ before after, chars ≠ before ++ '*' :: '/' :: after := by
  rw [StaysOpen, List.isChain_iff_forall_rel_of_append_cons_cons]
  constructor
  · intro h before after hchars
    exact h hchars ⟨rfl, rfl⟩
  · rintro h a b before after hchars ⟨rfl, rfl⟩
    exact h before after hchars

namespace StaysOpen

/-- Texts are joined at a place where no star meets a slash. -/
theorem append {s t : List Char} (hs : StaysOpen s) (ht : StaysOpen t)
    (hjoint : s.getLast? ≠ some '*' ∨ t.head? ≠ some '/') : StaysOpen (s ++ t) := by
  refine List.IsChain.append hs ht fun a ha b hb => ?_
  rintro ⟨rfl, rfl⟩
  exact hjoint.elim (fun h => h ha) fun h => h hb

theorem cons {c : Char} {s : List Char} (hs : StaysOpen s) (hc : c ≠ '*' ∨ s.head? ≠ some '/') :
    StaysOpen (c :: s) :=
  append (s := [c]) (.singleton c) hs (hc.imp_left fun h heq => h (Option.some.inj heq))

theorem of_not_mem {s : List Char} (h : '/' ∉ s) : StaysOpen s :=
  staysOpen_iff.mpr fun _ _ hs => h (by simp [hs])

/-- Lines that stay open are joined by line feeds to a text that does. -/
theorem intercalate {lines : List (List Char)} (h : ∀ line ∈ lines, StaysOpen line) :
    StaysOpen (['\n'].intercalate lines) := by
  match lines with
  | [] => exact List.IsChain.nil
  | [line] =>
    rw [List.intercalate_singleton]
    exact h line List.mem_cons_self
  | line :: next :: rest =>
    obtain ⟨hline, hrest⟩ := List.forall_mem_cons.mp h
    rw [List.intercalate_cons_cons, List.append_assoc]
    exact hline.append ((intercalate hrest).cons (.inl (by decide))) (.inr (by simp))

end StaysOpen

/-- The only end of a comment is the one behind a text that stays open. -/
theorem eq_empty_of_staysOpen {s before after : String} (hs : StaysOpen s.toList)
    (h : s ++ "*/" = before ++ "*/" ++ after) : after = "" := by
  have hchars : (s.toList ++ ['*']) ++ ['/'] = before.toList ++ '*' :: '/' :: after.toList := by
    have hlist := congrArg String.toList h
    rw [String.toList_append, String.toList_append, String.toList_append, List.append_assoc]
      at hlist
    rw [List.append_assoc]
    exact hlist
  have hopen : StaysOpen (s.toList ++ ['*']) := hs.append (.singleton _) (.inr (by decide))
  rcases after.toList.eq_nil_or_concat' with hnil | ⟨rest, c, hrest⟩
  · exact String.toList_eq_nil_iff.mp hnil
  · have hconcat : (s.toList ++ ['*']) ++ ['/'] =
        (before.toList ++ '*' :: '/' :: rest) ++ [c] := by
      rw [hchars, hrest, List.append_assoc]
      rfl
    exact absurd (List.append_inj_left' hconcat rfl) (staysOpen_iff.mp hopen before.toList rest)

/-- Blanks do not close a comment, and neither does the text behind them. -/
theorem staysOpen_blanks_append {width : Nat} {s : String} (h : StaysOpen s.toList) :
    StaysOpen (blanks width ++ s).toList := by
  rw [String.toList_append, blanks, String.toList_ofList]
  refine StaysOpen.append (.of_not_mem fun hslash => ?_) h (.inl ?_)
  · exact absurd (List.eq_of_mem_replicate hslash) (by decide)
  · rw [List.getLast?_replicate]
    split <;> simp

/-- Moving its lines to the right does not close a comment. -/
theorem staysOpen_indent {width : Nat} {s : String} (h : StaysOpen s.toList) :
    StaysOpen (indent width s).toList := by
  rw [indent, String.toList_intercalate]
  refine StaysOpen.intercalate (List.forall_mem_map.mpr (List.forall_mem_map.mpr
    (List.forall_mem_map.mpr fun line hline => ?_)))
  have hopen : StaysOpen (String.ofList line).toList := by
    rw [String.toList_ofList]
    exact List.IsChain.infix h ((infix_of_mem_splitLines s.toList).2 line hline)
  unfold indentLine
  split
  · exact hopen
  · exact staysOpen_blanks_append hopen

/-! ## Breaking ends of comments -/

theorem head?_breakCommentEnds (chars : List Char) :
    (breakCommentEnds chars).head? = chars.head? := by
  induction chars using breakCommentEnds.induct with
  | case1 rest ih => rfl
  | case2 c rest hpair ih => rw [breakCommentEnds.eq_2 c rest hpair]; rfl
  | case3 => rfl

/-- Only where a star and a slash stand next to each other a star is followed by a slash. -/
theorem ne_star_or_head?_ne {c : Char} {rest : List Char}
    (hpair : ∀ after, c = '*' → rest = '/' :: after → False) : c ≠ '*' ∨ rest.head? ≠ some '/' := by
  by_contra hboth
  obtain ⟨hc, hrest⟩ := not_or.mp hboth
  obtain ⟨after, hafter⟩ := List.head?_eq_some_iff.mp (not_not.mp hrest)
  exact hpair after (not_not.mp hc) hafter

theorem staysOpen_breakCommentEnds (chars : List Char) : StaysOpen (breakCommentEnds chars) := by
  induction chars using breakCommentEnds.induct with
  | case1 rest ih =>
    exact ((ih.cons (.inl (by decide))).cons (.inl (by decide))).cons (.inr (by simp))
  | case2 c rest hpair ih =>
    rw [breakCommentEnds.eq_2 c rest hpair]
    exact ih.cons ((head?_breakCommentEnds rest).symm ▸ ne_star_or_head?_ne hpair)
  | case3 => exact .nil

/-- A text is another one with a backslash in each end of a comment, and nothing else is
changed. -/
def Disarms (text s : String) : Prop :=
  ∃ parts : List String, (∀ part ∈ parts, StaysOpen part.toList) ∧ s = "*/".intercalate parts ∧
    text = "*\\/".intercalate parts

/-- The stretches between the ends of comments, and what they are joined to. -/
theorem exists_parts (chars : List Char) : ∃ part parts, (∀ p ∈ part :: parts, StaysOpen p) ∧
    chars = ['*', '/'].intercalate (part :: parts) ∧
      breakCommentEnds chars = ['*', '\\', '/'].intercalate (part :: parts) := by
  induction chars using breakCommentEnds.induct with
  | case1 rest ih =>
    obtain ⟨part, parts, hopen, hrest, hbroken⟩ := ih
    refine ⟨[], part :: parts, List.forall_mem_cons.mpr ⟨.nil, hopen⟩, ?_, ?_⟩
    · rw [List.intercalate_cons_cons, ← hrest]
      rfl
    · rw [List.intercalate_cons_cons, ← hbroken]
      rfl
  | case2 c rest hpair ih =>
    obtain ⟨part, parts, hopen, hrest, hbroken⟩ := ih
    obtain ⟨hpart, hparts⟩ := List.forall_mem_cons.mp hopen
    refine ⟨c :: part, parts, List.forall_mem_cons.mpr ⟨hpart.cons ?_, hparts⟩, ?_, ?_⟩
    · refine (ne_star_or_head?_ne hpair).imp_right fun hhead hslash => hhead ?_
      obtain ⟨after, rfl⟩ := List.head?_eq_some_iff.mp hslash
      rw [hrest, List.intercalate_cons_cons_left, List.head?_cons]
    · rw [List.intercalate_cons_cons_left, ← hrest]
    · rw [breakCommentEnds.eq_2 c rest hpair, List.intercalate_cons_cons_left, ← hbroken]
  | case3 => exact ⟨[], [], List.forall_mem_singleton.mpr .nil, rfl, rfl⟩

theorem staysOpen_commentText (s : String) : StaysOpen (commentText s).toList := by
  rw [commentText, String.toList_ofList]
  exact staysOpen_breakCommentEnds s.toList

theorem disarms_commentText (s : String) : Disarms (commentText s) s := by
  obtain ⟨part, parts, hopen, hs, hbroken⟩ := exists_parts s.toList
  refine ⟨(part :: parts).map String.ofList, List.forall_mem_map.mpr fun p hp => ?_, ?_, ?_⟩
  · rw [String.toList_ofList]
    exact hopen p hp
  · rw [← ofList_intercalate, ← String.ofList_toList (s := s), hs]
    rfl
  · rw [← ofList_intercalate, commentText, hbroken]
    rfl

/-- Breaking the ends of comments adds no line end. -/
theorem isLine_commentText {s : String} (h : isLine s = true) : isLine (commentText s) = true := by
  rw [isLine_iff, commentText, String.toList_ofList]
  rw [isLine_iff] at h
  generalize s.toList = chars at h
  induction chars using breakCommentEnds.induct with
  | case1 rest ih =>
    simp only [List.forall_mem_cons] at h
    simp only [breakCommentEnds, List.forall_mem_cons]
    exact ⟨h.1, by decide, h.2.1, ih h.2.2⟩
  | case2 c rest hpair ih =>
    obtain ⟨hc, hrest⟩ := List.forall_mem_cons.mp h
    rw [breakCommentEnds.eq_2 c rest hpair]
    exact List.forall_mem_cons.mpr ⟨hc, ih hrest⟩
  | case3 => nofun

/-! ## Lines of comments -/

/-- The lines of a comment without the blank that each one starts with, up to the last line that
is not empty. -/
def commentLines (raw : String) : List String :=
  (((splitLines raw.toList).map cleanLine).rdropWhile List.isEmpty).map String.ofList

theorem cleanLine_suffix (line : List Char) : cleanLine line <:+ line := by
  unfold cleanLine
  split
  · exact List.suffix_cons _ _
  · exact List.suffix_refl _

/-- Dropping line feeds at the end of joined lines is dropping empty lines. -/
theorem rdropWhile_intercalate {lines : List (List Char)} (h : ∀ line ∈ lines, '\n' ∉ line) :
    (['\n'].intercalate lines).rdropWhile (· == '\n') =
      ['\n'].intercalate (lines.rdropWhile List.isEmpty) := by
  induction lines using List.reverseRecOn with
  | nil => rfl
  | append_singleton lines line ih =>
    obtain ⟨hlines, hline⟩ := List.forall_mem_append.mp h
    rcases line.eq_nil_or_concat' with rfl | ⟨before, c, rfl⟩
    · rw [List.rdropWhile_concat_pos _ _ _ rfl, ← ih hlines]
      rcases eq_or_ne lines [] with rfl | hne
      · rfl
      · rw [intercalate_concat _ _ hne]
        exact List.rdropWhile_concat_pos _ _ _ rfl
    · have hc : ¬ (c == '\n') = true := by
        intro heq
        exact hline _ List.mem_cons_self (by simp [beq_iff_eq.mp heq])
      have hends : ∃ start, ['\n'].intercalate (lines ++ [before ++ [c]]) = start ++ [c] := by
        rcases eq_or_ne lines [] with rfl | hne
        · exact ⟨before, by rw [List.nil_append, List.intercalate_singleton]⟩
        · exact ⟨['\n'].intercalate lines ++ (['\n'] ++ before), by
            rw [intercalate_concat _ _ hne, List.append_assoc, List.append_assoc]⟩
      obtain ⟨start, hstart⟩ := hends
      rw [List.rdropWhile_concat_neg _ _ _ (by simp), hstart]
      exact List.rdropWhile_concat_neg _ _ _ hc

/-- The lines of a comment that is cleaned, once the line feeds at its end are dropped. -/
theorem lines_cleanComment (raw : String) :
    lines (dropFinalLineFeeds (cleanComment raw)) = commentLines raw := by
  have hclean : (cleanComment raw).toList =
      ['\n'].intercalate ((splitLines raw.toList).map cleanLine) := by
    rw [cleanComment, String.toList_intercalate, List.map_map]
    congr 1
    exact List.map_congr_left fun line _ => String.toList_ofList
  have hends : ∀ line ∈ (splitLines raw.toList).map cleanLine, ∀ c ∈ line, isLineEnd c = false := by
    refine List.forall_mem_map.mpr fun line hline c hc => ?_
    exact isLineEnd_of_mem_splitLines raw.toList line hline c ((cleanLine_suffix line).subset hc)
  have hfeed : ∀ line ∈ (splitLines raw.toList).map cleanLine, '\n' ∉ line :=
    fun line hline hmem => absurd (hends line hline _ hmem) (by decide)
  have hdrop : (dropFinalLineFeeds (cleanComment raw)).toList =
      ['\n'].intercalate (((splitLines raw.toList).map cleanLine).rdropWhile List.isEmpty) := by
    rw [dropFinalLineFeeds, String.toList_ofList, hclean]
    exact rdropWhile_intercalate hfeed
  rw [lines, hdrop, splitLines_intercalate, commentLines]
  · exact fun line hline => hends line ((List.rdropWhile_prefix _ _).subset hline)
  · intro hlast
    have hne : ((splitLines raw.toList).map cleanLine).rdropWhile List.isEmpty ≠ [] := by
      intro heq
      rw [heq] at hlast
      cases hlast
    rw [List.getLast?_eq_some_getLast hne] at hlast
    exact List.rdropWhile_last_not _ _ hne (by rw [Option.some.inj hlast]; rfl)

/-- A line of a comment is one line. -/
theorem isLine_of_mem_commentLines {raw line : String} (h : line ∈ commentLines raw) :
    isLine line = true := by
  obtain ⟨chars, hchars, rfl⟩ := List.mem_map.mp h
  obtain ⟨whole, hwhole, rfl⟩ := List.mem_map.mp ((List.rdropWhile_prefix _ _).subset hchars)
  rw [isLine_iff, String.toList_ofList]
  exact fun c hc => isLineEnd_of_mem_splitLines raw.toList whole hwhole c
    ((cleanLine_suffix whole).subset hc)

end SchemaScript.Text
