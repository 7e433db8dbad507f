import SchemaScript.Proofs.Draft.Steps
import SchemaScript.Proofs.Expr.Spelling
import SchemaScript.Proofs.ImportPath.Specifiers
import SchemaScript.Proofs.Schema.ExportedNames
import SchemaScript.Proofs.Text.Lines
import SchemaScript.Proofs.Text.StringLiteral

/-!
# Import declarations of scripts

A reader for import declarations of scripts, and what it reads in the import statements of a draft.

An import declaration names a list of exported names in braces, each with its local name behind the
word `as` if it has another one, and the module in a string literal.  The reader knows nothing of
how statements are written here.  Which characters beyond ASCII make up identifiers is left to an
alphabet (`Script.Alphabet`).

The names in a statement always come back (`Script.Alphabet.importClause?`): a local name is the
exported name with dollar signs after it, so it is an identifier too.  The module comes back if and only if each character of the specifier
stands for itself in a string literal, since the specifier is written between the quotation marks as
it is.  A quotation mark ends the literal too early, and a backslash starts an escape
(`Step.importStatements_afterAll`).
-/

namespace SchemaScript

open Text

namespace Script

/-! ## Identifiers -/

/-- The characters that identifiers are made of.  For those of ASCII there is no choice. -/
structure Alphabet where
  /-- Whether an identifier can start with a character. -/
  starts : Char → Bool
  /-- Whether an identifier can go on with a character. -/
  continues : Char → Bool
  starts_ascii : ∀ c, c.toNat < 0x80 → starts c = isIdentifierStart c
  continues_ascii : ∀ c, c.toNat < 0x80 → continues c = isIdentifierRest c
  continues_of_starts : ∀ c, starts c = true → continues c = true

namespace Alphabet

/-- The alphabet with no other characters than those of ASCII. -/
def ascii : Alphabet where
  starts := isIdentifierStart
  continues := isIdentifierRest
  starts_ascii _ _ := rfl
  continues_ascii _ _ := rfl
  continues_of_starts c hc := by rw [isIdentifierRest, hc, Bool.true_or]

variable (A : Alphabet)

/-- Whether a text is the name of an identifier, maybe a reserved word. -/
def isName : List Char → Bool
  | [] => false
  | c :: rest => A.starts c && rest.all A.continues

/-- Whether a text can be the name of a binding. -/
def isIdentifier (name : String) : Bool :=
  A.isName name.toList && decide (name ∉ reservedWords)

end Alphabet

/-! ## The reader -/

/-- The words between blanks. -/
def words (chars : List Char) : List String :=
  ((chars.splitOnP isBlank).filter fun piece => !piece.isEmpty).map String.ofList

/-- What follows a mark. -/
def mark? (mark : Char) (chars : List Char) : Option (List Char) :=
  match skipBlanks chars with
  | [] => none
  | c :: rest => if c = mark then some rest else none

namespace Alphabet

variable (A : Alphabet)

/-- What follows a word. -/
def keyword? (word : String) (chars : List Char) : Option (List Char) :=
  let chars := skipBlanks chars
  if chars.takeWhile A.continues = word.toList then some (chars.dropWhile A.continues) else none

/-- The exported and the local name that the words of a specifier tell. -/
def specifier? : List String → Option (String × String)
  | [name] => if A.isIdentifier name then some (name, name) else none
  | [name, word, localName] =>
    if A.isName name.toList ∧ word = "as" ∧ A.isIdentifier localName then some (name, localName)
    else none
  | _ => none

/-- The names in the specifiers between the braces.  A comma may follow the last one. -/
def specifiers? (chars : List Char) : Option (List (String × String)) :=
  let specifiers := (chars.splitOn ',').map words
  let specifiers := if specifiers.getLast? = some [] then specifiers.dropLast else specifiers
  specifiers.mapM A.specifier?

/-- The names that an import declaration imports, and what follows the quotation mark in front of its
module. -/
def importClause? (text : String) : Option (List (String × String) × List Char) := do
  let rest ← A.keyword? "import" text.toList
  let rest ← mark? '\x7b' rest
  let names ← A.specifiers? (rest.takeWhile (· != '\x7d'))
  let rest ← mark? '\x7d' (rest.dropWhile (· != '\x7d'))
  let rest ← A.keyword? "from" rest
  let rest ← mark? '\x22' rest
  return (names, rest)

/-- The names that an import declaration imports, and the units of its module. -/
def importDeclaration? (text : String) : Option (List (String × String) × List Nat) := do
  let (names, rest) ← A.importClause? text
  let (module, rest) ← readLiteral .plain rest
  let rest ← mark? ';' rest
  if skipBlanks rest = [] then some (names, module) else none

end Alphabet

/-! ## Reading names -/

section

variable {A : Alphabet}

theorem Alphabet.continues_of_isName {chars : List Char} (h : A.isName chars = true) :
    ∀ c ∈ chars, A.continues c = true := by
  cases chars with
  | nil => cases h
  | cons c rest =>
    rw [isName, Bool.and_eq_true, List.all_eq_true] at h
    exact List.forall_mem_cons.mpr ⟨A.continues_of_starts c h.1, h.2⟩

/-- A mark of ASCII is no part of a name. -/
theorem Alphabet.not_mem_of_isName {chars : List Char} (h : A.isName chars = true) {mark : Char}
    (hascii : mark.toNat < 0x80) (hmark : isIdentifierRest mark = false) : mark ∉ chars := by
  intro hmem
  have hcontinues := continues_of_isName h mark hmem
  rw [A.continues_ascii mark hascii, hmark] at hcontinues
  cases hcontinues

theorem Alphabet.isName_of_isIdentifier {name : String} (h : A.isIdentifier name = true) :
    A.isName name.toList = true := by
  rw [isIdentifier, Bool.and_eq_true] at h
  exact h.1

/-- An identifier with dollar signs after it is an identifier. -/
theorem Alphabet.isIdentifier_dollared {name : String} (h : A.isIdentifier name = true)
    (count : Nat) : A.isIdentifier (Draft.dollared name count) = true := by
  cases count with
  | zero => rwa [Draft.dollared_zero]
  | succ count =>
    have hname := isName_of_isIdentifier h
    have hdollar : '$' ∈ (Draft.dollared name (count + 1)).toList := by
      rw [Draft.toList_dollared]
      exact List.mem_append_right _ List.mem_cons_self
    have hcontinues : A.continues '$' = true := A.continues_ascii '$' (by decide)
    -- No reserved word has a dollar sign.
    have hreserved : Draft.dollared name (count + 1) ∉ reservedWords :=
      fun hmem => not_mem_reservedWords (.inr rfl) hmem hdollar
    rw [isIdentifier, decide_eq_true hreserved, Draft.toList_dollared, Bool.and_true]
    cases hchars : name.toList with
    | nil => rw [hchars] at hname; cases hname
    | cons c rest =>
      rw [hchars, isName, Bool.and_eq_true] at hname
      rw [List.cons_append, isName, hname.1, List.all_append, hname.2]
      simp [hcontinues]

/-! ## Reading specifiers -/

theorem words_append_blank (as bs : List Char) : words (as ++ ' ' :: bs) = words as ++ words bs := by
  rw [words, List.splitOnP_append_cons _ _ (by decide), List.filter_append, List.map_append]
  rfl

theorem words_cons_blank (chars : List Char) : words (' ' :: chars) = words chars :=
  words_append_blank [] chars

theorem words_concat_blank (chars : List Char) : words (chars ++ [' ']) = words chars := by
  rw [words_append_blank, show words [] = [] from rfl, List.append_nil]

/-- A name is one word. -/
theorem Alphabet.words_of_isName {name : String} (h : A.isName name.toList = true) :
    words name.toList = [name] := by
  have hne : name.toList ≠ [] := by
    intro hnil
    rw [hnil] at h
    cases h
  have hblank : ∀ c ∈ name.toList, isBlank c = false := by
    intro c hc
    rw [Bool.eq_false_iff]
    intro hblank
    simp only [isBlank, Bool.or_eq_true, beq_iff_eq] at hblank
    rcases hblank with ((rfl | rfl) | rfl) | rfl <;>
      exact A.not_mem_of_isName h (by decide) (by decide) hc
  rw [words, List.splitOnP_eq_singleton hblank, List.filter_cons_of_pos (by simpa using hne)]
  simp

theorem Alphabet.words_specifier {name localName : String} (hname : A.isName name.toList = true)
    (hlocal : A.isName localName.toList = true) :
    words (Draft.specifier name localName).toList =
      if name = localName then [name] else [name, "as", localName] := by
  unfold Draft.specifier
  split
  · exact A.words_of_isName hname
  · have hchars : (name ++ " as " ++ localName).toList =
        name.toList ++ ' ' :: ("as".toList ++ ' ' :: localName.toList) := by
      rw [String.toList_append, String.toList_append, List.append_assoc]
      rfl
    have has : words "as".toList = ["as"] := by decide
    rw [hchars, words_append_blank, words_append_blank, A.words_of_isName hname,
      A.words_of_isName hlocal, has]
    rfl

/-- The names in a specifier are read back. -/
theorem Alphabet.specifier?_words {name localName : String} (hname : A.isIdentifier name = true)
    (hlocal : A.isIdentifier localName = true) :
    A.specifier? (words (Draft.specifier name localName).toList) = some (name, localName) := by
  rw [A.words_specifier (isName_of_isIdentifier hname) (isName_of_isIdentifier hlocal)]
  split
  · next heq => rw [specifier?, if_pos hname, heq]
  · rw [specifier?, if_pos ⟨isName_of_isIdentifier hname, rfl, hlocal⟩]

/-- A mark of ASCII that is neither a blank nor part of a name is no part of a specifier. -/
theorem Alphabet.not_mem_specifier {name localName : String} (hname : A.isName name.toList = true)
    (hlocal : A.isName localName.toList = true) {mark : Char} (hascii : mark.toNat < 0x80)
    (hmark : isIdentifierRest mark = false) (hblank : mark ≠ ' ') :
    mark ∉ (Draft.specifier name localName).toList := by
  have hfirst := A.not_mem_of_isName hname hascii hmark
  have hsecond := A.not_mem_of_isName hlocal hascii hmark
  have has : mark ∉ " as ".toList := by
    intro hmem
    have hchars : mark = ' ' ∨ mark = 'a' ∨ mark = 's' ∨ mark = ' ' := by simpa using hmem
    rcases hchars with rfl | rfl | rfl | rfl
    · exact hblank rfl
    · exact absurd hmark (by decide)
    · exact absurd hmark (by decide)
    · exact hblank rfl
  unfold Draft.specifier
  split
  · exact hfirst
  · simp only [String.toList_append, List.mem_append, not_or]
    exact ⟨⟨hfirst, has⟩, hsecond⟩

/-- Parts without commas are found again between the commas that join them. -/
theorem words_joined {parts : List (List Char)} (hne : parts ≠ [])
    (h : ∀ part ∈ parts, ',' ∉ part) :
    ((' ' :: joined parts ++ [' ']).splitOn ',').map words = parts.map words := by
  induction parts with
  | nil => exact absurd rfl hne
  | cons part rest ih =>
    rw [List.forall_mem_cons] at h
    cases rest with
    | nil =>
      have hsingle : (' ' :: part ++ [' ']).splitOn ',' = [' ' :: part ++ [' ']] :=
        List.splitOn_eq_singleton (by simpa using h.1)
      rw [joined_singleton, hsingle, List.map_singleton, words_concat_blank, words_cons_blank,
        List.map_singleton]
    | cons next rest =>
      have hchars : ' ' :: joined (part :: next :: rest) ++ [' '] =
          (' ' :: part) ++ ',' :: (' ' :: joined (next :: rest) ++ [' ']) := by
        rw [joined_cons_cons]
        simp
      have hpart : ',' ∉ ' ' :: part := by simpa using h.1
      rw [hchars, List.splitOn_append_cons_self_of_not_mem hpart, List.map_cons, words_cons_blank,
        ih (List.cons_ne_nil _ _) h.2]
      rfl

end

/-! ## Reading statements -/

/-- The specifiers of a statement. -/
def specifierTexts (names : Table String String) : List (List Char) :=
  names.entries.map fun e => (Draft.specifier e.1 e.2).toList

/-- The names and local names of a table are identifiers. -/
def Alphabet.AllIdentifiers (A : Alphabet) (names : Table String String) : Prop :=
  ∀ e ∈ names.entries, A.isIdentifier e.1 = true ∧ A.isIdentifier e.2 = true

section

variable {A : Alphabet} {names : Table String String}

theorem Alphabet.AllIdentifiers.not_mem (h : A.AllIdentifiers names) {mark : Char}
    (hascii : mark.toNat < 0x80) (hmark : isIdentifierRest mark = false) (hblank : mark ≠ ' ') :
    ∀ part ∈ specifierTexts names, mark ∉ part := by
  intro part hpart
  obtain ⟨e, he, rfl⟩ := List.mem_map.mp hpart
  exact A.not_mem_specifier (isName_of_isIdentifier (h e he).1) (isName_of_isIdentifier (h e he).2)
    hascii hmark hblank

/-- The specifiers of a statement are read back one by one. -/
theorem Alphabet.mapM_specifier?_words {entries : List (String × String)}
    (h : ∀ e ∈ entries, A.isIdentifier e.1 = true ∧ A.isIdentifier e.2 = true) :
    ((entries.map fun e => (Draft.specifier e.1 e.2).toList).map words).mapM A.specifier? =
      some entries := by
  induction entries with
  | nil => rfl
  | cons e rest ih =>
    rw [List.forall_mem_cons] at h
    rw [List.map_cons, List.map_cons, List.mapM_cons, A.specifier?_words h.1.1 h.1.2, ih h.2]
    rfl

/-- The names in the specifiers of a statement are read back. -/
theorem Alphabet.AllIdentifiers.specifiers?_joined (h : A.AllIdentifiers names) :
    A.specifiers? (' ' :: joined (specifierTexts names) ++ [' ']) = some names.entries := by
  have hcommas : ∀ part ∈ specifierTexts names, ',' ∉ part :=
    h.not_mem (by decide) (by decide) (by decide)
  by_cases hne : specifierTexts names = []
  · have hentries : names.entries = [] := List.map_eq_nil_iff.mp hne
    rw [hne, hentries]
    rfl
  · have hlast : ¬ ((specifierTexts names).map words).getLast? = some [] := by
      intro hlast
      obtain ⟨part, hpart, hwords⟩ := List.mem_map.mp (List.mem_of_getLast? hlast)
      obtain ⟨e, he, rfl⟩ := List.mem_map.mp hpart
      rw [A.words_specifier (isName_of_isIdentifier (h e he).1)
        (isName_of_isIdentifier (h e he).2)] at hwords
      split at hwords <;> cases hwords
    rw [specifiers?, words_joined hne hcommas]
    exact (congrArg (List.mapM A.specifier?) (if_neg hlast)).trans (A.mapM_specifier?_words h)

/-- A word of ASCII is read up to the blank behind it. -/
theorem Alphabet.keyword?_append {word : String} (hne : word.toList ≠ [])
    (h : (word.toList.all fun c => c.toNat < 0x80 && isIdentifierRest c) = true)
    (rest : List Char) :
    A.keyword? word (word.toList ++ ' ' :: rest) = some (' ' :: rest) := by
  have hblank : A.continues ' ' = false := A.continues_ascii ' ' (by decide)
  simp only [List.all_eq_true, Bool.and_eq_true, decide_eq_true_eq] at h
  have hword : ∀ c ∈ word.toList, A.continues c = true :=
    fun c hc => (A.continues_ascii c (h c hc).1).trans (h c hc).2
  have hskip : skipBlanks (word.toList ++ ' ' :: rest) = word.toList ++ ' ' :: rest := by
    cases hchars : word.toList with
    | nil => exact absurd hchars hne
    | cons c inner =>
      have hc := h c (hchars ▸ List.mem_cons_self)
      exact skipBlanks_cons (isBlank_of_isIdentifierRest hc.2) _
  have hend : ∀ c ∈ (' ' :: rest).head?, A.continues c = false := by
    intro c hc
    rw [← Option.some.inj hc, hblank]
  obtain ⟨htake, hdrop⟩ := takeWhile_append_stop hword hend
  rw [keyword?, hskip, htake, hdrop, if_pos rfl]

theorem Alphabet.keyword?_blank (word : String) (chars : List Char) :
    A.keyword? word (' ' :: chars) = A.keyword? word chars := rfl

theorem toList_importStatement (importer module : ImportPath) (names : Table String String) :
    (Draft.importStatement importer module names).toList =
      "import".toList ++ ' ' :: '\x7b' :: ((' ' :: joined (specifierTexts names) ++ [' ']) ++
        '\x7d' :: ' ' :: ("from".toList ++ ' ' :: '\x22' ::
          ((module.specifierFrom importer).toList ++ '\x22' :: [';']))) := by
  have hjoined : joined (specifierTexts names) =
      (", ".intercalate (names.entries.map fun e => Draft.specifier e.1 e.2)).toList := by
    rw [toList_intercalate_comma, List.map_map]
    rfl
  rw [hjoined]
  simp [Draft.importStatement]

/-- The specifiers of a statement end at its closing brace. -/
theorem Alphabet.AllIdentifiers.cut_at_brace (h : A.AllIdentifiers names) (rest : List Char) :
    (' ' :: joined (specifierTexts names) ++ [' '] ++ '\x7d' :: rest).takeWhile (· != '\x7d') =
        ' ' :: joined (specifierTexts names) ++ [' '] ∧
      (' ' :: joined (specifierTexts names) ++ [' '] ++ '\x7d' :: rest).dropWhile (· != '\x7d') =
        '\x7d' :: rest := by
  have hparts : ∀ part ∈ specifierTexts names, ∀ c ∈ part, (c != '\x7d') = true := by
    intro part hpart c hc
    rw [bne_iff_ne]
    rintro rfl
    exact h.not_mem (by decide) (by decide) (by decide) part hpart hc
  refine takeWhile_append_stop ?_ (by simp)
  rw [List.forall_mem_append, List.forall_mem_cons]
  exact ⟨⟨by decide, forall_mem_joined (by decide) (by decide) hparts⟩, by simp⟩

/-- The names are read back from a statement, and its specifier follows as it is. -/
theorem Alphabet.AllIdentifiers.importClause?_eq (h : A.AllIdentifiers names)
    (importer module : ImportPath) :
    A.importClause? (Draft.importStatement importer module names) =
      some (names.entries, (module.specifierFrom importer).toList ++ ['\x22', ';']) := by
  have hopening (rest : List Char) : mark? '\x7b' (' ' :: '\x7b' :: rest) = some rest := rfl
  have hclosing (rest : List Char) : mark? '\x7d' ('\x7d' :: rest) = some rest := rfl
  have hquote (rest : List Char) : mark? '\x22' (' ' :: '\x22' :: rest) = some rest := rfl
  rw [importClause?, toList_importStatement, A.keyword?_append (by decide) (by decide)]
  simp only [Option.bind_eq_bind, Option.bind_some, hopening]
  rw [(h.cut_at_brace _).1, (h.cut_at_brace _).2, h.specifiers?_joined]
  simp only [Option.bind_some, hclosing]
  rw [A.keyword?_blank, A.keyword?_append (by decide) (by decide)]
  simp only [Option.bind_some, hquote]
  rfl

/-- What is read in a statement depends on the literal for its module alone. -/
theorem Alphabet.AllIdentifiers.importDeclaration?_eq (h : A.AllIdentifiers names)
    (importer module : ImportPath) :
    A.importDeclaration? (Draft.importStatement importer module names) =
      (readLiteral .plain ((module.specifierFrom importer).toList ++ ['\x22', ';'])).bind
        fun p => (mark? ';' p.2).bind fun rest =>
          if skipBlanks rest = [] then some (names.entries, p.1) else none := by
  rw [importDeclaration?, h.importClause?_eq]
  rfl

/-- The module is read back from a statement if and only if each character of its specifier stands for
itself. -/
theorem Alphabet.AllIdentifiers.importDeclaration?_eq_some_iff (h : A.AllIdentifiers names)
    (importer module : ImportPath) :
    A.importDeclaration? (Draft.importStatement importer module names) =
        some (names.entries, units (module.specifierFrom importer)) ↔
      Verbatim (module.specifierFrom importer) := by
  have hliteral (left : List Char) : readLiteral .plain
      ((module.specifierFrom importer).toList ++ ['\x22', ';']) =
        some (units (module.specifierFrom importer), left) ↔
      left = [';'] ∧ Verbatim (module.specifierFrom importer) :=
    readLiteral_eq_some_iff (by decide)
  rw [h.importDeclaration?_eq]
  constructor
  · intro hread
    obtain ⟨⟨module', rest⟩, hmodule, hrest⟩ := Option.bind_eq_some_iff.mp hread
    obtain ⟨left, -, hleft⟩ := Option.bind_eq_some_iff.mp hrest
    split at hleft
    · cases hleft
      exact ((hliteral rest).mp hmodule).2
    · cases hleft
  · intro hverbatim
    rw [(hliteral _).mpr ⟨rfl, hverbatim⟩]
    rfl

end

end Script

/-! ## Statements of drafts -/

namespace Draft

variable {A : Script.Alphabet} {name : String} {path : ImportPath} {d : Draft}

/-- A local name is the exported name with dollar signs after it. -/
theorem Leads.exists_dollared (h : (new name path).Leads d) {s : Symbol} {l : String}
    (hl : d.localName? s = some l) : ∃ k, l = dollared s.name k := by
  induction h generalizing s l with
  | refl => cases hl
  | @request e _ s' ih =>
    rcases request_cases e s' with ⟨_, hr⟩ | ⟨_, l', _, hr⟩ | ⟨_, _, hr⟩ <;> rw [hr] at hl
    · exact ih hl
    · exact ih hl
    · rw [localName?_importAs] at hl
      split at hl
      · next heq =>
        obtain ⟨k, hk, _⟩ := freshName_isFree e.taken s'.name
        exact ⟨k, by rw [heq, ← hk, Option.some.inj hl]⟩
      · exact ih hl
  | reserve _ _ ih => exact ih hl
  | line _ _ ih => exact ih hl
  | mark _ ih => exact ih hl
  | level _ _ ih => exact ih hl
  | tell _ _ ih => exact ih hl

/-- Where the imported names are identifiers, the local names are too. -/
theorem Leads.allIdentifiers (h : (new name path).Leads d)
    (hnames : ∀ e ∈ d.imports.entries, ∀ n ∈ e.2.keys, A.isIdentifier n = true) :
    ∀ e ∈ d.imports.entries, A.AllIdentifiers e.2 := by
  intro e he n hn
  have hname : A.isIdentifier n.1 = true := hnames e he n.1 (List.mem_map.mpr ⟨n, hn, rfl⟩)
  have hmem : (⟨e.1, n.1⟩, n.2) ∈ d.specifiers :=
    List.mem_flatMap.mpr ⟨e, he, List.mem_map.mpr ⟨n, hn, rfl⟩⟩
  have hlocal := (h.sound (sound_new name path)).mem_specifiers_iff.mp hmem
  obtain ⟨k, hk⟩ := h.exists_dollared hlocal
  rw [hk]
  exact ⟨hname, A.isIdentifier_dollared hname k⟩

end Draft

/-- A specifier stands for itself if its path does. -/
theorem ImportPath.verbatim_specifierFrom {p importer : ImportPath}
    (h : Script.Verbatim p.path) : Script.Verbatim (p.specifierFrom importer) := by
  intro c hc
  rcases mem_specifierFrom hc with hc | rfl | rfl
  · exact h c hc
  · decide
  · decide

/-- Whatever steps were made on a draft, if the imported names are identifiers they are read back
from its import statements with their local names, and the specifiers of the modules follow as they
are.  The module is read back from a statement if and only if each character of its specifier stands
for itself, and so it is if each character of its path does. -/
theorem Step.importStatements_afterAll (A : Script.Alphabet) (name : String) (path : ImportPath)
    (steps : List (FieldInfo.Writer × Step))
    (hnames : ∀ e ∈ (afterAll steps (Draft.new name path)).imports.entries, ∀ n ∈ e.2.keys,
      A.isIdentifier n = true) :
    List.Forall₂ (fun e statement =>
      A.importClause? statement =
          some (e.2.entries, (e.1.specifierFrom path).toList ++ ['\x22', ';']) ∧
      (A.importDeclaration? statement =
          some (e.2.entries, Script.units (e.1.specifierFrom path)) ↔
        Script.Verbatim (e.1.specifierFrom path)) ∧
      (Script.Verbatim e.1.path → Script.Verbatim (e.1.specifierFrom path)))
      (afterAll steps (Draft.new name path)).imports.entries
      (afterAll steps (Draft.new name path)).importStatements := by
  have hleads := leads_afterAll steps (Draft.new name path)
  have hpath : (afterAll steps (Draft.new name path)).path = path := hleads.path_eq
  rw [Draft.importStatements, List.forall₂_map_right_iff, hpath]
  refine List.forall₂_same.mpr fun e he => ?_
  have hall := hleads.allIdentifiers hnames e he
  exact ⟨hall.importClause?_eq path e.1, hall.importDeclaration?_eq_some_iff path e.1,
    fun h => ImportPath.verbatim_specifierFrom h⟩

namespace Step

/-- A writer that knows no declaration. -/
def plainWriter : FieldInfo.Writer :=
  ⟨Registry.empty, Config.defaultRuntime, false⟩

/-- A draft that imports the scalar types of the runtime and a symbol whose name is taken. -/
def sampleDraft : Draft :=
  afterAll [(plainWriter, .reserve "Kind"),
    (plainWriter, .constant .scalarType (.scalar (.constant (.scalar .int32)))),
    (plainWriter, .request ⟨⟨"./dir/base"⟩, "Kind"⟩)] (Draft.new "main.ts" ⟨"./dir/sub/main"⟩)

theorem importStatements_afterAll_of_sample :
    (∀ e ∈ sampleDraft.imports.entries, ∀ n ∈ e.2.keys,
      Script.Alphabet.ascii.isIdentifier n = true) ∧
    sampleDraft.importStatements =
      ["import \x7b ScalarType \x7d from \"@protobuf-ts/runtime\";",
        "import \x7b Kind as Kind$ \x7d from \"../base\";"] ∧
    List.Forall₂ (fun e statement => Script.Alphabet.ascii.importDeclaration? statement =
        some (e.2.entries, Script.units (e.1.specifierFrom ⟨"./dir/sub/main"⟩)))
      sampleDraft.imports.entries sampleDraft.importStatements := by
  have hnames : ∀ e ∈ sampleDraft.imports.entries, ∀ n ∈ e.2.keys,
      Script.Alphabet.ascii.isIdentifier n = true := by
    decide +kernel
  have hpaths : ∀ e ∈ sampleDraft.imports.entries, Script.Verbatim e.1.path := by decide +kernel
  refine ⟨hnames, by decide +kernel, ?_⟩
  refine Related.imp_mem (importStatements_afterAll .ascii "main.ts" ⟨"./dir/sub/main"⟩ _ hnames)
    fun e he _ _ ⟨_, hiff, hverbatim⟩ => ?_
  exact hiff.mpr (hverbatim (hpaths e he))

/-- Not every module is read back: a quotation mark in a path ends the literal too early. -/
theorem not_importStatements_afterAll :
    ¬ ∀ (A : Script.Alphabet) (name : String) (path : ImportPath)
      (steps : List (FieldInfo.Writer × Step)),
      (∀ e ∈ (afterAll steps (Draft.new name path)).imports.entries,
        (∀ n ∈ e.2.keys, A.isIdentifier n = true) ∧ Text.isLine e.1.path = true) →
      (afterAll steps (Draft.new name path)).importStatements.map A.importDeclaration? =
        (afterAll steps (Draft.new name path)).imports.entries.map fun e =>
          some (e.2.entries, Script.units (e.1.specifierFrom path)) := by
  intro h
  have hread := h .ascii "main.ts" ⟨"./main"⟩ [(plainWriter, .request ⟨⟨"a\x22b"⟩, "X"⟩)]
    (by decide +kernel)
  exact absurd hread (by decide +kernel)

end Step

end SchemaScript
