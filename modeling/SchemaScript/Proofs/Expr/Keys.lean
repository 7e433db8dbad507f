import SchemaScript.Proofs.Expr.Spelling

/-!
# Names of properties

Which property is named by what is written for a key of an object literal.

A text names a key (`Script.NamesKey`) if it is the key and an identifier of ASCII, or if it is a
quoted text that is read as the key.  Every key is named by what is written for it, except one that
is an identifier but for a line feed at its end (`HasStrayLineFeed`).  Such a key is written bare
with its line feed.  That is neither an identifier nor a quoted text, and a reader, who takes the
line feed for a blank, reads the identifier before it (`namedProperty`).

`Script.readProperty` reads a property of an object literal up to its colon.  At each property of a
written literal it finds the named property, so different keys are told apart unless the one is the
other with a stray line feed (`Expr.object_names`).
-/

namespace SchemaScript

/-! ## Keys -/

/-- A key is an identifier but for a line feed at its end. -/
def HasStrayLineFeed (key : String) : Prop :=
  key.toList.getLast? = some '\n' ∧ Script.isIdentifier key.toList.dropLast = true

instance (key : String) : Decidable (HasStrayLineFeed key) := by
  unfold HasStrayLineFeed; infer_instance

/-- The property that is named by what is written for a key. -/
def namedProperty (key : String) : String :=
  if HasStrayLineFeed key then String.ofList key.toList.dropLast else key

theorem hasStrayLineFeed_iff {key : String} : HasStrayLineFeed key ↔
    ∃ name : String, key = name ++ "\n" ∧ Script.isIdentifier name.toList = true := by
  constructor
  · rintro ⟨hlast, hname⟩
    refine ⟨String.ofList key.toList.dropLast, String.toList_inj.mp ?_, ?_⟩
    · rw [String.toList_append, String.toList_ofList]
      exact (List.dropLast_append_getLast? _ hlast).symm
    · rw [String.toList_ofList]
      exact hname
  · rintro ⟨name, rfl, hname⟩
    rw [HasStrayLineFeed, String.toList_append, show "\n".toList = ['\n'] from rfl,
      List.getLast?_concat, List.dropLast_concat]
    exact ⟨rfl, hname⟩

theorem isBareKey_toList_iff {key : String} : isBareKey key.toList = true ↔
    Script.isIdentifier key.toList = true ∨ HasStrayLineFeed key := by
  rw [Script.isBareKey_iff, hasStrayLineFeed_iff]
  refine or_congr Iff.rfl ⟨?_, ?_⟩
  · rintro ⟨name, hkey, hname⟩
    refine ⟨String.ofList name, String.toList_inj.mp ?_, by rwa [String.toList_ofList]⟩
    rw [hkey, String.toList_append, String.toList_ofList]
    rfl
  · rintro ⟨name, rfl, hname⟩
    exact ⟨name.toList, String.toList_append, hname⟩

namespace Script

open Text

/-- A text names a key: it is the key and an identifier, or a quoted text that is read as the
key. -/
def NamesKey (text key : String) : Prop :=
  isIdentifier key.toList = true ∧ text = key ∨
    ∃ inner, text.toList = '\x22' :: inner ∧ readText inner = some (key, [])

/-- The name of a property at the start, and what follows its colon. -/
def readProperty (chars : List Char) : Option (String × List Char) :=
  match readKey (skipBlanks chars) with
  | none => none
  | some (key, rest) =>
    match skipBlanks rest with
    | ':' :: rest => some (key, rest)
    | _ => none

theorem isIdentifierRest_of_isIdentifier {chars : List Char} (h : isIdentifier chars = true) :
    ∀ c ∈ chars, isIdentifierRest c = true := by
  cases chars with
  | nil => nofun
  | cons c inner =>
    rw [isIdentifier, Bool.and_eq_true, List.all_eq_true] at h
    refine List.forall_mem_cons.mpr ⟨?_, h.2⟩
    rw [isIdentifierRest, h.1]
    rfl

theorem not_isIdentifier_stray (name : String) : ¬ isIdentifier (name ++ "\n").toList = true := by
  intro h
  have hfeed := isIdentifierRest_of_isIdentifier h '\n' (by simp)
  exact absurd hfeed (by decide)

end Script

open Script Text

theorem namedProperty_stray {name : String} (hname : isIdentifier name.toList = true) :
    namedProperty (name ++ "\n") = name := by
  have hstray : HasStrayLineFeed (name ++ "\n") := hasStrayLineFeed_iff.mpr ⟨name, rfl, hname⟩
  rw [namedProperty, if_pos hstray, String.toList_append, show "\n".toList = ['\n'] from rfl,
    List.dropLast_concat, String.ofList_toList]

/-- Only a stray line feed makes a key name another property. -/
theorem namedProperty_of_not_stray {key : String} (h : ¬ HasStrayLineFeed key) :
    namedProperty key = key :=
  if_neg h

/-- An identifier is written as it is. -/
theorem propertyName_of_isIdentifier {key : String} (h : isIdentifier key.toList = true) :
    propertyName key = key :=
  if_pos (isBareKey_toList_iff.mpr (.inl h))

/-- An identifier is written with its stray line feed. -/
theorem propertyName_of_stray {key : String} (h : HasStrayLineFeed key) : propertyName key = key :=
  if_pos (isBareKey_toList_iff.mpr (.inr h))

theorem propertyName_of_not_bare {key : String} (hident : isIdentifier key.toList ≠ true)
    (hstray : ¬ HasStrayLineFeed key) : propertyName key = quoted key :=
  if_neg fun hbare => (isBareKey_toList_iff.mp hbare).elim hident hstray

/-- What is written for a key names it, unless the key has a stray line feed. -/
theorem namesKey_propertyName_iff (key : String) :
    NamesKey (propertyName key) key ↔ ¬ HasStrayLineFeed key := by
  constructor
  · intro hnames hstray
    obtain ⟨name, rfl, hname⟩ := hasStrayLineFeed_iff.mp hstray
    rcases hnames with ⟨hident, _⟩ | ⟨inner, hquoted, _⟩
    · exact not_isIdentifier_stray name hident
    · rw [propertyName_of_stray hstray, String.toList_append] at hquoted
      cases hchars : name.toList with
      | nil => rw [hchars] at hname; cases hname
      | cons c rest =>
        rw [hchars] at hname hquoted
        have hfirst := isIdentifierRest_of_isIdentifier hname c List.mem_cons_self
        exact absurd (List.cons.inj hquoted).1 (ne_of_kind hfirst (by decide))
  · intro hstray
    by_cases hident : isIdentifier key.toList = true
    · exact .inl ⟨hident, propertyName_of_isIdentifier hident⟩
    · refine .inr ⟨_, ?_, readText_quoted key []⟩
      rw [propertyName_of_not_bare hident hstray, toList_quoted]

/-! ## Reading properties -/

theorem Script.SpellsKey.readProperty {text : List Char} {key : String} (h : SpellsKey text key)
    (rest : List Char) : readProperty (text ++ ':' :: rest) = some (key, rest) := by
  obtain ⟨c, inner, hc, hblank, _⟩ := h.starts
  have hskip : skipBlanks (text ++ ':' :: rest) = text ++ ':' :: rest := by
    rw [hc]
    exact skipBlanks_cons hblank _
  rw [Script.readProperty, hskip, h.read]
  rfl

/-- An identifier is read up to a line feed after it. -/
theorem readProperty_stray {name : List Char} (hname : isIdentifier name = true)
    (rest : List Char) :
    readProperty (name ++ '\n' :: ':' :: rest) = some (String.ofList name, rest) := by
  have hall := isIdentifierRest_of_isIdentifier hname
  cases name with
  | nil => cases hname
  | cons c inner =>
    rw [isIdentifier, Bool.and_eq_true, List.all_eq_true] at hname
    have hfirst := hall c List.mem_cons_self
    have hread : readKey (c :: inner ++ '\n' :: ':' :: rest) =
        some (String.ofList (c :: inner), '\n' :: ':' :: rest) := by
      rw [readKey]
      · exact readName_append hname.1 hname.2 (Stops.cons (by decide) _)
      · intro _ heq
        exact absurd (List.cons.inj heq).1 (ne_of_kind hfirst (by decide))
    rw [readProperty, List.cons_append, skipBlanks_cons (isBlank_of_isIdentifierRest hfirst),
      ← List.cons_append, hread]
    rfl

/-- The reader finds the named property in what is written for a key. -/
theorem readProperty_propertyName (key : String) (rest : List Char) :
    readProperty ((propertyName key).toList ++ ':' :: rest) = some (namedProperty key, rest) := by
  by_cases hstray : HasStrayLineFeed key
  · obtain ⟨name, rfl, hname⟩ := hasStrayLineFeed_iff.mp hstray
    have hread := readProperty_stray hname rest
    rw [String.ofList_toList] at hread
    rw [propertyName_of_stray hstray, namedProperty_stray hname, String.toList_append,
      List.append_assoc]
    exact hread
  · rw [namedProperty_of_not_stray hstray]
    by_cases hident : isIdentifier key.toList = true
    · have hspells := SpellsKey.identifier hident
      rw [String.ofList_toList] at hspells
      rw [propertyName_of_isIdentifier hident]
      exact hspells.readProperty rest
    · rw [propertyName_of_not_bare hident hstray]
      exact (SpellsKey.quoted key).readProperty rest

/-- Different keys name the same property only if the one is the other with a stray line feed. -/
theorem namedProperty_eq_iff {key other : String} :
    namedProperty key = namedProperty other ↔ key = other ∨
      isIdentifier key.toList = true ∧ other = key ++ "\n" ∨
      isIdentifier other.toList = true ∧ key = other ++ "\n" := by
  constructor
  · intro h
    by_cases hkey : HasStrayLineFeed key <;> by_cases hother : HasStrayLineFeed other
    · obtain ⟨name, rfl, hname⟩ := hasStrayLineFeed_iff.mp hkey
      obtain ⟨name', rfl, hname'⟩ := hasStrayLineFeed_iff.mp hother
      rw [namedProperty_stray hname, namedProperty_stray hname'] at h
      subst h
      exact .inl rfl
    · obtain ⟨name, rfl, hname⟩ := hasStrayLineFeed_iff.mp hkey
      rw [namedProperty_stray hname, namedProperty_of_not_stray hother] at h
      subst h
      exact .inr (.inr ⟨hname, rfl⟩)
    · obtain ⟨name, rfl, hname⟩ := hasStrayLineFeed_iff.mp hother
      rw [namedProperty_stray hname, namedProperty_of_not_stray hkey] at h
      subst h
      exact .inr (.inl ⟨hname, rfl⟩)
    · rw [namedProperty_of_not_stray hkey, namedProperty_of_not_stray hother] at h
      exact .inl h
  · have hstray {name : String} (hname : isIdentifier name.toList = true) :
        namedProperty name = namedProperty (name ++ "\n") := by
      rw [namedProperty_stray hname]
      refine namedProperty_of_not_stray fun h => ?_
      obtain ⟨before, rfl, _⟩ := hasStrayLineFeed_iff.mp h
      exact not_isIdentifier_stray before hname
    rintro (rfl | ⟨hname, rfl⟩ | ⟨hname, rfl⟩)
    · rfl
    · exact hstray hname
    · exact (hstray hname).symm

/-! ## Object literals -/

namespace Expr

/-- The text of an object literal from the texts of its properties. -/
def objectText (indent : String) (multiLine : Bool) : List String → String
  | [] => "\x7b\x7d"
  | parts =>
    if multiLine then onManyLines "\x7b" "\x7d" indent parts else onOneLine "\x7b " " \x7d" parts

/-- The indentation at which the properties of an object literal are printed. -/
def propertyIndent (indent : String) (multiLine : Bool) : String :=
  if multiLine then indent ++ innerIndent else indent

theorem print_object (indent : String) (properties : List (String × Expr)) (multiLine : Bool) :
    print indent (.object properties multiLine) = objectText indent multiLine
      (properties.map fun p =>
        propertyName p.1 ++ ": " ++ print (propertyIndent indent multiLine) p.2) := by
  cases properties with
  | nil => rw [print]; rfl
  | cons p rest =>
    cases multiLine with
    | false =>
      show onOneLine "\x7b " " \x7d" (printProperties indent (p :: rest)) = _
      rw [printProperties_eq_map]
      rfl
    | true =>
      show onManyLines "\x7b" "\x7d" indent (printProperties (indent ++ innerIndent) (p :: rest)) = _
      rw [printProperties_eq_map]
      rfl

/-- What is written for a key of an object literal names it, unless the key has a stray line feed.
The literal is made of one text for each property, which is read as the named property whatever
stands behind it, and different keys name the same property only if the one is the other with a
stray line feed. -/
theorem object_names (properties : List (String × Expr)) (multiLine : Bool) (indent : String) :
    (∀ key, NamesKey (propertyName key) key ↔ ¬ HasStrayLineFeed key) ∧
      (∀ key other, namedProperty key = namedProperty other ↔ key = other ∨
        isIdentifier key.toList = true ∧ other = key ++ "\n" ∨
        isIdentifier other.toList = true ∧ key = other ++ "\n") ∧
      ∃ parts : List String,
        print indent (.object properties multiLine) = objectText indent multiLine parts ∧
        List.Forall₂ (fun p part =>
          let value := print (propertyIndent indent multiLine) p.2
          part = propertyName p.1 ++ ": " ++ value ∧ ∀ rest : List Char,
            readProperty (part.toList ++ rest) =
              some (namedProperty p.1, ' ' :: value.toList ++ rest)) properties parts := by
  refine ⟨namesKey_propertyName_iff, fun _ _ => namedProperty_eq_iff, _,
    print_object indent properties multiLine, ?_⟩
  rw [List.forall₂_map_right_iff, List.forall₂_same]
  intro p _
  refine ⟨rfl, fun rest => ?_⟩
  have hread := readProperty_propertyName p.1
    (' ' :: (print (propertyIndent indent multiLine) p.2).toList ++ rest)
  rw [String.toList_append, String.toList_append, List.append_assoc, List.append_assoc]
  exact hread

/-- Two keys of which the one has a stray line feed are written without quotation marks and name the
same property. -/
theorem names_not_apart : ¬ NamesKey (propertyName "a\n") "a\n" ∧
    print "" (.object [("a", .bool true), ("a\n", .bool false)] false) =
      "\x7b a: true, a\n: false \x7d" ∧
    readProperty "a: true".toList = some ("a", " true".toList) ∧
    readProperty "a\n: false".toList = some ("a", " false".toList) := by
  refine ⟨fun h => (namesKey_propertyName_iff "a\n").mp h ?_, ?_, ?_, ?_⟩
  · decide +kernel
  · decide +kernel
  · decide +kernel
  · decide +kernel

end Expr

end SchemaScript
