import SchemaScript.Config
import SchemaScript.Proofs.Draft.Steps
import SchemaScript.Proofs.Related
import SchemaScript.Proofs.Schema.Resolved

/-!
# Deferred references

Where the identifiers of a field literal stand, and what each of them is written for.

What stands in the body of a function is evaluated when the function is called, and all else as soon
as the module is loaded.  `Expr.occurrences` lists the identifiers of an expression in the order of
its text, each with whether it is deferred.

`Writer.mentions` lists what the identifiers of a field literal are written for: nothing, whose word
is `null`, the enumerations of qualified constants, and the declaration that the kind of the field
refers to.  The two lists belong together item by item, and exactly the declaration is deferred
(`Writer.literal_defers`), whether it is the type of the field or of the values of a map.  The
mentions tell the identifiers apart where their texts do not: a declaration of the module may have
the name of an enumeration of the runtime.
-/

namespace SchemaScript

open Outcome

/-! ## Identifiers of expressions -/

/-- An identifier of an expression. -/
structure Occurrence where
  name : String
  /-- Whether it stands in the body of a function. -/
  deferred : Bool
deriving DecidableEq

namespace Expr

mutual

/-- The identifiers of an expression that is deferred or not. -/
def occurrencesIn (deferred : Bool) : Expr → List Occurrence
  | .ident name => [⟨name, deferred⟩]
  | .access base _ => occurrencesIn deferred base
  | .arrow body => occurrencesIn true body
  | .array elements _ => occurrencesInAll deferred elements
  | .object properties _ => occurrencesInProperties deferred properties
  | .number _ _ | .misfit _ | .text _ | .bool _ => []

/-- The identifiers of expressions in order. -/
def occurrencesInAll (deferred : Bool) : List Expr → List Occurrence
  | [] => []
  | e :: rest => occurrencesIn deferred e ++ occurrencesInAll deferred rest

/-- The identifiers of properties in order. -/
def occurrencesInProperties (deferred : Bool) : List (String × Expr) → List Occurrence
  | [] => []
  | (_, e) :: rest => occurrencesIn deferred e ++ occurrencesInProperties deferred rest

end

/-- The identifiers of an expression in the order of its text. -/
def occurrences (e : Expr) : List Occurrence :=
  e.occurrencesIn false

theorem occurrencesInProperties_append (deferred : Bool) (ps qs : List (String × Expr)) :
    occurrencesInProperties deferred (ps ++ qs) =
      occurrencesInProperties deferred ps ++ occurrencesInProperties deferred qs := by
  induction ps with
  | nil => rfl
  | cons p rest ih =>
    rw [List.cons_append, occurrencesInProperties, occurrencesInProperties, ih, List.append_assoc]

end Expr

/-! ## Nothing in values -/

namespace Value

mutual

/-- How often nothing stands in a value, apart from keys. -/
def nulls : Value → Nat
  | .scalar .null => 1
  | .list items => nullsInAll items
  | .tuple items => nullsInAll items
  | .table entries => nullsInEntries entries
  | _ => 0

/-- How often nothing stands in values. -/
def nullsInAll : List Value → Nat
  | [] => 0
  | v :: rest => nulls v + nullsInAll rest

/-- How often nothing stands in the values of entries. -/
def nullsInEntries : List (Value × Value) → Nat
  | [] => 0
  | (_, v) :: rest => nulls v + nullsInEntries rest

end

end Value

namespace Expr

mutual

/-- The identifiers in the literal for a value are those for nothing. -/
theorem occurrencesIn_ofValue (v : Value) {e : Expr} (h : ofValue v = .ok e) (deferred : Bool) :
    e.occurrencesIn deferred = List.replicate v.nulls ⟨"null", deferred⟩ := by
  cases v with
  | scalar s => cases h; cases s <;> rfl
  | list items =>
    obtain ⟨es, hes, rfl⟩ := map_eq_ok_iff.mp h
    exact occurrencesInAll_ofValues items hes deferred
  | tuple items =>
    obtain ⟨es, hes, rfl⟩ := map_eq_ok_iff.mp h
    exact occurrencesInAll_ofValues items hes deferred
  | table entries =>
    obtain ⟨ps, hps, rfl⟩ := map_eq_ok_iff.mp h
    exact occurrencesInProperties_ofEntries entries hps deferred
  | bytes content => cases h
  | set => cases h
  | object => cases h

theorem occurrencesInAll_ofValues (items : List Value) {es : List Expr}
    (h : ofValues items = .ok es) (deferred : Bool) :
    occurrencesInAll deferred es = List.replicate (Value.nullsInAll items) ⟨"null", deferred⟩ := by
  cases items with
  | nil => cases h; rfl
  | cons v rest =>
    simp only [ofValues, bind_eq_ok_iff, pure_eq_ok_iff] at h
    obtain ⟨e, he, es', hes', rfl⟩ := h
    rw [occurrencesInAll, occurrencesIn_ofValue v he, occurrencesInAll_ofValues rest hes',
      Value.nullsInAll, List.replicate_add]

theorem occurrencesInProperties_ofEntries (entries : List (Value × Value))
    {ps : List (String × Expr)} (h : ofEntries entries = .ok ps) (deferred : Bool) :
    occurrencesInProperties deferred ps =
      List.replicate (Value.nullsInEntries entries) ⟨"null", deferred⟩ := by
  cases entries with
  | nil => cases h; rfl
  | cons entry rest =>
    obtain ⟨key, v⟩ := entry
    simp only [ofEntries, bind_eq_ok_iff, pure_eq_ok_iff] at h
    obtain ⟨name, -, e, he, ps', hps', rfl⟩ := h
    rw [occurrencesInProperties, occurrencesIn_ofValue v he,
      occurrencesInProperties_ofEntries rest hps', Value.nullsInEntries, List.replicate_add]

end

end Expr

namespace FieldInfo

/-! ## Mentions -/

/-- What an identifier of a field literal is written for. -/
inductive Mention where
  /-- The absence of a value. -/
  | nothing
  /-- An enumeration of the runtime, of which a constant is taken. -/
  | constants (family : Family)
  /-- The enum or the message of a full name. -/
  | declaration (typeName : String)
deriving DecidableEq

namespace Mention

/-- Whether something is the enum or the message that a field refers to. -/
def isDeclaration : Mention → Bool
  | .declaration _ => true
  | _ => false

/-- The names that a writer has for a mention in a draft.  An enumeration of the runtime has one only
where constants are qualified. -/
def SpelledAs (w : Writer) (d : Draft) (name : String) : Mention → Prop
  | .nothing => name = "null"
  | .constants family => w.inlined = false ∧ d.Names ⟨w.runtime, family.name⟩ name
  | .declaration typeName => ∃ x, w.registry.declared? typeName = some x ∧ d.Names x.symbol name

end Mention

namespace Writer

variable {w : Writer} {d d' d'' : Draft}

/-- What a runtime constant mentions. -/
def constantMentions (w : Writer) (family : Family) : List Mention :=
  if w.inlined then [] else [.constants family]

/-- What a runtime constant mentions if there is one. -/
def optionalMentions (w : Writer) (family : Family) : Option Value → List Mention
  | none => []
  | some _ => w.constantMentions family

/-- What the properties of a kind mention. -/
def kindMentions (w : Writer) : FieldKind → List Mention
  | .scalar _ long => w.constantMentions .scalarType ++ w.optionalMentions .longType long
  | .enumeration typeName _ => [.declaration typeName]
  | .message typeName => [.declaration typeName]
  | .map _ value => w.constantMentions .scalarType ++ w.kindMentions value

/-- What the literal for minimized information mentions, in the order of its text. -/
def mentions (w : Writer) (i : FieldInfo) : List Mention :=
  List.replicate i.number.nulls .nothing ++ w.optionalMentions .repeatType i.repetition ++
    w.kindMentions i.kind ++
    List.replicate ((i.options.map Value.nullsInEntries).getD 0) .nothing

theorem declaration_not_mem_constantMentions (family : Family) (t : String) :
    .declaration t ∉ w.constantMentions family := by
  unfold constantMentions
  split <;> simp

theorem declaration_not_mem_optionalMentions (family : Family) (value : Option Value) (t : String) :
    .declaration t ∉ w.optionalMentions family value := by
  cases value with
  | none => exact List.not_mem_nil
  | some v => exact declaration_not_mem_constantMentions family t

/-- A field mentions the declaration that its kind refers to, and no other. -/
theorem declaration_mem_kindMentions_iff {k : FieldKind} {t : String} :
    .declaration t ∈ w.kindMentions k ↔ k.typeName? = some t := by
  induction k with
  | scalar type long =>
    simp [kindMentions, FieldKind.typeName?, declaration_not_mem_constantMentions,
      declaration_not_mem_optionalMentions]
  | enumeration typeName stem => simp [kindMentions, FieldKind.typeName?, eq_comm]
  | message typeName => simp [kindMentions, FieldKind.typeName?, eq_comm]
  | map key value ih =>
    simp [kindMentions, FieldKind.typeName?, declaration_not_mem_constantMentions, ih]

theorem declaration_mem_mentions_iff {i : FieldInfo} {t : String} :
    .declaration t ∈ w.mentions i ↔ i.kind.typeName? = some t := by
  simp [mentions, declaration_not_mem_optionalMentions, declaration_mem_kindMentions_iff]

/-! ## Identifiers for mentions -/

/-- An identifier is written for a mention: it is a name for it, and it is deferred if and only if it
refers to a declaration. -/
def WrittenFor (w : Writer) (d : Draft) (m : Mention) (o : Occurrence) : Prop :=
  m.SpelledAs w d o.name ∧ o.deferred = m.isDeclaration

/-- Identifiers are written for mentions, item by item. -/
def Mentions (w : Writer) (d : Draft) (ms : List Mention) (os : List Occurrence) : Prop :=
  List.Forall₂ (w.WrittenFor d) ms os

namespace Mentions

variable {ms ms' : List Mention} {os os' : List Occurrence}

/-- Identifiers stay what they are as the draft goes on. -/
theorem leads (h : w.Mentions d ms os) (hd : d.Leads d') : w.Mentions d' ms os := by
  refine List.Forall₂.imp (fun m o ho => ⟨?_, ho.2⟩) h
  have hname := ho.1
  cases m with
  | nothing => exact hname
  | constants family => exact ⟨hname.1, hd.names hname.2⟩
  | declaration t =>
    obtain ⟨x, hx, hl⟩ := hname
    exact ⟨x, hx, hd.names hl⟩

theorem append (h : w.Mentions d ms os) (h' : w.Mentions d ms' os') :
    w.Mentions d (ms ++ ms') (os ++ os') :=
  List.rel_append h h'

theorem nothing (n : Nat) :
    w.Mentions d (List.replicate n .nothing) (List.replicate n ⟨"null", false⟩) := by
  induction n with
  | zero => exact .nil
  | succ n ih => exact .cons ⟨rfl, rfl⟩ ih

end Mentions

/-- The identifiers of properties. -/
def propertyOccurrences (ps : Properties) : List Occurrence :=
  Expr.occurrencesInProperties false ps

theorem propertyOccurrences_cons (key : String) (e : Expr) (ps : Properties) :
    propertyOccurrences ((key, e) :: ps) = e.occurrences ++ propertyOccurrences ps := rfl

theorem propertyOccurrences_append (ps qs : Properties) :
    propertyOccurrences (ps ++ qs) = propertyOccurrences ps ++ propertyOccurrences qs :=
  Expr.occurrencesInProperties_append false ps qs

theorem propertyOccurrences_text (key : String) (value : Option String) :
    propertyOccurrences (textProperty key value) = [] := by
  cases value <;> rfl

theorem propertyOccurrences_bool (key : String) (value : Option Bool) :
    propertyOccurrences (boolProperty key value) = [] := by
  cases value <;> rfl

theorem propertyOccurrences_options {options : Option (List (Value × Value))} {ps : Properties}
    (h : optionsProperty options = .ok ps) : propertyOccurrences ps =
      List.replicate ((options.map Value.nullsInEntries).getD 0) ⟨"null", false⟩ := by
  unfold optionsProperty at h
  split at h
  · cases h; rfl
  · cases h; rfl
  · obtain ⟨e, he, rfl⟩ := map_eq_ok_iff.mp h
    exact (List.append_nil _).trans (Expr.occurrencesIn_ofValue _ he false)

/-! ## Constants and references -/

theorem constant_mentions {family : Family} {value : Value} {e : Expr}
    (h : w.constant family value d = (.ok e, d')) :
    w.Mentions d' (w.constantMentions family) e.occurrences := by
  simp only [constant, Edit.bind_eq_ok_iff] at h
  obtain ⟨c, d₁, _, h⟩ := h
  unfold constantMentions
  split at h
  · next hinlined =>
    cases h
    rw [if_pos hinlined]
    exact .nil
  · next hinlined =>
    simp only [Edit.bind_eq_ok_iff, Edit.pure_eq_ok_iff, Edit.request_apply] at h
    obtain ⟨l, d₂, hl, rfl, rfl⟩ := h
    cases hl
    rw [if_neg hinlined]
    exact .cons ⟨⟨eq_false_of_ne_true hinlined, Draft.names_request _ _⟩, rfl⟩ .nil

theorem whenSome_mentions {key : String} {family : Family} {value : Option Value} {ps : Properties}
    (h : whenSome key (w.constant family) value d = (.ok ps, d')) :
    w.Mentions d' (w.optionalMentions family value) (propertyOccurrences ps) := by
  cases value with
  | none =>
    cases h
    exact .nil
  | some v =>
    simp only [whenSome, Edit.bind_eq_ok_iff, Edit.pure_eq_ok_iff] at h
    obtain ⟨e, d₁, he, rfl, rfl⟩ := h
    have happend := (constant_mentions he).append .nil
    rwa [List.append_nil] at happend

/-- The name that a reference is given stands for the declaration. -/
theorem names_of_reference {typeName referrer : String} {r : String × ImportPath}
    (h : w.reference typeName referrer d = (.ok r, d')) :
    (Mention.declaration typeName).SpelledAs w d' r.1 := by
  cases hx : w.registry.declared? typeName with
  | none =>
    simp only [reference, hx, Edit.bind_eq_ok_iff] at h
    obtain ⟨_, _, _, h⟩ := h
    exact absurd h Edit.not_fail_eq_ok
  | some x =>
    simp only [reference, hx] at h
    obtain ⟨l, d₁, hl, h⟩ := Edit.bind_eq_ok_iff.mp h
    obtain ⟨file, _, ⟨⟩, h⟩ := Edit.bind_eq_ok_iff.mp h
    obtain ⟨_, d₂, ht, h⟩ := Edit.bind_eq_ok_iff.mp h
    cases hl
    cases ht
    cases h
    exact ⟨x, hx, (Draft.Leads.refl.tell _).names (Draft.names_request d x.symbol)⟩

theorem messageFunction_mentions {typeName referrer : String} {e : Expr}
    (h : w.messageFunction typeName referrer d = (.ok e, d')) :
    w.Mentions d' [.declaration typeName] e.occurrences := by
  simp only [messageFunction, Edit.bind_eq_ok_iff, Edit.pure_eq_ok_iff] at h
  obtain ⟨r, d₁, hr, rfl, rfl⟩ := h
  exact .cons ⟨names_of_reference hr, rfl⟩ .nil

theorem enumFunction_mentions {typeName referrer : String} {stem : Option String} {e : Expr}
    (h : w.enumFunction typeName stem referrer d = (.ok e, d')) :
    w.Mentions d' [.declaration typeName] e.occurrences := by
  simp only [enumFunction, Edit.bind_eq_ok_iff, Edit.pure_eq_ok_iff] at h
  obtain ⟨r, d₁, hr, rfl, rfl⟩ := h
  have hfirst : w.Mentions d₁ [.declaration typeName] [⟨r.1, true⟩] :=
    .cons ⟨names_of_reference hr, rfl⟩ .nil
  cases stem with
  | none => exact hfirst
  | some s => by_cases hs : s = "" <;> simpa [Expr.occurrences, Expr.occurrencesIn,
      Expr.occurrencesInAll, hs] using hfirst

/-! ## Kinds and fields -/

theorem kindProperties_mentions {referrer : String} {k : FieldKind} {ps : Properties}
    (h : w.kindProperties referrer k d = (.ok ps, d')) :
    w.Mentions d' (w.kindMentions k) (propertyOccurrences ps) := by
  induction k generalizing d d' ps with
  | scalar type long =>
    simp only [kindProperties, Edit.bind_eq_ok_iff, Edit.pure_eq_ok_iff] at h
    obtain ⟨t, d₁, ht, l, d₂, hl, rfl, rfl⟩ := h
    have hleads : d₁.Leads d₂ := (w.whenSome_leads _ _ _).of_ok hl
    exact ((constant_mentions ht).leads hleads).append (whenSome_mentions hl)
  | enumeration typeName stem =>
    simp only [kindProperties, Edit.bind_eq_ok_iff, Edit.pure_eq_ok_iff] at h
    obtain ⟨t, d₁, ht, rfl, rfl⟩ := h
    exact (enumFunction_mentions ht).append .nil
  | message typeName =>
    simp only [kindProperties, Edit.bind_eq_ok_iff, Edit.pure_eq_ok_iff] at h
    obtain ⟨t, d₁, ht, rfl, rfl⟩ := h
    exact (messageFunction_mentions ht).append .nil
  | map key value ih =>
    simp only [kindProperties, Edit.bind_eq_ok_iff] at h
    obtain ⟨k, d₁, hk, h⟩ := h
    split at h
    · exact absurd h Edit.not_fail_eq_ok
    · simp only [Edit.bind_eq_ok_iff, Edit.pure_eq_ok_iff] at h
      obtain ⟨qs, d₂, hqs, rfl, rfl⟩ := h
      have hleads : d₁.Leads d₂ := (w.kindProperties_leads _ _).of_ok hqs
      have hvalue : w.Mentions d₂ (w.kindMentions value) (propertyOccurrences qs ++ []) := by
        rw [List.append_nil]
        exact ih hqs
      exact ((constant_mentions hk).leads hleads).append hvalue

theorem minimizedProperties_mentions {i : FieldInfo} {ps : Properties}
    (h : w.minimizedProperties i d = (.ok ps, d')) :
    w.Mentions d' (w.mentions i) (propertyOccurrences ps) := by
  simp only [minimizedProperties, Edit.bind_eq_ok_iff, Edit.pure_eq_ok_iff,
    Edit.ofExcept_eq_ok_iff] at h
  obtain ⟨_, _, _, number, d₁, ⟨hnumber, rfl⟩, repetition, d₂, hrepetition, kind, d₃, hkind,
    options, _, ⟨hoptions, rfl⟩, rfl, rfl⟩ := h
  have hhead : propertyOccurrences
      [("no", number), ("name", .text i.name), ("kind", .text i.kind.word)] =
      List.replicate i.number.nulls ⟨"null", false⟩ := by
    rw [propertyOccurrences_cons]
    exact (List.append_nil _).trans (Expr.occurrencesIn_ofValue _ hnumber false)
  have hleads : d₂.Leads d₃ := (w.kindProperties_leads _ _).of_ok hkind
  simp only [propertyOccurrences_append, hhead, propertyOccurrences_text, propertyOccurrences_bool,
    List.append_nil, propertyOccurrences_options hoptions]
  exact (((Mentions.nothing _).append ((whenSome_mentions hrepetition).leads hleads)).append
    (kindProperties_mentions hkind)).append (Mentions.nothing _)

/-- The identifiers of a field literal are written for its mentions one by one.  The declaration that
the field refers to is mentioned, and exactly the identifier for it is deferred.  All others are the
word `null` or, where constants are qualified, names for enumerations of the runtime. -/
theorem literal_defers {i : FieldInfo} {e : Expr} (h : w.literal i d = (.ok e, d')) :
    List.Forall₂ (fun (m : Mention) (o : Occurrence) =>
        m.SpelledAs w d' o.name ∧ o.deferred = m.isDeclaration)
      (w.mentions i.minimized) e.occurrences ∧
      (∀ t, .declaration t ∈ w.mentions i.minimized ↔ i.kind.typeName? = some t) ∧
      ∀ o ∈ e.occurrences, o.deferred = false → o.name = "null" ∨
        w.inlined = false ∧ ∃ family : Family, d'.Names ⟨w.runtime, family.name⟩ o.name := by
  simp only [literal, Edit.bind_eq_ok_iff, Edit.pure_eq_ok_iff] at h
  obtain ⟨ps, d₁, hps, rfl, rfl⟩ := h
  have hmentions : w.Mentions d₁ (w.mentions i.minimized) (propertyOccurrences ps) :=
    minimizedProperties_mentions hps
  refine ⟨hmentions, fun t => declaration_mem_mentions_iff, fun o ho heager => ?_⟩
  obtain ⟨m, _, hname, hdeferred⟩ := Related.exists_left hmentions ho
  cases m with
  | nothing => exact .inl hname
  | constants family => exact .inr ⟨hname.1, family, hname.2⟩
  | declaration t =>
    rw [heager] at hdeferred
    cases hdeferred

/-- Information about a map of messages, with an option in which nothing stands. -/
def optionalTrees : FieldInfo where
  number := .scalar (.int 3)
  name := "trees"
  kind := .map (.scalar (.int 9)) (.message "p.Tree")
  localName := none
  jsonName := none
  oneof := none
  repetition := none
  optional := none
  options := some [(.text "extra", .list [.scalar .null])]

/-- The messages of a map are deferred in a module that has their name for something else. -/
theorem literal_defers_of_optionalTrees :
    let w : Writer := ⟨Schema.sampleSchema.registry, Config.defaultRuntime, false⟩
    ∃ e d', w.literal optionalTrees ((Draft.new "other.ts" ⟨"./other"⟩).reserve "Tree") =
        (.ok e, d') ∧
      e.occurrences = [⟨"ScalarType", false⟩, ⟨"Tree$", true⟩, ⟨"null", false⟩] ∧
      List.Forall₂ (fun (m : Mention) (o : Occurrence) =>
          m.SpelledAs w d' o.name ∧ o.deferred = m.isDeclaration)
        [.constants .scalarType, .declaration "p.Tree", .nothing] e.occurrences := by
  intro w
  let d := (Draft.new "other.ts" ⟨"./other"⟩).reserve "Tree"
  obtain ⟨e, d', hrun⟩ : ∃ e d', w.literal optionalTrees d = (.ok e, d') :=
    Edit.exists_of_isOk (by decide +kernel)
  have hoccurrences : (w.literal optionalTrees d).1.toOption.map Expr.occurrences =
      some [⟨"ScalarType", false⟩, ⟨"Tree$", true⟩, ⟨"null", false⟩] := by
    decide +kernel
  have hmentions : w.mentions optionalTrees.minimized =
      [.constants .scalarType, .declaration "p.Tree", .nothing] := by
    decide +kernel
  rw [hrun] at hoccurrences
  have hwritten := (literal_defers hrun).1
  rw [hmentions] at hwritten
  exact ⟨e, d', hrun, Option.some.inj hoccurrences, hwritten⟩

end Writer

end FieldInfo

end SchemaScript
