import SchemaScript.Config
import SchemaScript.FieldInfo.Literal
import SchemaScript.Proofs.Draft.Requests

/-!
# Literals that fail

What is left behind by a field whose literal cannot be written.

`Writer.demands` lists what the parts of a literal ask of the module, in order: the check of the
kind, the number, the repetition, the properties of the kind, and the options.  A constant asks for
its enumeration where constants are qualified, a reference asks for its declaration, and a part
fails if its constant is no member, its declaration is not found, or its value has no literal.

The check comes first, so an unresolved reference leaves nothing behind.  Any later failure leaves
what was asked for before it.  A repetition is imported before a wrong scalar type is found, and a
referenced message before a wrong option (`Writer.literal_failure`).
-/

namespace SchemaScript.FieldInfo.Writer

open Edit (Demands)

/-! ## Constants -/

/-- What a runtime constant asks for. -/
def constantDemands (w : Writer) (family : Family) (value : Value) : List Demand :=
  [.ofExcept (memberOf family value)] ++
    if w.inlined then [] else [.names [⟨w.runtime, family.name⟩]]

/-- What a runtime constant asks for if there is one. -/
def optionalDemands (w : Writer) (family : Family) : Option Value → List Demand
  | none => []
  | some value => w.constantDemands family value

theorem constant_demands (w : Writer) (family : Family) (value : Value) :
    (w.constant family value).Demands (w.constantDemands family value) := by
  rw [constant, constantDemands]
  refine (Demands.ofExcept (memberOf family value)).bind fun c => ?_
  by_cases hinlined : w.inlined = true
  · rw [if_pos hinlined, if_pos hinlined]
    exact .pure _
  · rw [if_neg hinlined, if_neg hinlined]
    exact (Demands.request _).map _

theorem whenSome_demands (w : Writer) (key : String) (family : Family) (value : Option Value) :
    (whenSome key (w.constant family) value).Demands (w.optionalDemands family value) := by
  cases value with
  | none => exact .pure _
  | some v => exact (w.constant_demands family v).map _

/-! ## Kinds -/

/-- What the check of a reference asks for: no name, but it can fail. -/
def checkedDemands (w : Writer) (typeName : String) : List Demand :=
  match w.registry.declared? typeName with
  | some _ => []
  | none => [.failure]

/-- What the check of a kind that is no map asks for. -/
def checkedValueDemands (w : Writer) : FieldKind → List Demand
  | .enumeration typeName _ => w.checkedDemands typeName
  | .message typeName => w.checkedDemands typeName
  | _ => []

/-- What the check of a kind asks for. -/
def checkedKindDemands (w : Writer) : FieldKind → List Demand
  | .map _ value => if value.isMap then [.failure] else w.checkedValueDemands value
  | kind => w.checkedValueDemands kind

/-- What a reference asks for. -/
def referenceDemands (w : Writer) (typeName : String) : List Demand :=
  match w.registry.declared? typeName with
  | some declared => [.names [declared.symbol]]
  | none => [.failure]

/-- What the properties of a kind ask for. -/
def kindDemands (w : Writer) : FieldKind → List Demand
  | .scalar type long => w.constantDemands .scalarType type ++ w.optionalDemands .longType long
  | .enumeration typeName _ => w.referenceDemands typeName
  | .message typeName => w.referenceDemands typeName
  | .map key value =>
    w.constantDemands .scalarType key ++ if value.isMap then [.failure] else w.kindDemands value

theorem checkReference_demands (w : Writer) (typeName referrer : String) :
    (w.checkReference typeName referrer).Demands (w.checkedDemands typeName) := by
  unfold checkReference checkedDemands
  cases w.registry.declared? typeName with
  | some declared => exact .pure _
  | none => exact (Demands.view _).bind fun file => .fail _

theorem checkValueKind_demands (w : Writer) (referrer : String) (kind : FieldKind) :
    (w.checkValueKind referrer kind).Demands (w.checkedValueDemands kind) := by
  cases kind with
  | enumeration typeName stem => exact w.checkReference_demands typeName referrer
  | message typeName => exact w.checkReference_demands typeName referrer
  | scalar type long => exact .pure _
  | map key value => exact .pure _

theorem checkKind_demands (w : Writer) (referrer : String) (kind : FieldKind) :
    (w.checkKind referrer kind).Demands (w.checkedKindDemands kind) := by
  cases kind with
  | map key value =>
    rw [checkKind, checkedKindDemands]
    by_cases hmap : value.isMap = true
    · rw [if_pos hmap, if_pos hmap]
      exact .fail _
    · rw [if_neg hmap, if_neg hmap]
      exact w.checkValueKind_demands referrer value
  | scalar type long => exact w.checkValueKind_demands referrer (.scalar type long)
  | enumeration typeName stem =>
    exact w.checkValueKind_demands referrer (.enumeration typeName stem)
  | message typeName => exact w.checkValueKind_demands referrer (.message typeName)

/-- A check asks for no name. -/
theorem granted_checkedKindDemands (w : Writer) (kind : FieldKind) :
    Demand.granted (w.checkedKindDemands kind) = [] := by
  have hreference (typeName : String) : Demand.granted (w.checkedDemands typeName) = [] := by
    unfold checkedDemands
    split <;> rfl
  have hvalue (kind : FieldKind) : Demand.granted (w.checkedValueDemands kind) = [] := by
    cases kind with
    | enumeration typeName stem => exact hreference typeName
    | message typeName => exact hreference typeName
    | scalar type long => rfl
    | map key value => rfl
  cases kind with
  | map key value =>
    rw [checkedKindDemands]
    split
    · rfl
    · exact hvalue value
  | scalar type long => exact hvalue (.scalar type long)
  | enumeration typeName stem => exact hvalue (.enumeration typeName stem)
  | message typeName => exact hvalue (.message typeName)

theorem reference_demands (w : Writer) (typeName referrer : String) :
    (w.reference typeName referrer).Demands (w.referenceDemands typeName) := by
  unfold reference referenceDemands
  cases w.registry.declared? typeName with
  | none => exact (Demands.view _).bind fun file => .fail _
  | some declared =>
    refine (Demands.request declared.symbol).bind fun localName => ?_
    refine (Demands.view _).bind fun file => ?_
    exact (Demands.tell _).map _

theorem kindProperties_demands (w : Writer) (referrer : String) (kind : FieldKind) :
    (w.kindProperties referrer kind).Demands (w.kindDemands kind) := by
  induction kind with
  | scalar type long =>
    refine (w.constant_demands .scalarType type).bind fun t => ?_
    exact (w.whenSome_demands "L" .longType long).map _
  | enumeration typeName stem =>
    exact ((w.reference_demands typeName referrer).map _).map _
  | message typeName =>
    exact ((w.reference_demands typeName referrer).map _).map _
  | map key value ih =>
    rw [kindProperties, kindDemands]
    refine (w.constant_demands .scalarType key).bind fun k => ?_
    by_cases hmap : value.isMap = true
    · rw [if_pos hmap, if_pos hmap]
      exact .fail _
    · rw [if_neg hmap, if_neg hmap]
      exact ih.map _

/-! ## Fields -/

/-- What the literal for minimized information asks for. -/
def demands (w : Writer) (i : FieldInfo) : List Demand :=
  w.checkedKindDemands i.kind ++ ([.ofExcept (Expr.ofValue i.number)] ++
    (w.optionalDemands .repeatType i.repetition ++ (w.kindDemands i.kind ++
      [.ofExcept (optionsProperty i.options)])))

theorem minimizedProperties_demands (w : Writer) (i : FieldInfo) :
    (w.minimizedProperties i).Demands (w.demands i) := by
  refine (w.checkKind_demands i.name i.kind).bind fun _ => ?_
  refine (Demands.ofExcept (Expr.ofValue i.number)).bind fun number => ?_
  refine (w.whenSome_demands "repeat" .repeatType i.repetition).bind fun repetition => ?_
  refine (w.kindProperties_demands i.name i.kind).bind fun kind => ?_
  exact (Demands.ofExcept (optionsProperty i.options)).map _

theorem literal_demands (w : Writer) (i : FieldInfo) :
    (w.literal i).Demands (w.demands i.minimized) :=
  (w.minimizedProperties_demands i.minimized).map _

/-- The symbols that the literal for a field asks for before it fails. -/
def askedBeforeFailure (w : Writer) (i : FieldInfo) : List Symbol :=
  Demand.granted (w.demands i.minimized)

/-- A kind that does not pass its check ends the literal before anything is asked for. -/
theorem askedBeforeFailure_of_failed_check {w : Writer} {i : FieldInfo}
    (h : .failure ∈ w.checkedKindDemands i.kind) : w.askedBeforeFailure i = [] := by
  have hfirst : w.askedBeforeFailure i = Demand.granted (w.checkedKindDemands i.kind) :=
    Demand.granted_append_of_mem h _
  rw [hfirst, w.granted_checkedKindDemands i.kind]

/-- A field whose literal fails has a part that fails, and writes nothing.  It leaves the module as
the symbols make it that were asked for before the failure.  So the imports, the taken names and the
text of the module are what they were if and only if all of these symbols had names in it.  Nothing
is left behind by a kind that does not pass its check. -/
theorem literal_failure {w : Writer} {i : FieldInfo} {d d' : Draft} {cause : Error}
    (h : w.literal i d = (.error cause, d')) :
    .failure ∈ w.demands i.minimized ∧
      d'.lines = d.lines ∧ d'.mark = d.mark ∧ d'.level = d.level ∧
      d'.silent = (d.requestAll (w.askedBeforeFailure i)).silent ∧
      ((d'.imports = d.imports ∧ d'.taken = d.taken ∧ d'.content = d.content) ↔
        ∀ s ∈ w.askedBeforeFailure i, d.Knows s) ∧
      (.failure ∈ w.checkedKindDemands i.kind → d'.silent = d.silent) := by
  have hdemands := w.literal_demands i
  have hsilent : d'.silent = (d.requestAll (w.askedBeforeFailure i)).silent := by
    have hleft := hdemands.silent d
    rwa [h] at hleft
  have hgrows : d.Grows (fun _ => True) [] (d.requestAll (w.askedBeforeFailure i)) :=
    Draft.grows_requestAll d _ fun _ _ => trivial
  have hlines : d'.lines = d.lines := by
    rw [Draft.congr_of_silent Draft.lines (fun _ => rfl) hsilent, hgrows.lines, List.append_nil]
  have hmark : d'.mark = d.mark := by
    rw [Draft.congr_of_silent Draft.mark (fun _ => rfl) hsilent, hgrows.mark]
  have hlevel : d'.level = d.level := by
    rw [Draft.congr_of_silent Draft.level (fun _ => rfl) hsilent, hgrows.level]
  have hfailure : .failure ∈ w.demands i.minimized := (hdemands.fails d).mp ⟨cause, by rw [h]⟩
  refine ⟨hfailure, hlines, hmark, hlevel, hsilent, ⟨?_, ?_⟩, fun hcheck => ?_⟩
  · rintro ⟨hsame, -, -⟩
    rw [Draft.congr_of_silent Draft.imports (fun _ => rfl) hsilent] at hsame
    exact Draft.imports_requestAll_iff.mp hsame
  · intro hknown
    rw [Draft.requestAll_of_knows hknown] at hsilent
    exact ⟨Draft.congr_of_silent Draft.imports (fun _ => rfl) hsilent,
      Draft.congr_of_silent Draft.taken (fun _ => rfl) hsilent,
      Draft.congr_of_silent Draft.content (fun _ => rfl) hsilent⟩
  · rwa [askedBeforeFailure_of_failed_check hcheck] at hsilent

/-! ### A scalar type that does not exist -/

/-- A module with nothing in it but the place for its imports. -/
def emptyModule : Draft :=
  (Draft.new "main.ts" ⟨"./main"⟩).markImports

/-- Information about a field that repeats and has no scalar type. -/
def untypedTags : FieldInfo where
  number := .scalar (.int 1)
  name := "tags"
  kind := .scalar (.scalar (.int 99)) none
  localName := none
  jsonName := none
  oneof := none
  repetition := some (.scalar (.constant (.repetition .unpacked)))
  optional := none
  options := none

/-- The writer of qualified constants that knows no declaration. -/
def bareWriter : Writer :=
  ⟨Registry.empty, Config.defaultRuntime, false⟩

theorem literal_untypedTags :
    ∃ cause d', bareWriter.literal untypedTags emptyModule = (.error cause, d') := by
  have hfails : (bareWriter.literal untypedTags emptyModule).1.isOk = false := by decide +kernel
  rcases hrun : bareWriter.literal untypedTags emptyModule with ⟨cause | e, d'⟩
  · exact ⟨cause, d', rfl⟩
  · rw [hrun] at hfails
    cases hfails

/-- The literal fails on the scalar type when the enumeration of repetitions is imported already. -/
theorem literal_failure_of_untypedTags :
    ∃ cause d', bareWriter.literal untypedTags emptyModule = (.error cause, d') ∧
      d'.lines = [] ∧ emptyModule.content = "\n" ∧
      d'.content = "import \x7b RepeatType \x7d from \"@protobuf-ts/runtime\";\n" ∧
      ¬ (d'.imports = emptyModule.imports ∧ d'.taken = emptyModule.taken ∧
        d'.content = emptyModule.content) := by
  obtain ⟨cause, d', hrun⟩ := literal_untypedTags
  have hasked : bareWriter.askedBeforeFailure untypedTags =
      [⟨Config.defaultRuntime, "RepeatType"⟩] := by
    decide +kernel
  have hnew : ¬ emptyModule.Knows ⟨Config.defaultRuntime, "RepeatType"⟩ := by decide +kernel
  have hcontent : (emptyModule.requestAll [⟨Config.defaultRuntime, "RepeatType"⟩]).content =
      "import \x7b RepeatType \x7d from \"@protobuf-ts/runtime\";\n" := by
    decide +kernel
  obtain ⟨-, hlines, -, -, hsilent, hsame, -⟩ := literal_failure hrun
  rw [hasked] at hsilent hsame
  refine ⟨cause, d', hrun, hlines, by decide +kernel, ?_, fun h => ?_⟩
  · rw [Draft.congr_of_silent Draft.content (fun _ => rfl) hsilent, hcontent]
  · exact hnew (hsame.mp h _ List.mem_cons_self)

/-- A field that fails does not always leave the module as it was. -/
theorem not_unchanged_of_literal_failure :
    ¬ ∀ (w : Writer) (i : FieldInfo) (d d' : Draft) (cause : Error),
      w.literal i d = (.error cause, d') →
        d'.imports = d.imports ∧ d'.taken = d.taken ∧ d'.lines = d.lines ∧
          d'.content = d.content := by
  intro hall
  obtain ⟨cause, d', hrun⟩ := literal_untypedTags
  have hcontent :
      (bareWriter.literal untypedTags emptyModule).2.content ≠ emptyModule.content := by
    decide +kernel
  obtain ⟨-, -, -, hsame⟩ := hall _ _ _ _ _ hrun
  rw [hrun] at hcontent
  exact hcontent hsame

end SchemaScript.FieldInfo.Writer
