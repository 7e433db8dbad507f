import SchemaScript.Config
import SchemaScript.Proofs.Table

/-!
# Parameters in any order

What the parameters of a run make, in terms of which pairs there are.

Pairs are read one after the other, and what an earlier pair chose is kept while the later ones are
read.  Only the two long types look at it: whichever of them comes second is refused.  So that a
list of pairs is acceptable (`Acceptable`) does not speak of an order, and neither do the choices
that its pairs make (`chosen`).

`take_chosen` is the step.  On the choices of acceptable pairs one more pair is taken if the pairs
are acceptable with it, and refused with what is wrong with it (`Amiss`) if not.  `takeAll_chosen`
is the run, from any acceptable pairs that were taken before.
-/

namespace SchemaScript

namespace Config

/-- Pairs of a name and a value. -/
abbrev Pairs := List (String × String)

variable {before after ps qs : Pairs} {name value : String} {pair : String × String}

/-! ## Acceptable pairs -/

/-- The names of parameters. -/
def knownNames : List String :=
  ["runtime_import_path", "type_enums", "long_type_string", "long_type_number", "log_level"]

/-- Pairs that make a configuration. -/
structure Acceptable (ps : Pairs) : Prop where
  /-- Every name is known. -/
  known : ∀ pair ∈ ps, pair.1 ∈ knownNames
  /-- The import path is not empty. -/
  path : ∀ value, ("runtime_import_path", value) ∈ ps → value ≠ ""
  /-- There is a mode of the name that is given. -/
  mode : ∀ value, ("type_enums", value) ∈ ps → value = "inline" ∨ value = "qualified"
  /-- There is a level of the name that is given. -/
  level : ∀ value, ("log_level", value) ∈ ps → ∃ level, Level.ofWord? value = some level
  /-- Not both long types are chosen. -/
  long : ¬ ("long_type_string" ∈ ps.map Prod.fst ∧ "long_type_number" ∈ ps.map Prod.fst)

theorem acceptable_nil : Acceptable [] := by
  constructor <;> simp

/-- Only which pairs there are counts, and fewer are acceptable too. -/
theorem Acceptable.of_subset (h : Acceptable qs) (hsub : ps ⊆ qs) : Acceptable ps where
  known pair hmem := h.known pair (hsub hmem)
  path value hmem := h.path value (hsub hmem)
  mode value hmem := h.mode value (hsub hmem)
  level value hmem := h.level value (hsub hmem)
  long hboth := h.long ⟨List.map_subset _ hsub hboth.1, List.map_subset _ hsub hboth.2⟩

/-! ## What is wrong with a pair -/

/-- What is wrong with a pair after others. -/
inductive Amiss (before : Pairs) : String → String → ParameterFault → Prop where
  | empty : Amiss before "runtime_import_path" "" .empty
  | mode (value : String) (h : ¬ (value = "inline" ∨ value = "qualified")) :
    Amiss before "type_enums" value .notTypeEnumMode
  | string (value : String) (h : "long_type_number" ∈ before.map Prod.fst) :
    Amiss before "long_type_string" value .secondLongType
  | number (value : String) (h : "long_type_string" ∈ before.map Prod.fst) :
    Amiss before "long_type_number" value .secondLongType
  | level (value : String) (h : Level.ofWord? value = none) :
    Amiss before "log_level" value .notLogLevel
  | unknown (name value : String) (h : name ∉ knownNames) : Amiss before name value .unknown

theorem Amiss.not_acceptable {fault : ParameterFault} (h : Amiss before name value fault) :
    ¬ Acceptable (before ++ [(name, value)]) := by
  intro hacc
  have hlast : (name, value) ∈ before ++ [(name, value)] :=
    List.mem_append_right _ (List.mem_singleton.mpr rfl)
  cases h with
  | empty => exact hacc.path "" hlast rfl
  | mode _ h => exact h (hacc.mode value hlast)
  | string _ h => exact hacc.long (by simp [h])
  | number _ h => exact hacc.long (by simp [h])
  | level _ h =>
    obtain ⟨level, hlevel⟩ := hacc.level value hlast
    rw [h] at hlevel
    cases hlevel
  | unknown _ _ h => exact h (hacc.known _ hlast)

/-! ## The choices of acceptable pairs -/

/-- The long type of which a name is given. -/
def longOf? (names : List String) : Option LongType :=
  if "long_type_string" ∈ names then some .string
  else if "long_type_number" ∈ names then some .number
  else none

/-- The choices that pairs make. -/
def chosen (ps : Pairs) : Choices where
  runtime := ps.lookup "runtime_import_path"
  inlined := (ps.lookup "type_enums").map fun value => decide (value = "inline")
  long := longOf? (ps.map Prod.fst)
  level := (ps.lookup "log_level").bind Level.ofWord?

theorem isSome_longOf? {names : List String} :
    (longOf? names).isSome ↔ "long_type_string" ∈ names ∨ "long_type_number" ∈ names := by
  unfold longOf?
  split
  · simp [*]
  · split <;> simp [*]

/-- Another name chooses no long type. -/
theorem longOf?_concat {names : List String} (hstring : name ≠ "long_type_string")
    (hnumber : name ≠ "long_type_number") : longOf? (names ++ [name]) = longOf? names := by
  simp only [longOf?, List.mem_append, List.mem_singleton, hstring.symm, hnumber.symm, or_false]

/-- A new pair at the end counts where the pairs before it have no value. -/
theorem lookup_concat (hnew : name ∉ before.map Prod.fst) (key : String) :
    (before ++ [(name, value)]).lookup key =
      if key = name then some value else before.lookup key := by
  rw [List.lookup_append]
  split
  · next heq =>
    subst heq
    have hnone : before.lookup key = none := by
      rw [List.lookup_eq_none_iff]
      intro pair hpair
      rw [bne_iff_ne]
      rintro rfl
      exact hnew (List.mem_map_of_mem hpair)
    simp [hnone]
  · next hne =>
    have hkey : (key == name) = false := beq_false_of_ne hne
    simp [List.lookup_cons, hkey]

theorem Acceptable.concat (h : Acceptable before) (hok : ∀ fault, ¬ Amiss before name value fault) :
    Acceptable (before ++ [(name, value)]) := by
  have last {pair : String × String} (hmem : pair ∈ before ++ [(name, value)]) :
      pair ∈ before ∨ pair = (name, value) := by simpa using hmem
  constructor
  case known =>
    intro pair hmem
    rcases last hmem with hmem | rfl
    · exact h.known pair hmem
    · exact Decidable.byContradiction fun hname => hok _ (.unknown _ _ hname)
  case path =>
    intro v hmem hempty
    rcases last hmem with hmem | heq
    · exact h.path v hmem hempty
    · cases heq
      subst hempty
      exact hok _ .empty
  case mode =>
    intro v hmem
    rcases last hmem with hmem | heq
    · exact h.mode v hmem
    · cases heq
      exact Decidable.byContradiction fun hmode => hok _ (.mode _ hmode)
  case level =>
    intro v hmem
    rcases last hmem with hmem | heq
    · exact h.level v hmem
    · cases heq
      cases hlevel : Level.ofWord? value with
      | none => exact absurd (.level _ hlevel) (hok _)
      | some level => exact ⟨level, rfl⟩
  case long =>
    rw [List.map_append, List.mem_append, List.mem_append]
    rintro ⟨hstring | hstring, hnumber | hnumber⟩
    · exact h.long ⟨hstring, hnumber⟩
    · cases List.mem_singleton.mp hnumber
      exact hok _ (.number _ hstring)
    · cases List.mem_singleton.mp hstring
      exact hok _ (.string _ hnumber)
    · exact absurd ((List.mem_singleton.mp hstring).trans (List.mem_singleton.mp hnumber).symm)
        (by decide)

/-- A pair that is amiss is refused for that. -/
theorem take_of_amiss {fault : ParameterFault} (h : Amiss before name value fault) :
    (chosen before).take name value = .error fault := by
  have second (l : LongType) (hsome : (longOf? (before.map Prod.fst)).isSome) :
      (chosen before).chooseLong l = .error .secondLongType := if_pos hsome
  cases h with
  | empty => rfl
  | mode _ h =>
    rw [not_or] at h
    simp [Choices.take, h]
  | string _ h => exact second _ (isSome_longOf?.mpr (.inr h))
  | number _ h => exact second _ (isSome_longOf?.mpr (.inl h))
  | level _ h => simp [Choices.take, h]
  | unknown _ _ h =>
    simp only [knownNames, List.mem_cons, List.not_mem_nil, or_false, not_or] at h
    simp [Choices.take, h]

/-- A new pair that is not amiss is taken. -/
theorem take_of_not_amiss (hnew : name ∉ before.map Prod.fst)
    (hok : ∀ fault, ¬ Amiss before name value fault) :
    (chosen before).take name value = .ok (chosen (before ++ [(name, value)])) := by
  have hknown : name ∈ knownNames :=
    Decidable.byContradiction fun hname => hok _ (.unknown _ _ hname)
  simp only [chosen, lookup_concat hnew, List.map_append, List.map_singleton]
  simp only [knownNames, List.mem_cons, List.not_mem_nil, or_false] at hknown
  rcases hknown with rfl | rfl | rfl | rfl | rfl
  · have hvalue : value ≠ "" := by
      rintro rfl
      exact hok _ .empty
    simp [Choices.take, hvalue, longOf?_concat]
  · have hmode : value = "inline" ∨ value = "qualified" :=
      Decidable.byContradiction fun hmode => hok _ (.mode _ hmode)
    rcases hmode with rfl | rfl <;> simp [Choices.take, longOf?_concat]
  · have hnumber : "long_type_number" ∉ before.map Prod.fst := fun h => hok _ (.string _ h)
    have hnone : longOf? (before.map Prod.fst) = none := by simp [longOf?, hnew, hnumber]
    have hsome : longOf? (before.map Prod.fst ++ ["long_type_string"]) = some .string := by
      simp [longOf?]
    simp [Choices.take, Choices.chooseLong, hnone, hsome]
  · have hstring : "long_type_string" ∉ before.map Prod.fst := fun h => hok _ (.number _ h)
    have hnone : longOf? (before.map Prod.fst) = none := by simp [longOf?, hnew, hstring]
    have hsome : longOf? (before.map Prod.fst ++ ["long_type_number"]) = some .number := by
      simp [longOf?, hstring]
    simp [Choices.take, Choices.chooseLong, hnone, hsome]
  · cases hlevel : Level.ofWord? value with
    | none => exact absurd (.level _ hlevel) (hok _)
    | some level => simp [Choices.take, hlevel, longOf?_concat]

/-! ## All pairs -/

/-- The pair at which pairs stop being acceptable, and what is wrong with it. -/
structure FirstAmiss (ps before : Pairs) (pair : String × String) (fault : ParameterFault) : Prop where
  /-- Where the pair stands. -/
  split : ∃ after, ps = before ++ pair :: after
  /-- The pairs up to a place are acceptable if the pair is not among them, and only then. -/
  acceptable_take_iff : ∀ n, Acceptable (ps.take n) ↔ n ≤ before.length
  /-- What is wrong. -/
  amiss : Amiss before pair.1 pair.2 fault

theorem firstAmiss {fault : ParameterFault} (hbefore : Acceptable before)
    (h : Amiss before name value fault) :
    FirstAmiss (before ++ (name, value) :: after) before (name, value) fault where
  split := ⟨after, rfl⟩
  acceptable_take_iff n := by
    constructor
    · intro hacc
      refine Decidable.byContradiction fun hle => h.not_acceptable (hacc.of_subset ?_)
      have hlt : before.length < n := Nat.lt_of_not_le hle
      have hprefix : before ++ [(name, value)] <+: (before ++ (name, value) :: after).take n := by
        rw [List.prefix_take_iff, List.append_cons before _ after, List.length_append]
        exact ⟨List.prefix_append (before ++ [(name, value)]) after, hlt⟩
      exact hprefix.subset
    · intro hle
      rw [List.take_append_of_le_length hle]
      exact hbefore.of_subset (List.take_subset _ _)
  amiss := h

/-- There is one such pair, and one thing wrong with it. -/
theorem FirstAmiss.unique {before' : Pairs} {pair' : String × String} {fault fault' : ParameterFault}
    (h : FirstAmiss ps before pair fault) (h' : FirstAmiss ps before' pair' fault') :
    pair = pair' ∧ fault = fault' := by
  have hlength : before.length = before'.length := by
    refine Nat.le_antisymm ?_ ?_
    · exact (h'.acceptable_take_iff _).mp ((h.acceptable_take_iff _).mpr (Nat.le_refl _))
    · exact (h.acceptable_take_iff _).mp ((h'.acceptable_take_iff _).mpr (Nat.le_refl _))
  obtain ⟨after, hsplit⟩ := h.split
  obtain ⟨after', hsplit'⟩ := h'.split
  obtain ⟨rfl, hrest⟩ := List.append_inj (hsplit.symm.trans hsplit') hlength
  obtain ⟨rfl, -⟩ := List.cons.inj hrest
  have herror := (take_of_amiss h.amiss).symm.trans (take_of_amiss h'.amiss)
  exact ⟨rfl, Except.error.inj herror⟩

theorem FirstAmiss.not_acceptable {fault : ParameterFault} (h : FirstAmiss ps before pair fault) :
    ¬ Acceptable ps := by
  intro hacc
  have hle := (h.acceptable_take_iff (before.length + 1)).mp (hacc.of_subset (List.take_subset _ _))
  omega

/-- Pairs are taken up to the first that is amiss. -/
theorem takeAll_chosen (hbefore : Acceptable before) (hnodup : ((before ++ ps).map Prod.fst).Nodup) :
    (Acceptable (before ++ ps) ∧
        (chosen before).takeAll ps = .ok (chosen (before ++ ps))) ∨
      ∃ taken pair fault, FirstAmiss (before ++ ps) taken pair fault ∧
        (chosen before).takeAll ps = .error (.invalidParameter pair.1 pair.2 fault) := by
  induction ps generalizing before with
  | nil => exact .inl ⟨by simpa using hbefore, by simp [Choices.takeAll]⟩
  | cons pair rest ih =>
    obtain ⟨name, value⟩ := pair
    have hnew : name ∉ before.map Prod.fst := by
      rw [List.map_append, List.nodup_append] at hnodup
      intro hmem
      exact hnodup.2.2 name hmem name (by simp) rfl
    by_cases hfault : ∃ fault, Amiss before name value fault
    · obtain ⟨fault, hfault⟩ := hfault
      refine .inr ⟨before, (name, value), fault, firstAmiss hbefore hfault, ?_⟩
      simp only [Choices.takeAll, take_of_amiss hfault]
    · have hok : ∀ fault, ¬ Amiss before name value fault := fun fault h => hfault ⟨fault, h⟩
      simp only [Choices.takeAll, take_of_not_amiss hnew hok]
      rw [List.append_cons] at hnodup ⊢
      exact ih (hbefore.concat hok) hnodup

/-! ## Parameters -/

/-- The choices depend only on which pairs there are. -/
theorem chosen_perm {p q : Parameters} (hkeys : p.keys.Nodup) (h : q.entries.Perm p.entries) :
    chosen q.entries = chosen p.entries := by
  have hkeysperm : q.keys.Perm p.keys := h.map Prod.fst
  have hlookup (key : String) : q.entries.lookup key = p.entries.lookup key := by
    refine Option.ext fun value => ?_
    have hq : q.entries.lookup key = some value ↔ (key, value) ∈ q.entries :=
      Table.get?_eq_some_iff (hkeysperm.nodup_iff.mpr hkeys)
    have hp : p.entries.lookup key = some value ↔ (key, value) ∈ p.entries :=
      Table.get?_eq_some_iff hkeys
    exact hq.trans (h.mem_iff.trans hp.symm)
  have hlong : longOf? q.keys = longOf? p.keys := by
    simp only [longOf?, hkeysperm.mem_iff]
  simp only [chosen, hlookup]
  exact congrArg (fun long => Choices.mk _ _ long _) hlong

/-- What parameters make, whatever their order. -/
structure Determined (p : Parameters) : Prop where
  /-- Acceptable parameters make a configuration, and no others. -/
  ok_iff : (∃ c, ofParameters p = .ok c) ↔ Acceptable p.entries
  /-- In every order of the pairs it is the same one. -/
  perm : ∀ c, ofParameters p = .ok c →
    ∀ q : Parameters, q.entries.Perm p.entries → ofParameters q = .ok c
  /-- The import path is the one that is given, or the default. -/
  runtime : ∀ c, ofParameters p = .ok c →
    c.runtime = ((p.get? "runtime_import_path").map ImportPath.mk).getD default.runtime
  /-- The mode is the one that is given, or the default. -/
  inlined : ∀ c, ofParameters p = .ok c →
    c.inlined = ((p.get? "type_enums").map fun value => decide (value = "inline")).getD
      default.inlined
  /-- The long type is the one of which a name is given, or the default. -/
  normalLong : ∀ c, ofParameters p = .ok c → c.normalLong = (longOf? p.keys).getD default.normalLong
  /-- The level is the one that is given, or the default. -/
  level : ∀ c, ofParameters p = .ok c →
    c.level = ((p.get? "log_level").bind Level.ofWord?).getD default.level
  /-- Otherwise the first pair is blamed with which the pairs are not acceptable. -/
  error_iff : ∀ e, ofParameters p = .error e ↔
    ∃ before pair fault, FirstAmiss p.entries before pair fault ∧
      e = .invalidParameter pair.1 pair.2 fault

/-- Parameters make what their pairs choose, or blame the first pair that is amiss. -/
theorem ofParameters_cases {p : Parameters} (hkeys : p.keys.Nodup) :
    (Acceptable p.entries ∧ ofParameters p = .ok (chosen p.entries).config) ∨
      ∃ before pair fault, FirstAmiss p.entries before pair fault ∧
        ofParameters p = .error (.invalidParameter pair.1 pair.2 fault) := by
  have hrun : ofParameters p = ((chosen []).takeAll p.entries).map Choices.config := rfl
  have hnodup : (([] ++ p.entries).map Prod.fst).Nodup := hkeys
  rw [hrun]
  rcases takeAll_chosen acceptable_nil hnodup with
    ⟨hacc, hok⟩ | ⟨before, pair, fault, hfirst, herror⟩
  · rw [hok]
    exact .inl ⟨hacc, rfl⟩
  · rw [herror]
    exact .inr ⟨before, pair, fault, hfirst, rfl⟩

/-- What parameters make is a matter of which pairs there are, and of their order only which of
them is blamed. -/
theorem determined (p : Parameters) (hkeys : p.keys.Nodup) : Determined p := by
  have config_of {c : Config} (h : ofParameters p = .ok c) :
      Acceptable p.entries ∧ c = (chosen p.entries).config := by
    rcases ofParameters_cases hkeys with ⟨hacc, hok⟩ | ⟨_, _, _, _, herror⟩
    · exact ⟨hacc, Except.ok.inj (h.symm.trans hok)⟩
    · rw [herror] at h
      cases h
  constructor
  case ok_iff =>
    constructor
    · rintro ⟨c, hc⟩
      exact (config_of hc).1
    · intro hacc
      rcases ofParameters_cases hkeys with ⟨_, hok⟩ | ⟨_, _, _, hfirst, _⟩
      · exact ⟨_, hok⟩
      · exact absurd hacc hfirst.not_acceptable
  case perm =>
    intro c hc q hperm
    obtain ⟨hacc, rfl⟩ := config_of hc
    have hqkeys : q.keys.Nodup := (hperm.map Prod.fst).nodup_iff.mpr hkeys
    rcases ofParameters_cases hqkeys with ⟨_, hok⟩ | ⟨_, _, _, hfirst, _⟩
    · rw [hok, chosen_perm hkeys hperm]
    · exact absurd (hacc.of_subset hperm.subset) hfirst.not_acceptable
  case runtime | inlined | normalLong | level =>
    intro c hc
    obtain ⟨_, rfl⟩ := config_of hc
    rfl
  case error_iff =>
    intro e
    rcases ofParameters_cases hkeys with ⟨hacc, hok⟩ | ⟨before, pair, fault, hfirst, herror⟩
    · rw [hok]
      constructor
      · intro h
        cases h
      · rintro ⟨_, _, _, hfirst, _⟩
        exact absurd hacc hfirst.not_acceptable
    · rw [herror]
      constructor
      · intro h
        exact ⟨before, pair, fault, hfirst, (Except.error.inj h).symm⟩
      · rintro ⟨before', pair', fault', hfirst', rfl⟩
        obtain ⟨rfl, rfl⟩ := hfirst.unique hfirst'
        rfl

/-- Parameters that make a configuration. -/
def numbersAndNotices : Parameters :=
  ⟨[("long_type_number", ""), ("log_level", "info")]⟩

/-- The same parameters with the other long type after them. -/
def secondLongType : Parameters :=
  ⟨numbersAndNotices.entries ++ [("long_type_string", "")]⟩

/-- The second long type is blamed, and without it both orders make one configuration. -/
theorem determined_secondLongType :
    secondLongType.keys.Nodup ∧
      FirstAmiss secondLongType.entries numbersAndNotices.entries ("long_type_string", "")
        .secondLongType ∧
      ofParameters secondLongType =
        .error (.invalidParameter "long_type_string" "" .secondLongType) ∧
      ofParameters ⟨numbersAndNotices.entries.reverse⟩ =
        .ok ⟨defaultRuntime, true, .number, .info⟩ := by
  have hfirst : ofParameters numbersAndNotices = .ok ⟨defaultRuntime, true, .number, .info⟩ := rfl
  have hnumbers := determined numbersAndNotices (by decide)
  have hacc : Acceptable numbersAndNotices.entries := hnumbers.ok_iff.mp ⟨_, hfirst⟩
  have hamiss : FirstAmiss secondLongType.entries numbersAndNotices.entries
      ("long_type_string", "") .secondLongType :=
    firstAmiss hacc (.string "" (by decide))
  have hkeys : secondLongType.keys.Nodup := by decide
  refine ⟨hkeys, hamiss, ?_, hnumbers.perm _ hfirst _ (List.reverse_perm _)⟩
  exact ((determined secondLongType hkeys).error_iff _).mpr ⟨_, _, _, hamiss, rfl⟩

end Config

end SchemaScript
