import Mathlib.Data.List.Infix
import SchemaScript.Proofs.Schema.Registered
import SchemaScript.Proofs.Text.Joined

/-!
# The innermost scope that knows a name

Which declaration a reference without a leading dot means in a scope.

A scope is cut at its dots and joined again from ever fewer of its components, and the reference is
put after each of the results.  What is tried in this way are exactly the scope and its beginnings
that end before a dot (`Encloses`), for a component holds no dot and what is joined of the first
components ends before one (`mem_enclosingScopes_iff`).  They are tried from the longest to the
shortest, and so are the names that are made of them (`pairwise_scopedCandidates`).

So the declaration that is found is told without the order of the tries: it is registered under a
candidate, and no longer candidate is registered (`Reaches`).  What a registration changes follows
from that.
-/

namespace SchemaScript

namespace Registry

variable {α : Type} {scope reference outer name : String} {t : Table String α}

/-! ## Scopes around a declaration -/

/-- A scope is another one, or a beginning of it that ends before a dot. -/
inductive Encloses (outer : String) : String → Prop where
  | self : Encloses outer outer
  | before (rest : String) : Encloses outer (outer ++ "." ++ rest)

/-- A text is joined of the components it is cut into. -/
theorem intercalate_components (s : String) :
    ".".intercalate ((s.toList.splitOn '.').map String.ofList) = s := by
  have hlist : ".".toList = ['.'] := rfl
  rw [← Text.ofList_intercalate, hlist, List.intercalate_splitOn, String.ofList_toList]

theorem mem_enclosingScopes {components : List String} :
    outer ∈ enclosingScopes components ↔
      ∃ kept, 0 < kept ∧ kept ≤ components.length ∧
        outer = ".".intercalate (components.take kept) := by
  simp only [enclosingScopes, List.mem_map, List.mem_range]
  constructor
  · rintro ⟨dropped, hlt, rfl⟩
    exact ⟨components.length - dropped, by omega, by omega, rfl⟩
  · rintro ⟨kept, hpos, hle, rfl⟩
    refine ⟨components.length - kept, by omega, ?_⟩
    rw [Nat.sub_sub_self hle]

/-- The scopes that are tried are those around the declaration. -/
theorem mem_enclosingScopes_iff (hscope : scope ≠ "") :
    outer ∈ enclosingScopes (scopeComponents scope) ↔ Encloses outer scope := by
  rw [scopeComponents, if_neg hscope, mem_enclosingScopes]
  constructor
  · rintro ⟨kept, hpos, hle, rfl⟩
    have hjoined := intercalate_components scope
    generalize (scope.toList.splitOn '.').map String.ofList = components at *
    rcases Nat.lt_or_eq_of_le hle with hlt | rfl
    · have htake : components.take kept ≠ [] := by
        simpa [← List.length_pos_iff] using ⟨hpos.ne', by omega⟩
      have hdrop : components.drop kept ≠ [] := by
        simpa [← List.length_pos_iff] using hlt
      rw [← hjoined]
      nth_rewrite 2 [← List.take_append_drop kept components]
      rw [String.intercalate_append_of_ne_nil htake hdrop]
      exact .before _
    · rw [List.take_length, hjoined]
      exact .self
  · intro h
    cases h with
    | self =>
      refine ⟨_, List.length_pos_of_ne_nil ?_, Nat.le_refl _, ?_⟩
      · simp
      · rw [List.take_length, intercalate_components]
    | before rest =>
      have hsplit : ((outer ++ "." ++ rest).toList.splitOn '.').map String.ofList =
          (outer.toList.splitOn '.').map String.ofList ++
            (rest.toList.splitOn '.').map String.ofList := by
        rw [String.toList_append, String.toList_append, List.append_assoc, ← List.map_append]
        exact congrArg _ (List.splitOn_append_cons_self _ _)
      rw [hsplit]
      refine ⟨((outer.toList.splitOn '.').map String.ofList).length, ?_, ?_, ?_⟩
      · exact List.length_pos_of_ne_nil (by simp)
      · rw [List.length_append]
        exact Nat.le_add_right _ _
      · rw [List.take_left, intercalate_components]

/-- What is joined of fewer components is shorter. -/
theorem length_intercalate_take_lt {components : List String} {fewer more : Nat} (hpos : 0 < fewer)
    (hlt : fewer < more) (hle : more ≤ components.length) :
    (".".intercalate (components.take fewer)).length <
      (".".intercalate (components.take more)).length := by
  have hsplit := List.take_append_drop fewer (components.take more)
  rw [List.take_take, Nat.min_eq_left hlt.le] at hsplit
  have htake : components.take fewer ≠ [] :=
    List.ne_nil_of_length_pos (by rw [List.length_take]; omega)
  have hdrop : (components.take more).drop fewer ≠ [] :=
    List.ne_nil_of_length_pos (by rw [List.length_drop, List.length_take]; omega)
  have hdot : ".".length = 1 := rfl
  rw [← hsplit, String.intercalate_append_of_ne_nil htake hdrop, String.length_append,
    String.length_append]
  omega

/-- The scopes are tried from the longest to the shortest. -/
theorem pairwise_enclosingScopes (components : List String) :
    (enclosingScopes components).Pairwise fun inner outer => outer.length < inner.length := by
  rw [enclosingScopes, List.pairwise_map]
  refine List.pairwise_lt_range.imp_of_mem ?_
  intro less more _ hmem hlt
  have hmore : more < components.length := List.mem_range.mp hmem
  exact length_intercalate_take_lt (by omega) (by omega) (Nat.sub_le _ _)

/-! ## Candidates -/

/-- A full name that a reference can mean.  The candidate of a longer scope is longer, and the
reference itself is the shortest. -/
inductive Candidate (scope reference : String) : String → Prop where
  | around (outer : String) (h : Encloses outer scope) :
    Candidate scope reference (outer ++ "." ++ reference)
  | root : Candidate scope reference reference

/-- A name is a candidate, and nothing is registered under a candidate of a longer scope. -/
structure Reaches (t : Table String α) (scope reference name : String) : Prop where
  candidate : Candidate scope reference name
  free : ∀ longer, Candidate scope reference longer → name.length < longer.length →
    t.get? longer = none

theorem mem_scopedCandidates_iff (hscope : scope ≠ "") (href : isAbsolute reference = false) :
    name ∈ scopedCandidates scope reference ↔ Candidate scope reference name := by
  simp only [scopedCandidates, href, Bool.false_eq_true, if_false, List.mem_append, List.mem_map,
    mem_enclosingScopes_iff hscope, List.mem_singleton]
  constructor
  · rintro (⟨outer, houter, rfl⟩ | rfl)
    · exact .around outer houter
    · exact .root
  · intro h
    cases h with
    | around outer h => exact .inl ⟨outer, h, rfl⟩
    | root => exact .inr rfl

/-- The candidates are tried from the longest to the shortest. -/
theorem pairwise_scopedCandidates (scope reference : String) :
    (scopedCandidates scope reference).Pairwise fun first next => next.length < first.length := by
  rw [scopedCandidates]
  split
  · exact List.pairwise_singleton _ _
  · rw [List.pairwise_append, List.pairwise_map]
    refine ⟨(pairwise_enclosingScopes _).imp ?_, List.pairwise_singleton _ _, ?_⟩
    · intro inner outer hlt
      simp only [String.length_append]
      omega
    · intro name hname last hlast
      obtain ⟨outer, _, rfl⟩ := List.mem_map.mp hname
      rw [List.mem_singleton.mp hlast]
      simp only [String.length_append]
      have hdot : ".".length = 1 := rfl
      omega

/-! ## What is found -/

/-- The first value in a list that is strictly ordered is that of an element before which no other
in the order has one. -/
theorem findSome?_eq_some_iff_of_pairwise {β : Type} {r : β → β → Prop} {f : β → Option α}
    {l : List β} (hpair : l.Pairwise r) (hirrefl : ∀ a, ¬ r a a)
    (hasymm : ∀ a b, r a b → ¬ r b a) {v : α} :
    l.findSome? f = some v ↔ ∃ a ∈ l, (∀ b ∈ l, r b a → f b = none) ∧ f a = some v := by
  rw [List.findSome?_eq_some_iff]
  constructor
  · rintro ⟨as, a, bs, rfl, hv, hnone⟩
    refine ⟨a, by simp, ?_, hv⟩
    intro b hb hba
    rw [List.pairwise_append, List.pairwise_cons] at hpair
    rcases List.mem_append.mp hb with hb | hb
    · exact hnone b hb
    · rcases List.mem_cons.mp hb with rfl | hb
      · exact absurd hba (hirrefl b)
      · exact absurd hba (hasymm a b (hpair.2.1.1 b hb))
  · rintro ⟨a, ha, hnone, hv⟩
    obtain ⟨as, bs, rfl⟩ := List.append_of_mem ha
    refine ⟨as, a, bs, rfl, hv, ?_⟩
    intro b hb
    rw [List.pairwise_append] at hpair
    exact hnone b (List.mem_append_left _ hb) (hpair.2.2 b hb a List.mem_cons_self)

/-- What the first registered candidate is registered as. -/
theorem findSome?_get?_eq_some_iff (hscope : scope ≠ "") (href : isAbsolute reference = false)
    {v : α} :
    (scopedCandidates scope reference).findSome? t.get? = some v ↔
      ∃ name, Reaches t scope reference name ∧ t.get? name = some v := by
  rw [findSome?_eq_some_iff_of_pairwise (pairwise_scopedCandidates scope reference)
    (fun a => Nat.lt_irrefl _) (fun a b => Nat.lt_asymm)]
  simp only [mem_scopedCandidates_iff hscope href]
  constructor
  · rintro ⟨name, hname, hfree, hv⟩
    exact ⟨name, ⟨hname, hfree⟩, hv⟩
  · rintro ⟨name, ⟨hname, hfree⟩, hv⟩
    exact ⟨name, hname, hfree, hv⟩

theorem findSome?_get?_eq_none_iff (hscope : scope ≠ "") (href : isAbsolute reference = false) :
    (scopedCandidates scope reference).findSome? t.get? = none ↔
      ∀ name, Candidate scope reference name → t.get? name = none := by
  simp only [List.findSome?_eq_none_iff, mem_scopedCandidates_iff hscope href]

/-! ## One more registration -/

variable {key : String} {value : α}

/-- Registering a name leaves all longer names as they were. -/
theorem get?_put_of_length_lt (h : key.length < name.length) :
    (t.put key value).get? name = t.get? name := by
  rw [Table.get?_put, if_neg]
  rintro rfl
  exact Nat.lt_irrefl _ h

theorem reaches_put_self_iff :
    Reaches (t.put key value) scope reference key ↔ Reaches t scope reference key := by
  constructor
  · intro h
    exact ⟨h.candidate, fun longer hlonger hlt =>
      get?_put_of_length_lt hlt ▸ h.free longer hlonger hlt⟩
  · intro h
    exact ⟨h.candidate, fun longer hlonger hlt =>
      (get?_put_of_length_lt hlt).trans (h.free longer hlonger hlt)⟩

/-- A registration that the reference does not reach leaves what it reaches as it was. -/
theorem reaches_put_iff (hkey : ¬ Reaches t scope reference key) {v : α} :
    Reaches (t.put key value) scope reference name ∧ (t.put key value).get? name = some v ↔
      Reaches t scope reference name ∧ t.get? name = some v := by
  constructor
  · rintro ⟨h, hv⟩
    have hne : name ≠ key := by
      rintro rfl
      exact hkey (reaches_put_self_iff.mp h)
    rw [Table.get?_put, if_neg hne] at hv
    refine ⟨⟨h.candidate, fun longer hlonger hlt => ?_⟩, hv⟩
    have hnone := h.free longer hlonger hlt
    rw [Table.get?_put] at hnone
    split at hnone
    · cases hnone
    · exact hnone
  · rintro ⟨h, hv⟩
    have hne : name ≠ key := by
      rintro rfl
      exact hkey h
    rw [Table.get?_put, if_neg hne]
    refine ⟨⟨h.candidate, fun longer hlonger hlt => ?_⟩, hv⟩
    have hlongerne : longer ≠ key := by
      rintro rfl
      exact hkey ⟨hlonger, fun longest hlongest hlt' => h.free longest hlongest (hlt.trans hlt')⟩
    rw [Table.get?_put, if_neg hlongerne]
    exact h.free longer hlonger hlt

/-! ## Messages and enums -/

/-- A reference means the declaration of the innermost scope that has one.  The answer is told for a
table of declarations, and again for the table with one more. -/
structure Innermost (t : Table String α) (fullName : α → String) (scope reference : String)
    (answer : Option α) (after : α → Option α) : Prop where
  /-- What is found is registered under the candidate of the longest scope that has one. -/
  eq_some_iff : ∀ v, answer = some v ↔
    ∃ name, Reaches t scope reference name ∧ t.get? name = some v
  /-- Nothing is found only if no candidate is registered. -/
  eq_none_iff : answer = none ↔ ∀ name, Candidate scope reference name → t.get? name = none
  /-- A further declaration is found if its name is reached. -/
  after_of_reaches : ∀ v, Reaches t scope reference (fullName v) → after v = some v
  /-- Otherwise it changes nothing. -/
  after_of_not_reaches : ∀ v, ¬ Reaches t scope reference (fullName v) → after v = answer

theorem innermost (t : Table String α) (fullName : α → String) (hscope : scope ≠ "")
    (href : isAbsolute reference = false) :
    Innermost t fullName scope reference ((scopedCandidates scope reference).findSome? t.get?)
      fun v => (scopedCandidates scope reference).findSome? (t.put (fullName v) v).get? where
  eq_some_iff _ := findSome?_get?_eq_some_iff hscope href
  eq_none_iff := findSome?_get?_eq_none_iff hscope href
  after_of_reaches v h := by
    rw [findSome?_get?_eq_some_iff hscope href]
    exact ⟨fullName v, reaches_put_self_iff.mpr h, by rw [Table.get?_put, if_pos rfl]⟩
  after_of_not_reaches v h := by
    refine Option.ext fun w => ?_
    rw [findSome?_get?_eq_some_iff hscope href, findSome?_get?_eq_some_iff hscope href]
    exact exists_congr fun name => reaches_put_iff h

/-- Both look-ups in a scope find the declaration of the innermost scope that has one. -/
theorem scoped_innermost (r : Registry) (hscope : scope ≠ "")
    (href : isAbsolute reference = false) :
    Innermost r.messages Message.fullName scope reference (r.scopedMessage? scope reference)
        (fun m => (r.add (.message m)).scopedMessage? scope reference) ∧
      Innermost r.enums Enum.fullName scope reference (r.scopedEnum? scope reference)
        (fun e => (r.add (.enum e)).scopedEnum? scope reference) :=
  ⟨innermost r.messages Message.fullName hscope href, innermost r.enums Enum.fullName hscope href⟩

/-- A message of which only the name matters. -/
def named (fullName : String) : Message where
  file := ⟨0, "a.proto", "a", "proto3", ⟨"./a"⟩, true, [], []⟩
  fullName := fullName
  symbol := ⟨⟨"./a"⟩, fullName⟩
  parent := none
  location := ⟨[], "", "", []⟩
  isMapEntry := false
  oneofs := []
  fields := []
  messages := []
  enums := []

/-- A message of a package that hides one of the same name outside of it. -/
def hidden : Registry :=
  (Registry.empty.add (.message (named "C"))).add (.message (named "a.C"))

/-- In a message of the package the reference means the message of the package, until there is one
in the message itself. -/
theorem scoped_innermost_hidden :
    "a.B" ≠ "" ∧ isAbsolute "C" = false ∧
      Reaches hidden.messages "a.B" "C" "a.C" ∧
      hidden.scopedMessage? "a.B" "C" = some (named "a.C") ∧
      (hidden.add (.message (named "C"))).scopedMessage? "a.B" "C" = some (named "a.C") ∧
      (hidden.add (.message (named "a.B.C"))).scopedMessage? "a.B" "C" = some (named "a.B.C") := by
  have hscope : "a.B" ≠ "" := by decide
  have href : isAbsolute "C" = false := by decide +kernel
  have hcandidates : scopedCandidates "a.B" "C" = ["a.B.C", "a.C", "C"] := by decide +kernel
  have candidate_iff (name : String) :
      Candidate "a.B" "C" name ↔ name = "a.B.C" ∨ name = "a.C" ∨ name = "C" := by
    rw [← mem_scopedCandidates_iff hscope href, hcandidates]
    simp
  have hlengths : "a.B.C".length = 5 ∧ "a.C".length = 3 ∧ "C".length = 1 := by decide
  have hpackage : Reaches hidden.messages "a.B" "C" "a.C" := by
    refine ⟨(candidate_iff _).mpr (.inr (.inl rfl)), fun longer hlonger hlt => ?_⟩
    rcases (candidate_iff _).mp hlonger with rfl | rfl | rfl
    · rfl
    · omega
    · omega
  have hinner : Reaches hidden.messages "a.B" "C" "a.B.C" := by
    refine ⟨(candidate_iff _).mpr (.inl rfl), fun longer hlonger hlt => ?_⟩
    rcases (candidate_iff _).mp hlonger with rfl | rfl | rfl <;> omega
  have houter : ¬ Reaches hidden.messages "a.B" "C" "C" := by
    intro h
    have hnone := h.free "a.C" ((candidate_iff _).mpr (.inr (.inl rfl))) (by omega)
    cases hnone
  have hmessages := (scoped_innermost hidden hscope href).1
  have hfound := (hmessages.eq_some_iff (named "a.C")).mpr ⟨"a.C", hpackage, rfl⟩
  refine ⟨hscope, href, hpackage, hfound, ?_, hmessages.after_of_reaches _ hinner⟩
  exact (hmessages.after_of_not_reaches _ houter).trans hfound

end Registry

end SchemaScript
