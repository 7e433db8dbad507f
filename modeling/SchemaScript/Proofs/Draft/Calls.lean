import Mathlib.Data.List.Induction
import SchemaScript.Proofs.Draft.History

/-!
# Calls on a draft

The draft that calls make is the one that their history asks for.

A call is a step that reserves a name, asks for the name of a symbol, writes a line, marks the place
of the import statements, sets the indentation, or makes other calls with the indentation moved.
`Call.history` is what calls do, in order.  A line asks for the names of the symbols in it before it
is written, also when it is never written because a part of it has no text.  Inside of an indented
row the first call that fails ends the row; outside a call that fails is passed over.

A draft *tracks* a history if its taken names, imports, lines and mark are those that the history
makes.  Each event keeps this (`Tracks.reserved`, `Tracks.requested`, `Tracks.wrote`,
`Tracks.marked`), hence each call does (`Call.tracks`), hence all of them do
(`Call.tracks_history`).
-/

namespace SchemaScript

open Draft (Piece IsFree)

/-! ## Calls and what they do -/

/-- A call on a draft. -/
inductive Call where
  | reserve (name : String)
  | request (s : Symbol)
  | write (pieces : List Piece)
  | markImports
  | setLevel (level : Int)
  | indented (width : Int) (calls : List Call)

namespace Call

mutual

/-- The step that makes a call. -/
def step : Call → Step
  | .reserve name => .reserve name
  | .request s => .request s
  | .write pieces => .write pieces
  | .markImports => .markImports
  | .setLevel level => .setLevel level
  | .indented width calls => .indented width (steps calls)

/-- The steps that make calls in order. -/
def steps : List Call → List Step
  | [] => []
  | c :: rest => step c :: steps rest

end

/-- What the pieces of a line ask for, up to the first that has no text. -/
def requestsOf (d : Draft) : List Piece → List Event
  | [] => []
  | .text _ :: rest => requestsOf d rest
  | .symbol s :: rest => .requested s (d.request s).1 :: requestsOf (d.request s).2 rest
  | .expr e :: rest =>
    match e.written "" with
    | .ok _ => requestsOf d rest
    | .error _ => []

/-- The line that pieces make up, if all of them have a text. -/
def lineOf (d : Draft) (pieces : List Piece) : List Event :=
  match d.spell pieces with
  | (.ok line, e) => [.wrote (Text.indent e.level line)]
  | (.error _, _) => []

variable (w : FieldInfo.Writer)

mutual

/-- What a call does to a draft. -/
def events : Call → Draft → List Event
  | .reserve name, _ => [.reserved name]
  | .request s, d => [.requested s (d.request s).1]
  | .write pieces, d => requestsOf d pieces ++ lineOf d pieces
  | .markImports, _ => [.marked]
  | .setLevel _, _ => []
  | .indented width calls, d =>
    if (d.level : Int) + width < 0 then []
    else eventsUntil calls { d with level := ((d.level : Int) + width).toNat }

/-- What calls in order do to a draft, up to the first that fails. -/
def eventsUntil : List Call → Draft → List Event
  | [], _ => []
  | c :: rest, d =>
    events c d ++
      match (step c).edit w d with
      | (.ok _, d) => eventsUntil rest d
      | (.error _, _) => []

end

/-- What calls in order do to a draft, where a call that fails is passed over. -/
def history : List Call → Draft → List Event
  | [], _ => []
  | c :: rest, d => events w c d ++ history rest ((step c).edit w d).2

end Call

/-! ## Tracking -/

/-- A draft is what a history makes of a draft without lines. -/
structure Tracks (path : ImportPath) (h : List Event) (d : Draft) : Prop where
  path_eq : d.path = path
  kept : Kept path h
  taken : ∀ n, n ∈ d.taken ↔ n ∈ History.taken path h
  localNames : ∀ s l, d.localName? s = some l ↔ s.module ≠ path ∧ .requested s l ∈ h
  imports : d.imports.entries = (History.modules path h).map fun m => (m, ⟨History.names path h m⟩)
  lines : d.lines = History.lines h
  mark : (d.mark = none ∧ .marked ∉ h) ∨ ∃ before after, h = before ++ .marked :: after ∧
    .marked ∉ after ∧ d.mark = some (History.lines before).length

namespace Tracks

variable {path : ImportPath} {h : List Event} {d : Draft} {s : Symbol} {l : String}

theorem new (name : String) (path : ImportPath) : Tracks path [] (Draft.new name path) where
  path_eq := rfl
  kept := .nil
  taken := fun n => Iff.rfl
  localNames := fun s l => by
    rw [Draft.localName?_eq_bind]
    simp [Draft.new, Table.empty, Table.get?]
  imports := rfl
  lines := rfl
  mark := Or.inl ⟨rfl, List.not_mem_nil⟩

/-- An event that sets no mark leaves the last mark where it is. -/
theorem mark_concat (ht : Tracks path h d) {e : Event} (he : .marked ≠ e) :
    (d.mark = none ∧ .marked ∉ h ++ [e]) ∨ ∃ before after, h ++ [e] = before ++ .marked :: after ∧
      .marked ∉ after ∧ d.mark = some (History.lines before).length := by
  rcases ht.mark with ⟨hnone, hnot⟩ | ⟨before, after, heq, hnot, hmark⟩
  · exact Or.inl ⟨hnone, by simpa [he] using hnot⟩
  · exact Or.inr ⟨before, after ++ [e], by simp [heq], by simpa [he] using hnot, hmark⟩

/-- An event that asks for nothing leaves the local names. -/
theorem localNames_concat (ht : Tracks path h d) {e : Event} (he : ∀ s l, .requested s l ≠ e)
    (s : Symbol) (l : String) :
    d.localName? s = some l ↔ s.module ≠ path ∧ .requested s l ∈ h ++ [e] := by
  rw [ht.localNames]
  simp [he]

/-- Only the path, the taken names, the imports, the lines and the mark matter. -/
theorem congr (ht : Tracks path h d) {e : Draft} (hp : e.path = d.path) (hta : e.taken = d.taken)
    (hi : e.imports = d.imports) (hl : e.lines = d.lines) (hm : e.mark = d.mark) :
    Tracks path h e where
  path_eq := hp.trans ht.path_eq
  kept := ht.kept
  taken := by rw [hta]; exact ht.taken
  localNames := fun s l => by
    rw [Draft.localName?_eq_bind, hi, ← Draft.localName?_eq_bind]
    exact ht.localNames s l
  imports := by rw [hi]; exact ht.imports
  lines := by rw [hl]; exact ht.lines
  mark := by rw [hm]; exact ht.mark

/-- An event that asks for nothing of another module leaves the imports. -/
theorem foreign_concat {e : Event} (he : History.foreign? path e = none) :
    History.foreign path (h ++ [e]) = History.foreign path h := by
  simp [History.foreign, List.filterMap_append, he]

theorem modules_concat {e : Event} (he : History.foreign? path e = none) :
    History.modules path (h ++ [e]) = History.modules path h := by
  rw [History.modules, foreign_concat he, History.modules]

theorem names_concat {e : Event} (he : History.foreign? path e = none) (m : ImportPath) :
    History.names path (h ++ [e]) m = History.names path h m := by
  rw [History.names, foreign_concat he, History.names]

theorem reserved (ht : Tracks path h d) (name : String) :
    Tracks path (h ++ [.reserved name]) (d.reserve name) where
  path_eq := ht.path_eq
  kept := ht.kept.other (by intro s l hne; cases hne)
  taken := fun n => by
    simp [Draft.reserve, ht.taken, History.taken, History.takenBy?, or_comm]
  localNames := ht.localNames_concat (by intro s l hne; cases hne)
  imports := by
    simp only [modules_concat (e := .reserved name) rfl, names_concat (e := .reserved name) rfl]
    exact ht.imports
  lines := by simp [Draft.reserve, ht.lines, History.lines, History.line?]
  mark := ht.mark_concat (by intro hne; cases hne)

theorem wrote (ht : Tracks path h d) (line : String) :
    Tracks path (h ++ [.wrote line]) { d with lines := d.lines ++ [line] } where
  path_eq := ht.path_eq
  kept := ht.kept.other (by intro s l hne; cases hne)
  taken := fun n => by simp [ht.taken, History.taken, History.takenBy?]
  localNames := ht.localNames_concat (by intro s l hne; cases hne)
  imports := by
    simp only [modules_concat (e := .wrote line) rfl, names_concat (e := .wrote line) rfl]
    exact ht.imports
  lines := by simp [ht.lines, History.lines, History.line?]
  mark := ht.mark_concat (by intro hne; cases hne)

theorem marked (ht : Tracks path h d) : Tracks path (h ++ [.marked]) d.markImports where
  path_eq := ht.path_eq
  kept := ht.kept.other (by intro s l hne; cases hne)
  taken := fun n => by simp [Draft.markImports, ht.taken, History.taken, History.takenBy?]
  localNames := ht.localNames_concat (by intro s l hne; cases hne)
  imports := by
    simp only [modules_concat (e := .marked) rfl, names_concat (e := .marked) rfl]
    exact ht.imports
  lines := by simp [Draft.markImports, ht.lines, History.lines, History.line?]
  mark := Or.inr ⟨h, [], rfl, List.not_mem_nil, by simp [Draft.markImports, ht.lines]⟩

/-! ### Requests -/

theorem eraseDups_concat {α : Type} [BEq α] [LawfulBEq α] (xs : List α) (x : α) :
    (xs ++ [x]).eraseDups = if x ∈ xs then xs.eraseDups else xs.eraseDups ++ [x] := by
  rw [List.eraseDups_append]
  by_cases hx : x ∈ xs <;> simp [List.removeAll, hx, List.eraseDups_cons]

theorem nodup_eraseDups {α : Type} [BEq α] [LawfulBEq α] (xs : List α) : xs.eraseDups.Nodup := by
  induction xs using List.reverseRecOn with
  | nil => exact List.nodup_nil
  | append_singleton xs x ih =>
    rw [eraseDups_concat]
    split
    · exact ih
    · next hx =>
      refine List.nodup_append.mpr ⟨ih, List.nodup_singleton x, fun a ha b hb heq => hx ?_⟩
      rw [List.mem_singleton] at hb
      rw [← hb, ← heq]
      exact List.mem_eraseDups.mp ha

theorem foreign_requested (hm : s.module ≠ path) :
    History.foreign path (h ++ [.requested s l]) = History.foreign path h ++ [(s, l)] := by
  simp [History.foreign, List.filterMap_append, History.foreign?, hm]

theorem modules_requested (hm : s.module ≠ path) :
    History.modules path (h ++ [.requested s l]) =
      if s.module ∈ History.modules path h then History.modules path h
      else History.modules path h ++ [s.module] := by
  have hmem : s.module ∈ (History.foreign path h).map (fun r => r.1.module) ↔
      s.module ∈ History.modules path h := by
    simp [History.modules]
  rw [History.modules, foreign_requested hm, List.map_append, List.map_singleton, eraseDups_concat]
  simp only [hmem]
  rfl

theorem names_requested_ne (hm : s.module ≠ path) {m : ImportPath} (hne : m ≠ s.module) :
    History.names path (h ++ [.requested s l]) m = History.names path h m := by
  have hne' : ¬ s.module = m := fun heq => hne heq.symm
  rw [History.names, foreign_requested hm, List.filter_append]
  simp [hne', History.names]

theorem mem_names_requested (hm : s.module ≠ path) :
    (s.name, l) ∈ ((History.foreign path h).filter fun r => r.1.module = s.module).map
      (fun r => (r.1.name, r.2)) ↔ .requested s l ∈ h := by
  have hn : (s.name, l) ∈ History.names path h s.module ↔
      s.module ≠ path ∧ .requested ⟨s.module, s.name⟩ l ∈ h := History.mem_names_iff
  rw [History.names, List.mem_eraseDups] at hn
  rw [hn]
  exact and_iff_right hm

theorem names_requested (hm : s.module ≠ path) :
    History.names path (h ++ [.requested s l]) s.module =
      (((History.foreign path h).filter fun r => r.1.module = s.module).map
        (fun r => (r.1.name, r.2)) ++ [(s.name, l)]).eraseDups := by
  rw [History.names, foreign_requested hm, List.filter_append, List.map_append]
  simp

theorem names_again (hm : s.module ≠ path) (hreq : .requested s l ∈ h) :
    History.names path (h ++ [.requested s l]) s.module = History.names path h s.module := by
  rw [names_requested hm, eraseDups_concat, if_pos ((mem_names_requested hm).mpr hreq)]
  rfl

theorem names_first (hm : s.module ≠ path) (hnew : .requested s l ∉ h) :
    History.names path (h ++ [.requested s l]) s.module =
      History.names path h s.module ++ [(s.name, l)] := by
  rw [names_requested hm, eraseDups_concat,
    if_neg fun hmem => hnew ((mem_names_requested hm).mp hmem)]
  rfl

/-- The names imported from a module are those that the history lists for it. -/
theorem importsFrom_eq (ht : Tracks path h d) (m : ImportPath) :
    d.importsFrom m = ⟨History.names path h m⟩ := by
  rw [Draft.importsFrom, Table.get?, ht.imports, Table.lookup_map_pair]
  by_cases hm : m ∈ History.modules path h
  · rw [if_pos hm]
    rfl
  · rw [if_neg hm]
    have hnil : History.names path h m = [] := by
      refine List.eq_nil_iff_forall_not_mem.mpr fun e he => hm ?_
      obtain ⟨hne, hreq⟩ := History.mem_names_iff.mp he
      have hf := History.mem_foreign_iff.mpr ⟨hne, hreq⟩
      exact List.mem_eraseDups.mpr (List.mem_map.mpr ⟨_, hf, rfl⟩)
    rw [hnil]
    rfl

/-- A symbol that is imported for the first time goes last among those of its module, and a module
that is used for the first time goes last among the modules. -/
theorem imports_first (ht : Tracks path h d) (hm : s.module ≠ path)
    (hnone : d.localName? s = none) (l : String) :
    (d.importAs s l).imports.entries = (History.modules path (h ++ [.requested s l])).map fun m =>
      (m, ⟨History.names path (h ++ [.requested s l]) m⟩) := by
  have hnew : .requested s l ∉ h := by
    intro hreq
    have hsome := (ht.localNames s l).mpr ⟨hm, hreq⟩
    rw [hnone] at hsome
    cases hsome
  have hput : (d.importsFrom s.module).put s.name l =
      ⟨History.names path (h ++ [.requested s l]) s.module⟩ := by
    have hkey : s.name ∉ (d.importsFrom s.module).keys := Table.get?_eq_none_iff.mp hnone
    have hentries := Table.entries_put_of_not_mem hkey l
    rw [names_first hm hnew]
    rw [ht.importsFrom_eq] at hentries ⊢
    rw [← hentries]
  have hother : ∀ m ∈ History.modules path h, m ≠ s.module →
      History.names path h m = History.names path (h ++ [.requested s l]) m :=
    fun m _ hne => (names_requested_ne hm hne).symm
  have hnodup : (History.modules path h).Nodup := nodup_eraseDups _
  show Table.putWhere (· = s.module) s.module ((d.importsFrom s.module).put s.name l)
    d.imports.entries = _
  rw [hput, ht.imports, modules_requested hm]
  by_cases hmod : s.module ∈ History.modules path h
  · rw [if_pos hmod, Table.putWhere_map _ _ _ _ hnodup hmod]
    refine List.map_congr_left fun m hmem => ?_
    by_cases hms : m = s.module
    · simp [hms]
    · simp [hms, hother m hmem hms]
  · rw [if_neg hmod, Table.putWhere_of_not_mem _ _ _ (by simpa using hmod), List.map_append]
    refine congrArg₂ _ (List.map_congr_left fun m hmem => ?_) rfl
    have hms : m ≠ s.module := fun heq => hmod (heq ▸ hmem)
    rw [hother m hmem hms]

theorem lines_requested (s : Symbol) (l : String) :
    History.lines (h ++ [.requested s l]) = History.lines h := by
  simp [History.lines, History.line?]

theorem mark_requested (ht : Tracks path h d) (s : Symbol) (l : String) :
    (d.mark = none ∧ .marked ∉ h ++ [.requested s l]) ∨
      ∃ before after, h ++ [.requested s l] = before ++ .marked :: after ∧ .marked ∉ after ∧
        d.mark = some (History.lines before).length :=
  ht.mark_concat (by intro hne; cases hne)

/-- A symbol of the module itself is not imported. -/
theorem requested_own (ht : Tracks path h d) (hm : s.module = path) :
    Tracks path (h ++ [.requested s s.name]) d where
  path_eq := ht.path_eq
  kept := ht.kept.requested (.own hm)
  taken := fun n => by simp [ht.taken, History.taken, History.takenBy?, hm]
  localNames := fun s' l' => by
    rw [ht.localNames]
    simp only [List.mem_append, List.mem_singleton, Event.requested.injEq]
    constructor
    · rintro ⟨hm', hreq⟩; exact ⟨hm', Or.inl hreq⟩
    · rintro ⟨hm', hreq | ⟨rfl, _⟩⟩
      · exact ⟨hm', hreq⟩
      · exact absurd hm hm'
  imports := by
    have hf : History.foreign? path (.requested s s.name) = none := by
      simp [History.foreign?, hm]
    simp only [modules_concat hf, names_concat hf]
    exact ht.imports
  lines := by rw [lines_requested]; exact ht.lines
  mark := ht.mark_requested s s.name

/-- A symbol that was imported before is not imported again. -/
theorem requested_again (ht : Tracks path h d) (hm : s.module ≠ path) (hreq : .requested s l ∈ h) :
    Tracks path (h ++ [.requested s l]) d where
  path_eq := ht.path_eq
  kept := ht.kept.requested (.again hm hreq)
  taken := fun n => by
    have hl : l ∈ History.taken path h := History.mem_taken_of_requested hm hreq
    rw [ht.taken]
    simp only [History.taken, List.filterMap_append, List.mem_append]
    constructor
    · exact Or.inl
    · rintro (hn | hn)
      · exact hn
      · simp only [List.filterMap_cons, History.takenBy?, hm, if_false, List.filterMap_nil,
          List.mem_singleton] at hn
        rw [hn]
        exact hl
  localNames := fun s' l' => by
    rw [ht.localNames]
    simp only [List.mem_append, List.mem_singleton, Event.requested.injEq]
    constructor
    · rintro ⟨hm', hreq'⟩; exact ⟨hm', Or.inl hreq'⟩
    · rintro ⟨hm', hreq' | ⟨rfl, rfl⟩⟩
      · exact ⟨hm', hreq'⟩
      · exact ⟨hm', hreq⟩
  imports := by
    have hmod : s.module ∈ History.modules path h := by
      rw [History.modules, List.mem_eraseDups]
      exact List.mem_map.mpr ⟨_, History.mem_foreign_iff.mpr ⟨hm, hreq⟩, rfl⟩
    rw [modules_requested hm, if_pos hmod, ht.imports]
    refine List.map_congr_left fun m _ => ?_
    by_cases hms : m = s.module
    · rw [hms, names_again hm hreq]
    · rw [names_requested_ne hm hms]
  lines := by rw [lines_requested]; exact ht.lines
  mark := ht.mark_requested s l

/-- Any other symbol is imported under a free name. -/
theorem requested_first (ht : Tracks path h d) (hm : s.module ≠ path)
    (hnone : d.localName? s = none) :
    Tracks path (h ++ [.requested s (Draft.freshName d.taken s.name)])
      (d.importAs s (Draft.freshName d.taken s.name)) := by
  have hnew : ∀ l', .requested s l' ∉ h := by
    intro l' hreq
    have hsome := (ht.localNames s l').mpr ⟨hm, hreq⟩
    rw [hnone] at hsome
    cases hsome
  exact {
    path_eq := ht.path_eq
    kept := ht.kept.requested (.first hm hnew ((Draft.freshName_isFree _ _).congr ht.taken))
    taken := fun n => by
      simp [Draft.importAs, ht.taken, History.taken, History.takenBy?, hm, or_comm]
    localNames := fun s' l' => by
      rw [Draft.localName?_importAs]
      simp only [List.mem_append, List.mem_singleton, Event.requested.injEq]
      by_cases hs : s' = s
      · subst hs
        simp [hm, hnew, eq_comm]
      · simp [hs, ht.localNames]
    imports := ht.imports_first hm hnone _
    lines := by rw [lines_requested]; exact ht.lines
    mark := ht.mark_requested s _ }

theorem requested (ht : Tracks path h d) (s : Symbol) :
    Tracks path (h ++ [.requested s (d.request s).1]) (d.request s).2 := by
  rcases Draft.request_cases d s with ⟨hm, hr⟩ | ⟨hm, l, hl, hr⟩ | ⟨hm, hnone, hr⟩ <;>
    rw [hr] <;> rw [ht.path_eq] at hm
  · exact ht.requested_own hm
  · exact ht.requested_again hm ((ht.localNames s l).mp hl).2
  · exact ht.requested_first hm hnone

end Tracks

/-! ## Calls keep track -/

namespace Call

variable (w : FieldInfo.Writer) {path : ImportPath}

theorem tracks_requestsOf : ∀ (pieces : List Piece) {h : List Event} {d : Draft},
    Tracks path h d → Tracks path (h ++ requestsOf d pieces) (d.spell pieces).2
  | [], h, d, ht => by simpa [requestsOf, Draft.spell] using ht
  | .text _ :: rest, h, d, ht => tracks_requestsOf rest ht
  | .symbol s :: rest, h, d, ht => by
      have hrest := tracks_requestsOf rest (ht.requested s)
      rw [List.append_assoc] at hrest
      exact hrest
  | .expr e :: rest, h, d, ht => by
      cases he : e.written "" with
      | error cause => simpa [requestsOf, Draft.spell, he] using ht
      | ok text =>
        simp only [requestsOf, Draft.spell, he]
        exact tracks_requestsOf rest ht

theorem tracks_write (pieces : List Piece) {h : List Event} {d : Draft} (ht : Tracks path h d) :
    Tracks path (h ++ (requestsOf d pieces ++ lineOf d pieces)) (d.write pieces).2 := by
  have hspell := tracks_requestsOf pieces ht
  unfold lineOf Draft.write
  rcases hs : d.spell pieces with ⟨cause | line, e⟩
  · simpa [hs] using hspell
  · rw [hs] at hspell
    rw [← List.append_assoc]
    exact hspell.wrote _

mutual

/-- One call keeps track of what it does. -/
theorem tracks : ∀ (c : Call) {h : List Event} {d : Draft}, Tracks path h d →
    Tracks path (h ++ c.events w d) (c.step.edit w d).2
  | .reserve name, h, d, ht => ht.reserved name
  | .request s, h, d, ht => ht.requested s
  | .write pieces, h, d, ht => by
      have hw := tracks_write pieces ht
      show Tracks path _ (Edit.bind (Edit.write pieces) (fun _ => Edit.pure StepResult.nothing) d).2
      unfold Edit.bind Edit.write
      rcases hd : d.write pieces with ⟨_ | _, e⟩ <;> rw [hd] at hw <;> exact hw
  | .markImports, h, d, ht => ht.marked
  | .setLevel level, h, d, ht => by
      show Tracks path (h ++ []) (Edit.bind (Edit.setLevel level) (fun old =>
        Edit.pure (StepResult.level old)) d).2
      rw [List.append_nil]
      unfold Edit.bind Edit.setLevel
      split
      · next heq => split at heq <;> cases heq; exact ht.congr rfl rfl rfl rfl rfl
      · next heq => split at heq <;> cases heq; exact ht
  | .indented width calls, h, d, ht => by
      show Tracks path (h ++ if (d.level : Int) + width < 0 then [] else _)
        (Edit.indented width (Edit.bind (Step.editAll w (steps calls)) fun results =>
          Edit.pure (StepResult.list results)) d).2
      by_cases hneg : (d.level : Int) + width < 0
      · rw [Edit.indented_of_neg hneg, if_pos hneg, List.append_nil]
        exact ht
      · rw [Edit.indented_of_nonneg hneg, if_neg hneg]
        have hin : Tracks path h { d with level := ((d.level : Int) + width).toNat } :=
          ht.congr rfl rfl rfl rfl rfl
        have hbody := tracksUntil calls hin
        refine Tracks.congr ?_ rfl rfl rfl rfl rfl (d := (Edit.bind _ _ _).2)
        unfold Edit.bind
        rcases hd : Step.editAll w (steps calls) { d with level := ((d.level : Int) + width).toNat }
          with ⟨_ | _, e⟩ <;> rw [hd] at hbody <;> exact hbody

/-- Calls in order keep track of what they do up to the first that fails. -/
theorem tracksUntil : ∀ (cs : List Call) {h : List Event} {d : Draft}, Tracks path h d →
    Tracks path (h ++ eventsUntil w cs d) (Step.editAll w (steps cs) d).2
  | [], h, d, ht => by simpa [eventsUntil, steps, Step.editAll, Edit.pure] using ht
  | c :: rest, h, d, ht => by
      have hc := tracks c ht
      show Tracks path (h ++ (c.events w d ++ _)) (Edit.bind (c.step.edit w) (fun result =>
        Edit.bind (Step.editAll w (steps rest)) fun results => Edit.pure (result :: results)) d).2
      unfold Edit.bind
      rcases hd : c.step.edit w d with ⟨_ | _, e⟩ <;> rw [hd] at hc
      · simpa using hc
      · have hrest := tracksUntil rest hc
        rw [List.append_assoc] at hrest
        simp only
        rcases he : Step.editAll w (steps rest) e with ⟨_ | _, e'⟩ <;>
          simp only [he] at hrest ⊢ <;> exact hrest

end

/-- The draft that calls make tracks their history. -/
theorem tracks_history : ∀ (cs : List Call) {h : List Event} {d : Draft}, Tracks path h d →
    Tracks path (h ++ history w cs d) (Step.runAll w (steps cs) d).2
  | [], h, d, ht => by simpa [history, steps, Step.runAll] using ht
  | c :: rest, h, d, ht => by
      have hrest := tracks_history rest (tracks w c ht)
      rw [List.append_assoc] at hrest
      exact hrest

end Call

/-! ## What a draft owes to its calls -/

/-- The imports of a draft follow from the history of the calls that made it. -/
structure FollowsFrom (path : ImportPath) (h : List Event) (d : Draft) : Prop where
  /-- Different symbols of other modules never have the same name. -/
  apart : ∀ s s' l, s.module ≠ path → s'.module ≠ path →
    .requested s l ∈ h → .requested s' l ∈ h → s = s'
  /-- A symbol of another module has no name that was reserved before its first request. -/
  unreserved : ∀ before after s l, h = before ++ .requested s l :: after → s.module ≠ path →
    (∀ l', .requested s l' ∉ before) → ∀ n, .reserved n ∈ before → l ≠ n
  /-- A symbol has the same name at every request. -/
  stable : ∀ s l l', .requested s l ∈ h → .requested s l' ∈ h → l = l'
  /-- The first request gives the exported name with the least count of dollar signs that makes it
  free of reserved names and of names given before. -/
  least : ∀ before after s l, h = before ++ .requested s l :: after → s.module ≠ path →
    (∀ l', .requested s l' ∉ before) → IsFree (History.taken path before) s.name l
  /-- An own symbol keeps its name. -/
  own : ∀ s l, s.module = path → .requested s l ∈ h → l = s.name
  /-- The modules with an import statement are the other modules of which a symbol was requested,
  each of them once. -/
  modules : (History.modules path h).Nodup ∧ ∀ m, m ∈ History.modules path h ↔
    m ≠ path ∧ ∃ n l, .requested ⟨m, n⟩ l ∈ h
  /-- A statement lists the symbols of its module that were requested, each of them once and with
  its local name. -/
  names : ∀ m, ((History.names path h m).map Prod.fst).Nodup ∧ ∀ n l,
    (n, l) ∈ History.names path h m ↔ m ≠ path ∧ .requested ⟨m, n⟩ l ∈ h
  /-- The statements stand where the last mark was set, each with the symbols of its module and their
  local names spelled out (`History.statement`). -/
  marked : ∀ before after, h = before ++ .marked :: after → .marked ∉ after →
    d.content = "\n".intercalate (History.lines before ++ History.importStatements path h ++
      History.lines after) ++ "\n"
  /-- Without a mark there is no statement. -/
  unmarked : .marked ∉ h → d.content = "\n".intercalate (History.lines h) ++ "\n"

namespace Tracks

variable {path : ImportPath} {h : List Event} {d : Draft}

theorem mem_modules_iff {m : ImportPath} :
    m ∈ History.modules path h ↔ m ≠ path ∧ ∃ n l, .requested ⟨m, n⟩ l ∈ h := by
  rw [History.modules, List.mem_eraseDups, List.mem_map]
  constructor
  · rintro ⟨⟨s, l⟩, hf, rfl⟩
    obtain ⟨hm, hreq⟩ := History.mem_foreign_iff.mp hf
    exact ⟨hm, s.name, l, hreq⟩
  · rintro ⟨hm, n, l, hreq⟩
    exact ⟨(⟨m, n⟩, l), History.mem_foreign_iff.mpr ⟨hm, hreq⟩, rfl⟩

/-- No symbol is listed twice, since it has one local name only. -/
theorem names_nodup (hk : Kept path h) (m : ImportPath) :
    ((History.names path h m).map Prod.fst).Nodup := by
  refine List.Nodup.map_on ?_ (nodup_eraseDups _)
  rintro ⟨n, l⟩ he ⟨n', l'⟩ he' heq
  cases heq
  have hl := (History.mem_names_iff.mp he).2
  have hl' := (History.mem_names_iff.mp he').2
  rw [hk.stable hl hl']

/-- A history splits at its last mark in one way only. -/
theorem before_eq_of_last_mark {α : Type} {before before' after after' : List α} {x : α}
    (heq : before ++ x :: after = before' ++ x :: after') (hx : x ∉ after) (hx' : x ∉ after') :
    before = before' ∧ after = after' := by
  rcases List.append_eq_append_iff.mp heq with ⟨c, hb, hc⟩ | ⟨c, hb, hc⟩
  · cases c with
    | nil => exact ⟨by simpa using hb.symm, (List.cons.inj hc).2⟩
    | cons y c =>
      obtain ⟨rfl, ha⟩ := List.cons.inj hc
      exact absurd (ha ▸ by simp) hx
  · cases c with
    | nil => exact ⟨by simpa using hb, (List.cons.inj hc).2.symm⟩
    | cons y c =>
      obtain ⟨rfl, ha⟩ := List.cons.inj hc
      exact absurd (ha ▸ by simp) hx'

/-- The statements of a draft spell out what its history asks for. -/
theorem importStatements_eq (ht : Tracks path h d) :
    d.importStatements = History.importStatements path h := by
  have hstatement (m : ImportPath) (names : List (String × String)) :
      Draft.importStatement path m ⟨names⟩ = History.statement path m names := by
    simp only [Draft.importStatement, Draft.specifier, History.statement]
  rw [Draft.importStatements, ht.imports, ht.path_eq, List.map_map, History.importStatements]
  exact List.map_congr_left fun m _ => hstatement m _

theorem content_marked (ht : Tracks path h d) {before after : List Event}
    (heq : h = before ++ .marked :: after) (hlast : .marked ∉ after) :
    d.content = "\n".intercalate (History.lines before ++ History.importStatements path h ++
      History.lines after) ++ "\n" := by
  rcases ht.mark with ⟨_, hnot⟩ | ⟨before', after', heq', hlast', hmark⟩
  · exact absurd (heq ▸ by simp) hnot
  · obtain ⟨rfl, rfl⟩ := before_eq_of_last_mark (heq.symm.trans heq') hlast hlast'
    have hlines : d.lines = History.lines before ++ History.lines after := by
      rw [ht.lines, heq]
      simp [History.lines, List.filterMap_cons, History.line?]
    rw [Draft.content, Draft.allLines, hmark, ht.importStatements_eq, hlines]
    simp

theorem content_unmarked (ht : Tracks path h d) (hnot : .marked ∉ h) :
    d.content = "\n".intercalate (History.lines h) ++ "\n" := by
  rcases ht.mark with ⟨hnone, _⟩ | ⟨before, after, heq, _, _⟩
  · rw [Draft.content, Draft.allLines, hnone, ht.lines]
  · exact absurd (heq ▸ by simp) hnot

end Tracks

/-- Whatever calls are made on a draft without lines, in any order, its imports follow from the
history of the calls. -/
theorem Call.imports_follow (w : FieldInfo.Writer) (name : String) (path : ImportPath)
    (calls : List Call) :
    FollowsFrom path (history w calls (Draft.new name path))
      (Step.runAll w (steps calls) (Draft.new name path)).2 := by
  have ht := tracks_history w calls (Tracks.new name path)
  rw [List.nil_append] at ht
  exact {
    apart := fun s s' l hm hm' hl hl' => ht.kept.apart hm hm' hl hl'
    unreserved := by
      intro before after s l heq hm hnew n hn hln
      obtain ⟨_, _, hfree, _⟩ := ht.kept.isFree hm heq hnew
      rw [hln] at hfree
      exact hfree (History.mem_taken_of_reserved hn)
    stable := fun s l l' hl hl' => ht.kept.stable hl hl'
    least := fun before after s l heq hm hnew => ht.kept.isFree hm heq hnew
    own := fun s l hm hl => ht.kept.own hm hl
    modules := ⟨Tracks.nodup_eraseDups _, fun m => Tracks.mem_modules_iff⟩
    names := fun m => ⟨Tracks.names_nodup ht.kept m, fun n l => History.mem_names_iff⟩
    marked := fun before after heq hlast => ht.content_marked heq hlast
    unmarked := fun hnot => ht.content_unmarked hnot }

/-- A symbol that is requested behind the mark stands in the statements all the same. -/
example : (Step.runAll ⟨Registry.empty, ⟨"./runtime"⟩, false⟩ (Call.steps
      [.reserve "A", .markImports, .request ⟨⟨"./base"⟩, "B"⟩, .write [.symbol ⟨⟨"./base"⟩, "A"⟩]])
      (Draft.new "main.ts" ⟨"./main"⟩)).2.content =
    "import \x7b B, A as A$ \x7d from \"./base\";\nA$\n" := by
  decide +kernel

end SchemaScript
