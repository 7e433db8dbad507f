import Mathlib.Data.List.Induction
import SchemaScript.Proofs.Draft.Edits

/-!
# Growing drafts

What is added to a draft on the way to another one.

`Draft.Grows` says which lines were added and which symbols may have been imported, while the mark
and the indentation stay.  `Draft.Told` says of a name that it stands for an allowed symbol, and
stays true as the draft goes on.

Two kinds of edits are all that a module is written with.  `Edit.Prints` says of an edit that it
does nothing but add certain lines, at the indentation of the draft.  `Edit.Asks` says of an edit
that it adds no line and imports allowed symbols only, and that the names in its result stand for
allowed symbols.  Each has a rule for edits in a row.
-/

namespace SchemaScript

namespace Draft

variable {allowed : Symbol → Prop} {added more : List String} {c d e : Draft}

/-! ## Growth -/

/-- A draft becomes another one by added lines and allowed imports. -/
structure Grows (allowed : Symbol → Prop) (added : List String) (d e : Draft) : Prop where
  leads : d.Leads e
  lines : e.lines = d.lines ++ added
  mark : e.mark = d.mark
  level : e.level = d.level
  imported : ∀ s l, e.localName? s = some l → d.localName? s = none → allowed s

namespace Grows

theorem refl (d : Draft) : d.Grows allowed [] d := by
  refine ⟨.refl, by simp, rfl, rfl, fun s l hl hnone => ?_⟩
  rw [hl] at hnone
  cases hnone

theorem trans (h₁ : c.Grows allowed added d) (h₂ : d.Grows allowed more e) :
    c.Grows allowed (added ++ more) e := by
  refine ⟨h₁.leads.trans h₂.leads, ?_, h₂.mark.trans h₁.mark, h₂.level.trans h₁.level,
    fun s l hl hnone => ?_⟩
  · rw [h₂.lines, h₁.lines, List.append_assoc]
  · cases hd : d.localName? s with
    | none => exact h₂.imported s l hl hd
    | some l' => exact h₁.imported s l' hd hnone

theorem trans_silent (h₁ : c.Grows allowed added d) (h₂ : d.Grows allowed [] e) :
    c.Grows allowed added e := by
  have h := h₁.trans h₂
  rwa [List.append_nil] at h

/-- Growth that only concerns lines and notices. -/
theorem of_leads (hleads : d.Leads e) (hlines : e.lines = d.lines ++ added)
    (hmark : e.mark = d.mark) (hlevel : e.level = d.level) (himports : e.imports = d.imports) :
    d.Grows allowed added e := by
  refine ⟨hleads, hlines, hmark, hlevel, fun s l hl hnone => ?_⟩
  rw [localName?_eq_bind, himports, ← localName?_eq_bind, hnone] at hl
  cases hl

theorem addLines (d : Draft) (lines : List String) :
    d.Grows allowed lines { d with lines := d.lines ++ lines } := by
  refine of_leads ?_ rfl rfl rfl rfl
  induction lines using List.reverseRecOn with
  | nil => rw [List.append_nil]; exact .refl
  | append_singleton before line ih =>
    have h := ih.line line
    rwa [show (d.lines ++ before) ++ [line] = d.lines ++ (before ++ [line]) from
      List.append_assoc _ _ _] at h

theorem tell (d : Draft) (n : Notice) :
    d.Grows allowed [] { d with notices := d.notices ++ [n] } :=
  of_leads (Leads.refl.tell n) (by simp) rfl rfl rfl

theorem request (d : Draft) {s : Symbol} (hs : allowed s) : d.Grows allowed [] (d.request s).2 := by
  rcases request_cases d s with ⟨_, h⟩ | ⟨_, l, _, h⟩ | ⟨_, hnone, h⟩
  · rw [h]; exact refl d
  · rw [h]; exact refl d
  · have hleads := (Leads.refl : d.Leads d).request s
    rw [h] at hleads ⊢
    refine ⟨hleads, by simp [importAs], rfl, rfl, fun s' l hl hnone' => ?_⟩
    rw [localName?_importAs] at hl
    split at hl
    · next heq => rw [heq]; exact hs
    · rw [hnone'] at hl; cases hl

end Grows

/-- Asking for the symbols in a line adds no line and keeps the indentation. -/
theorem grows_spell (pieces : List Piece) (d : Draft) :
    d.Grows (fun _ => True) [] (d.spell pieces).2 := by
  induction pieces generalizing d with
  | nil => exact .refl d
  | cons piece rest ih =>
    cases piece with
    | text s => exact ih d
    | symbol s => exact (Grows.request d trivial).trans (ih _)
    | expr e =>
      rw [spell]
      split
      · exact .refl d
      · exact ih d

/-- A line that is written is the only one that is added. -/
theorem write_of_ok {d c : Draft} {pieces : List Piece} {text : String}
    (h : d.spell pieces = (.ok text, c)) :
    d.write pieces =
      (.ok (), { c with lines := d.lines ++ [Text.indent d.level text] }) := by
  have hgrows := grows_spell pieces d
  rw [h] at hgrows
  rw [write_eq_ok_iff.mpr ⟨text, c, h, rfl⟩, hgrows.lines, hgrows.level, List.append_nil]

/-! ## Names that stand for allowed symbols -/

/-- A name stands for an allowed symbol. -/
def Told (allowed : Symbol → Prop) (d : Draft) (l : String) : Prop :=
  ∃ s, allowed s ∧ d.Names s l

theorem Told.leads {l : String} (h : Told allowed d l) (hd : d.Leads e) : Told allowed e l := by
  obtain ⟨s, hs, hl⟩ := h
  exact ⟨s, hs, hd.names hl⟩

theorem told_request (d : Draft) {s : Symbol} (hs : allowed s) :
    Told allowed (d.request s).2 (d.request s).1 :=
  ⟨s, hs, names_request d s⟩

end Draft

namespace Edit

open Draft (Told)

variable {α β : Type}

/-! ## Edits that ask for names -/

/-- At a draft, an edit adds no line, imports only allowed symbols, and has a result whose names
stand for allowed symbols. -/
structure Asks (allowed : Symbol → Prop) (names : α → List String) (e : Edit α) (d : Draft) :
    Prop where
  grows : d.Grows allowed [] (e d).2
  told : ∀ a, (e d).1 = .ok a → ∀ l ∈ names a, Told allowed (e d).2 l

namespace Asks

variable {allowed : Symbol → Prop} {names : α → List String} {d : Draft}

theorem pure {a : α} (h : ∀ l ∈ names a, Told allowed d l) :
    Asks allowed names (Pure.pure a : Edit α) d :=
  ⟨.refl d, fun _ ha => by cases ha; exact h⟩

theorem fail (cause : Error) : Asks allowed names (Edit.fail cause) d :=
  ⟨.refl d, nofun⟩

theorem ofExcept {o : Except Error α} (h : ∀ a, o = .ok a → names a = []) :
    Asks allowed names (Edit.ofExcept o) d := by
  refine ⟨.refl d, fun a ha l hl => ?_⟩
  rw [h a ha] at hl
  cases hl

theorem outcome (o : Except Error α) : Asks allowed (fun _ => []) (Edit.ofExcept o) d :=
  ofExcept fun _ _ => rfl

theorem bind {others : β → List String} {e : Edit α} {f : α → Edit β} (he : Asks allowed names e d)
    (hf : ∀ a d', d.Leads d' → (∀ l ∈ names a, Told allowed d' l) → Asks allowed others (f a) d') :
    Asks allowed others (e >>= f) d := by
  rcases h : e d with ⟨cause | a, d'⟩
  · have hgrows := he.grows
    rw [h] at hgrows
    exact ⟨by rw [bind_of_error h]; exact hgrows, fun b hb => by rw [bind_of_error h] at hb; cases hb⟩
  · have hgrows := he.grows
    have htold := he.told a (by rw [h])
    rw [h] at hgrows htold
    have hrest := hf a d' hgrows.leads htold
    exact ⟨by rw [bind_of_ok h]; exact hgrows.trans hrest.grows,
      fun b hb => by rw [bind_of_ok h] at hb ⊢; exact hrest.told b hb⟩

theorem request {s : Symbol} (hs : allowed s) :
    Asks allowed (fun l : String => [l]) (Edit.request s) d := by
  refine ⟨.request d hs, fun l hl l' hl' => ?_⟩
  cases hl
  rw [List.mem_singleton.mp hl']
  exact Draft.told_request d hs

theorem tell (n : Notice) : Asks allowed (fun _ : Unit => []) (Edit.tell n) d :=
  ⟨.tell d n, fun _ _ _ hl => by cases hl⟩

theorem view (f : Draft → α) : Asks allowed (fun _ => []) (Edit.view f) d :=
  ⟨.refl d, fun _ _ _ hl => by cases hl⟩

theorem each {f : α → Edit Unit} {items : List α}
    (hf : ∀ a ∈ items, ∀ d, Asks allowed (fun _ => []) (f a) d) (d : Draft) :
    Asks allowed (fun _ => []) (Edit.each f items) d := by
  induction items generalizing d with
  | nil => exact pure nofun
  | cons a rest ih =>
    exact (hf a List.mem_cons_self d).bind fun _ d' _ _ =>
      ih (fun b hb => hf b (List.mem_cons_of_mem _ hb)) d'

theorem collect {f : α → Edit β} {others : β → List String} {items : List α}
    (hf : ∀ a ∈ items, ∀ d, Asks allowed others (f a) d) (d : Draft) :
    Asks allowed (fun bs => bs.flatMap others) (Edit.collect f items) d := by
  induction items generalizing d with
  | nil => exact pure nofun
  | cons a rest ih =>
    refine (hf a List.mem_cons_self d).bind fun b d₁ _ hb => ?_
    refine (ih (fun b hb => hf b (List.mem_cons_of_mem _ hb)) d₁).bind fun bs d₂ hd₂ hbs => ?_
    refine pure fun l hl => ?_
    rw [List.flatMap_cons, List.mem_append] at hl
    rcases hl with hl | hl
    · exact (hb l hl).leads hd₂
    · exact hbs l hl

/-- What an edit that succeeds says. -/
theorem of_ok {e : Edit α} (h : Asks allowed names e d) {a : α} {d' : Draft}
    (he : e d = (.ok a, d')) :
    d.Grows allowed [] d' ∧ ∀ l ∈ names a, Told allowed d' l := by
  have hgrows := h.grows
  have htold := h.told a (by rw [he])
  rw [he] at hgrows htold
  exact ⟨hgrows, htold⟩

end Asks

/-! ## Edits that print lines -/

/-- An edit does nothing but add lines, which depend on the indentation alone. -/
def Prints (lines : Nat → List String) (e : Edit Unit) : Prop :=
  ∀ d, e d = (.ok (), { d with lines := d.lines ++ lines d.level })

namespace Prints

variable {first second : Nat → List String}

theorem grows {allowed : Symbol → Prop} {e : Edit Unit} (he : e.Prints first) {d d' : Draft}
    (h : e d = (.ok (), d')) : d.Grows allowed (first d.level) d' := by
  rw [he] at h
  cases h
  exact .addLines d _

theorem nothing : Prints (fun _ => []) (Pure.pure () : Edit Unit) := by
  intro d
  rw [List.append_nil]
  rfl

theorem bind {e f : Edit Unit} (he : e.Prints first) (hf : f.Prints second) :
    (e >>= fun _ => f).Prints fun level => first level ++ second level := by
  intro d
  rw [bind_of_ok (he d), hf, List.append_assoc]

theorem each {α : Type} {f : α → Edit Unit} {lines : α → Nat → List String}
    (hf : ∀ a, (f a).Prints (lines a)) (items : List α) :
    (Edit.each f items).Prints fun level => items.flatMap fun a => lines a level := by
  induction items with
  | nil => exact nothing
  | cons a rest ih => exact (hf a).bind ih

theorem indented {e : Edit Unit} (he : e.Prints first) (width : Nat) :
    (Edit.indented width e).Prints fun level => first (level + width) := by
  intro d
  have hneg : ¬ (d.level : Int) + width < 0 := by omega
  have hlevel : ((d.level : Int) + width).toNat = d.level + width := by omega
  rw [indented_of_nonneg hneg, he, hlevel]

theorem spell_texts (d : Draft) (parts : List String) :
    d.spell (parts.map .text) = (.ok (String.join parts), d) := by
  induction parts with
  | nil => rfl
  | cons s rest ih =>
    rw [List.map_cons, Draft.spell, ih, String.join_cons]
    rfl

theorem write (parts : List String) :
    (Edit.write (parts.map .text)).Prints fun level => [Text.indent level (String.join parts)] := by
  intro d
  exact Draft.write_eq_ok_iff.mpr ⟨_, _, spell_texts d parts, rfl⟩

end Prints

end Edit

end SchemaScript
