import SchemaScript.Proofs.FieldInfo.Denotation
import SchemaScript.Proofs.FieldInfo.RoundTrip

/-!
# Inline and qualified constants

The two ways to write the constants of the runtime say the same.

One run writes a constant inline, as its ordinal, and the other qualified, as a property of an
enumeration that it imports.  So the two import different symbols in a different order, and a
declaration can have one name in one module and another in the other: a message `ScalarType` is
renamed only where the enumeration was imported before it.  What the literals denote is the same
all the same, each read in its own module, and a run fails only where the other fails, for the same
cause (`FieldInfo.Writer.literals_modes`).

`Edit.Agrees` compares two runs on two drafts.  It is kept by edits in a row, in a list, and by each
part of a literal.  Results are compared by what a reader sees of them *ever after*
(`FieldInfo.ReadAlike`), because a literal is read in the finished module, when more has been
imported.
-/

namespace SchemaScript

/-! ## Two runs -/

namespace Edit

variable {α β γ : Type}

/-- Two runs, on two drafts, fail for the same cause or have related results. -/
inductive Agrees (S : α → α → Draft → Draft → Prop) (d d' : Draft) :
    Except Error α × Draft → Except Error α × Draft → Prop where
  | ok {a a' : α} {e e' : Draft} (hd : d.Leads e) (hd' : d'.Leads e') (h : S a a' e e') :
    Agrees S d d' (.ok a, e) (.ok a', e')
  | error (cause : Error) (e e' : Draft) : Agrees S d d' (.error cause, e) (.error cause, e')

namespace Agrees

variable {S : α → α → Draft → Draft → Prop} {T : β → β → Draft → Draft → Prop} {d d' : Draft}

theorem pure {a a' : α} (h : S a a' d d') :
    Agrees S d d' ((Pure.pure a : Edit α) d) ((Pure.pure a' : Edit α) d') :=
  .ok .refl .refl h

theorem ofExcept {o : Except Error α} (h : ∀ a, o = .ok a → S a a d d') :
    Agrees S d d' (Edit.ofExcept o d) (Edit.ofExcept o d') := by
  cases o with
  | error cause => exact .error cause d d'
  | ok a => exact .ok .refl .refl (h a rfl)

theorem bind {e e' : Edit α} {f f' : α → Edit β} (he : Agrees S d d' (e d) (e' d'))
    (hf : ∀ a a' c c', d.Leads c → d'.Leads c' → S a a' c c' →
      Agrees T c c' (f a c) (f' a' c')) :
    Agrees T d d' ((e >>= f) d) ((e' >>= f') d') := by
  generalize hr : e d = r at he
  generalize hr' : e' d' = r' at he
  cases he with
  | error cause c c' =>
    rw [bind_of_error hr, bind_of_error hr']
    exact .error cause c c'
  | @ok a a' c c' hd hd' h =>
    rw [bind_of_ok hr, bind_of_ok hr']
    have hrest := hf a a' c c' hd hd' h
    generalize f a c = s at hrest ⊢
    generalize f' a' c' = s' at hrest ⊢
    cases hrest with
    | error cause b b' => exact .error cause b b'
    | ok hc hc' hb => exact .ok (hd.trans hc) (hd'.trans hc') hb

end Agrees

end Edit

namespace FieldInfo

/-! ## Two modules -/

section

variable (r : Registry) (runtime : ImportPath)

/-- The reader of a module of a schema, whichever way its constants are written. -/
def readerOf (d : Draft) : Reader :=
  ⟨r.namesIn d.path, runtime, d⟩

/-- Two drafts of one module in which names can be told.  The module is not that of the runtime. -/
structure Paired (d d' : Draft) : Prop where
  left : Ready r d
  right : Ready r d'
  path_eq : d'.path = d.path
  name_eq : d'.name = d.name
  foreign : runtime ≠ d.path

/-- Two things, each in a draft, are read as the same ever after. -/
def ReadAlike {α β : Type} (read : Reader → α → Option β) (a a' : α) (d d' : Draft) : Prop :=
  ∃ b, (∀ e, d.Leads e → read (readerOf r runtime e) a = some b) ∧
    ∀ e', d'.Leads e' → read (readerOf r runtime e') a' = some b

end

variable {r : Registry} {runtime : ImportPath} {d d' : Draft}

theorem Paired.leads {e e' : Draft} (h : Paired r runtime d d') (hd : d.Leads e)
    (hd' : d'.Leads e') : Paired r runtime e e' where
  left := h.left.leads hd
  right := h.right.leads hd'
  path_eq := by rw [hd'.path_eq, hd.path_eq, h.path_eq]
  name_eq := by rw [hd'.name_eq, hd.name_eq, h.name_eq]
  foreign := by rw [hd.path_eq]; exact h.foreign

namespace ReadAlike

variable {α β γ δ : Type} {read : Reader → α → Option β} {a a' : α}

/-- What every reader takes for the same is read as the same. -/
theorem of_forall {b : β} (h : ∀ R, read R a = some b) : ReadAlike r runtime read a a d d' :=
  ⟨b, fun _ _ => h _, fun _ _ => h _⟩

theorem leads {e e' : Draft} (h : ReadAlike r runtime read a a' d d') (hd : d.Leads e)
    (hd' : d'.Leads e') : ReadAlike r runtime read a a' e e' := by
  obtain ⟨b, hb, hb'⟩ := h
  exact ⟨b, fun c hc => hb c (hd.trans hc), fun c hc => hb' c (hd'.trans hc)⟩

/-- What is read of something that is put together of one part. -/
theorem map {whole : Reader → γ → Option δ} {f : β → δ}
    (h : ReadAlike r runtime read a a' d d') (make : α → γ)
    (hmake : ∀ R a b, read R a = some b → whole R (make a) = some (f b)) :
    ReadAlike r runtime whole (make a) (make a') d d' := by
  obtain ⟨b, hb, hb'⟩ := h
  exact ⟨f b, fun e he => hmake _ a b (hb e he), fun e he => hmake _ a' b (hb' e he)⟩

/-- What is read of something that is put together of two parts. -/
theorem map₂ {ε ζ : Type} {other : Reader → ε → Option ζ} {c c' : ε}
    {whole : Reader → γ → Option δ} {f : β → ζ → δ} (h : ReadAlike r runtime read a a' d d')
    (hc : ReadAlike r runtime other c c' d d') (make : α → ε → γ)
    (hmake : ∀ R a b c z, read R a = some b → other R c = some z →
      whole R (make a c) = some (f b z)) :
    ReadAlike r runtime whole (make a c) (make a' c') d d' := by
  obtain ⟨b, hb, hb'⟩ := h
  obtain ⟨z, hz, hz'⟩ := hc
  exact ⟨f b z, fun e he => hmake _ a b c z (hb e he) (hz e he),
    fun e he => hmake _ a' b c' z (hb' e he) (hz' e he)⟩

end ReadAlike

/-- Two expressions denote the same ever after. -/
abbrev DenoteAlike (r : Registry) (runtime : ImportPath) : Expr → Expr → Draft → Draft → Prop :=
  ReadAlike r runtime fun R => R.denote? false

/-- Two lists of properties denote the same ever after. -/
abbrev PropertiesAlike (r : Registry) (runtime : ImportPath) :
    Properties → Properties → Draft → Draft → Prop :=
  ReadAlike r runtime fun R => R.denoteProperties? false

namespace ReadAlike

theorem property {e e' : Expr} (h : DenoteAlike r runtime e e' d d') (key : String) :
    PropertiesAlike r runtime [(key, e)] [(key, e')] d d' :=
  h.map (fun e => [(key, e)]) fun _ _ _ hm => Reader.denoteProperties?_singleton hm

theorem append {ps ps' qs qs' : Properties} (h : PropertiesAlike r runtime ps ps' d d')
    (hq : PropertiesAlike r runtime qs qs' d d') :
    PropertiesAlike r runtime (ps ++ qs) (ps' ++ qs') d d' :=
  h.map₂ hq (· ++ ·) fun _ _ _ _ _ hm hn => Reader.denoteProperties?_append hm hn

theorem object {ps ps' : Properties} (h : PropertiesAlike r runtime ps ps' d d') :
    DenoteAlike r runtime (.object ps false) (.object ps' false) d d' :=
  h.map (fun ps => Expr.object ps false) fun _ _ _ hm => by
    rw [Reader.denote?, hm]
    rfl

end ReadAlike

namespace Writer

open Edit

/-! ## Constants -/

theorem family_of_memberOf {family : Family} {value : Value} {c : Constant}
    (h : memberOf family value = .ok c) : c.family = family := by
  have hmember {n : Int} (hn : family.member? n = some c) : c.family = family := by
    have hmem := List.mem_of_find?_eq_some hn
    have hall : ∀ c ∈ family.members, c.family = family := by
      cases family <;> decide
    exact hall c hmem
  unfold memberOf at h
  split at h
  · next c' =>
    split at h
    · next hc => cases h; exact hc
    · cases h
  · split at h
    · next hc =>
      cases h
      obtain ⟨n, _, hn⟩ := Option.bind_eq_some_iff.mp hc
      exact hmember hn
    · cases h

theorem ordinal?_family (R : Reader) (c : Constant) :
    R.ordinal? ⟨R.runtime, c.family.name⟩ c.name = some c.ordinal := by
  have hfamily (family : Family) : ([Family.repeatType, .scalarType, .longType].find? fun f =>
      f.name = family.name) = some family := by
    cases family <;> decide
  rw [Reader.ordinal?, if_pos rfl, hfamily]
  show ((c.family.members.find? fun c' => c'.name = c.name).bind fun c' => some c'.ordinal) = _
  rw [find?_name]
  rfl

/-- A name that was requested for a symbol of another module stands for it ever after. -/
theorem symbol?_request (h : Ready r d) {s : Symbol} (hs : s.module ≠ d.path) {e : Draft}
    (he : (d.request s).2.Leads e) : (readerOf r runtime e).symbol? (d.request s).1 = some s := by
  have hleads : d.Leads e := (Draft.Leads.refl.request s).trans he
  have hready := h.leads hleads
  have hnames := he.names (Draft.names_request d s)
  rw [Draft.names_foreign (by rwa [hleads.path_eq])] at hnames
  have hown : (d.request s).1 ∉ (readerOf r runtime e).own := fun hmem =>
    (hready.guards _ hmem).2 _ hnames
  exact Reader.symbol?_imported hown hready.sound hnames

/-- A constant written inline denotes the same as the constant written qualified. -/
theorem constant_modes (h : Paired r runtime d d') (family : Family) (value : Value) :
    Agrees (DenoteAlike r runtime) d d' (constant ⟨r, runtime, true⟩ family value d)
      (constant ⟨r, runtime, false⟩ family value d') := by
  cases hmember : memberOf family value with
  | error cause =>
    rw [constant, constant, hmember]
    exact .error cause d d'
  | ok c =>
    have hfamily := family_of_memberOf hmember
    have hinline : constant ⟨r, runtime, true⟩ family value d =
        (.ok (.number (.int c.ordinal) (some c.qualifiedName)), d) := by
      rw [constant, hmember]
      rfl
    have hqualified : constant ⟨r, runtime, false⟩ family value d' =
        (.ok (.access (.ident (d'.request ⟨runtime, family.name⟩).1) c.name),
          (d'.request ⟨runtime, family.name⟩).2) := by
      rw [constant, hmember]
      rfl
    rw [hinline, hqualified]
    refine .ok .refl (Draft.Leads.refl.request _)
      ⟨.number (.int c.ordinal), fun _ _ => rfl, fun e he => ?_⟩
    have hforeign : runtime ≠ d'.path := by
      rw [h.path_eq]
      exact h.foreign
    have hsymbol : (readerOf r runtime e).symbol? (d'.request ⟨runtime, family.name⟩).1 =
        some ⟨runtime, family.name⟩ := symbol?_request h.right hforeign he
    show (readerOf r runtime e).denote? false _ = _
    rw [Reader.denote?, hsymbol, ← hfamily, Option.bind_some]
    exact congrArg (Option.map _) (ordinal?_family (readerOf r runtime e) c)

theorem whenSome_modes (h : Paired r runtime d d') (key : String) (family : Family)
    (value : Option Value) :
    Agrees (PropertiesAlike r runtime) d d'
      (whenSome key (constant ⟨r, runtime, true⟩ family) value d)
      (whenSome key (constant ⟨r, runtime, false⟩ family) value d') := by
  cases value with
  | none => exact .pure (.of_forall fun _ => rfl)
  | some value =>
    exact (constant_modes h family value).bind fun _ _ _ _ _ _ he => .pure (he.property key)

/-! ## References -/

/-- A reference has names for one symbol in both modules, or is found in neither. -/
theorem reference_modes (h : Paired r runtime d d') (typeName referrer : String) :
    Agrees (ReadAlike r runtime fun R p => R.symbol? p.1) d d'
      (reference ⟨r, runtime, true⟩ typeName referrer d)
      (reference ⟨r, runtime, false⟩ typeName referrer d') := by
  cases hx : r.declared? typeName with
  | none =>
    have hfail (inlined : Bool) (c : Draft) :
        reference ⟨r, runtime, inlined⟩ typeName referrer c =
          (.error (.unresolved c.name referrer typeName), c) := by
      simp only [reference, hx]
      rfl
    rw [hfail, hfail, h.name_eq]
    exact .error _ d d'
  | some x =>
    have hread (inlined : Bool) {c : Draft} (hc : Ready r c) :
        ∃ l e, reference ⟨r, runtime, inlined⟩ typeName referrer c =
            (.ok (l, x.symbol.module), e) ∧ c.Leads e ∧
          ∀ b, e.Leads b → (readerOf r runtime b).symbol? l = some x.symbol := by
      obtain ⟨l, e, hl, he, hnames⟩ :=
        reference_names (w := ⟨r, runtime, inlined⟩) c hx referrer
      refine ⟨l, e, hl, he, fun b hb => ?_⟩
      exact symbol?_of_names (w := ⟨r, runtime, inlined⟩) (hc.leads (he.trans hb)) hx (hnames b hb)
    obtain ⟨l, e, hl, he, hsymbol⟩ := hread true h.left
    obtain ⟨l', e', hl', he', hsymbol'⟩ := hread false h.right
    rw [hl, hl']
    exact .ok he he' ⟨x.symbol, hsymbol, hsymbol'⟩

theorem messageFunction_modes (h : Paired r runtime d d') (typeName referrer : String) :
    Agrees (DenoteAlike r runtime) d d'
      (messageFunction ⟨r, runtime, true⟩ typeName referrer d)
      (messageFunction ⟨r, runtime, false⟩ typeName referrer d') := by
  refine (reference_modes h typeName referrer).bind fun p p' c c' _ _ hp => .pure ?_
  refine hp.map (f := fun s => Denoted.arrow (.symbol s)) (fun p => Expr.arrow (.ident p.1))
    fun R a s hs => ?_
  show ((R.symbol? a.1).map Denoted.symbol).map Denoted.arrow = some (.arrow (.symbol s))
  rw [hs]
  rfl

theorem enumFunction_modes (h : Paired r runtime d d') (typeName : String)
    (sharedStem : Option String) (referrer : String) :
    Agrees (DenoteAlike r runtime) d d'
      (enumFunction ⟨r, runtime, true⟩ typeName sharedStem referrer d)
      (enumFunction ⟨r, runtime, false⟩ typeName sharedStem referrer d') := by
  refine (reference_modes h typeName referrer).bind fun p p' c c' _ _ hp => .pure ?_
  have hwith {stem : List Expr} {ms : List Denoted}
      (hstem : ∀ R : Reader, R.denoteAll? true stem = some ms) :
      DenoteAlike r runtime
        (.arrow (.array ([.text (withoutDots typeName), .ident p.1] ++ stem) false))
        (.arrow (.array ([.text (withoutDots typeName), .ident p'.1] ++ stem) false)) c c' := by
    refine hp.map
      (f := fun s =>
        Denoted.arrow (.array (.text (withoutDots typeName) :: .symbol s :: ms) false))
      (fun p => Expr.arrow (.array ([.text (withoutDots typeName), .ident p.1] ++ stem) false))
      fun R a s hs => ?_
    have hall : R.denoteAll? true ([.text (withoutDots typeName), .ident a.1] ++ stem) =
        some (.text (withoutDots typeName) :: .symbol s :: ms) := by
      simp [Reader.denoteAll?, Reader.denote?, hs, hstem]
    show ((R.denoteAll? true _).map _).map Denoted.arrow = some (.arrow (.array _ false))
    rw [hall]
    rfl
  cases sharedStem with
  | none => exact hwith fun _ => rfl
  | some stem =>
    by_cases hstem : stem = ""
    · simp only [if_pos hstem]
      exact hwith fun _ => rfl
    · simp only [if_neg hstem]
      exact hwith fun _ => rfl

/-! ## Kinds -/

theorem checkKind_modes (h : Paired r runtime d d') (referrer : String) (kind : FieldKind) :
    Agrees (fun _ _ _ _ => True) d d' (checkKind ⟨r, runtime, true⟩ referrer kind d)
      (checkKind ⟨r, runtime, false⟩ referrer kind d') := by
  have hreference (typeName : String) :
      Agrees (fun _ _ _ _ => True) d d' (checkReference ⟨r, runtime, true⟩ typeName referrer d)
        (checkReference ⟨r, runtime, false⟩ typeName referrer d') := by
    cases hx : r.declared? typeName with
    | none =>
      have hfail (inlined : Bool) (c : Draft) :
          checkReference ⟨r, runtime, inlined⟩ typeName referrer c =
            (.error (.unresolved c.name referrer typeName), c) := by
        simp only [checkReference, hx]
        rfl
      rw [hfail, hfail, h.name_eq]
      exact .error _ d d'
    | some x =>
      simp only [checkReference, hx]
      exact .pure trivial
  have hvalue (kind : FieldKind) :
      Agrees (fun _ _ _ _ => True) d d' (checkValueKind ⟨r, runtime, true⟩ referrer kind d)
        (checkValueKind ⟨r, runtime, false⟩ referrer kind d') := by
    cases kind with
    | scalar type long => exact .pure trivial
    | enumeration typeName sharedStem => exact hreference typeName
    | message typeName => exact hreference typeName
    | map key value => exact .pure trivial
  cases kind with
  | scalar type long => exact hvalue (.scalar type long)
  | enumeration typeName sharedStem => exact hvalue (.enumeration typeName sharedStem)
  | message typeName => exact hvalue (.message typeName)
  | map key value =>
    simp only [checkKind]
    split
    · exact .error _ d d'
    · exact hvalue value

theorem kindProperties_modes (h : Paired r runtime d d') (referrer : String) (kind : FieldKind) :
    Agrees (PropertiesAlike r runtime) d d'
      (kindProperties ⟨r, runtime, true⟩ referrer kind d)
      (kindProperties ⟨r, runtime, false⟩ referrer kind d') := by
  induction kind generalizing d d' with
  | scalar type long =>
    refine (constant_modes h .scalarType type).bind fun t t' c c' hd hd' ht => ?_
    refine (whenSome_modes (h.leads hd hd') "L" .longType long).bind fun l l' e e' hc hc' hl => ?_
    exact .pure (((ht.leads hc hc').property "T").append hl)
  | enumeration typeName sharedStem =>
    exact (enumFunction_modes h typeName sharedStem referrer).bind fun _ _ _ _ _ _ ht =>
      .pure (ht.property "T")
  | message typeName =>
    exact (messageFunction_modes h typeName referrer).bind fun _ _ _ _ _ _ ht =>
      .pure (ht.property "T")
  | map key value ih =>
    refine (constant_modes h .scalarType key).bind fun k k' c c' hd hd' hk => ?_
    split
    · exact .error _ c c'
    · refine (ih (h.leads hd hd')).bind fun ps ps' e e' hc hc' hps => .pure ?_
      have hword : PropertiesAlike r runtime [("kind", .text value.word)]
          [("kind", .text value.word)] e e' := .of_forall fun _ => rfl
      exact ((hk.leads hc hc').property "K").append ((hword.append hps).object.property "V")

/-! ## Fields -/

theorem propertiesAlike_texts (key : String) (value : Option String) :
    PropertiesAlike r runtime (textProperty key value) (textProperty key value) d d' := by
  cases value <;> exact .of_forall fun _ => rfl

theorem propertiesAlike_bools (key : String) (value : Option Bool) :
    PropertiesAlike r runtime (boolProperty key value) (boolProperty key value) d d' := by
  cases value <;> exact .of_forall fun _ => rfl

theorem propertiesAlike_options {options : Option (List (Value × Value))} {ps : Properties}
    (h : optionsProperty options = .ok ps) : PropertiesAlike r runtime ps ps d d' := by
  unfold optionsProperty at h
  split at h
  · cases h
    exact .of_forall fun _ => rfl
  · cases h
    exact .of_forall fun _ => rfl
  · obtain ⟨e, he, rfl⟩ := Outcome.map_eq_ok_iff.mp h
    obtain ⟨m, hm⟩ := denote?_ofValue _ he
    exact ReadAlike.property (.of_forall hm) "options"

theorem minimizedProperties_modes (h : Paired r runtime d d') (i : FieldInfo) :
    Agrees (PropertiesAlike r runtime) d d'
      (minimizedProperties ⟨r, runtime, true⟩ i d)
      (minimizedProperties ⟨r, runtime, false⟩ i d') := by
  refine (checkKind_modes h i.name i.kind).bind fun _ _ c c' hc hc' _ => ?_
  have h := h.leads hc hc'
  have hnumber : Agrees (DenoteAlike r runtime) c c' (Edit.ofExcept (Expr.ofValue i.number) c)
      (Edit.ofExcept (Expr.ofValue i.number) c') := by
    refine .ofExcept fun e he => ?_
    obtain ⟨m, hm⟩ := denote?_ofValue _ he
    exact .of_forall hm
  refine hnumber.bind fun n n' c c' hc hc' hn => ?_
  have h := h.leads hc hc'
  refine (whenSome_modes h "repeat" .repeatType i.repetition).bind
    fun rep rep' c c' hc hc' hrep => ?_
  have h := h.leads hc hc'
  have hn := hn.leads hc hc'
  refine (kindProperties_modes h i.name i.kind).bind fun ks ks' c c' hc hc' hks => ?_
  have hn := hn.leads hc hc'
  have hrep := hrep.leads hc hc'
  have hoptions : Agrees (PropertiesAlike r runtime) c c'
      (Edit.ofExcept (optionsProperty i.options) c)
      (Edit.ofExcept (optionsProperty i.options) c') :=
    .ofExcept fun _ hps => propertiesAlike_options hps
  refine hoptions.bind fun os os' c c' hc hc' hos => .pure ?_
  have hhead : PropertiesAlike r runtime [("name", .text i.name), ("kind", .text i.kind.word)]
      [("name", .text i.name), ("kind", .text i.kind.word)] c c' := .of_forall fun _ => rfl
  exact ((hn.leads hc hc').property "no").append hhead
    |>.append (propertiesAlike_texts "localName" i.localName)
    |>.append (propertiesAlike_texts "jsonName" i.jsonName)
    |>.append (propertiesAlike_texts "oneof" i.oneof)
    |>.append (hrep.leads hc hc')
    |>.append (propertiesAlike_bools "opt" i.optional)
    |>.append (hks.leads hc hc')
    |>.append hos

theorem literal_modes (h : Paired r runtime d d') (i : FieldInfo) :
    Agrees (DenoteAlike r runtime) d d' (literal ⟨r, runtime, true⟩ i d)
      (literal ⟨r, runtime, false⟩ i d') :=
  (minimizedProperties_modes h i.minimized).bind fun _ _ _ _ _ _ hps => .pure hps.object

theorem collect_modes (h : Paired r runtime d d') (is : List FieldInfo) :
    Agrees (ReadAlike r runtime fun R => R.denoteAll? false) d d'
      (Edit.collect (literal ⟨r, runtime, true⟩) is d)
      (Edit.collect (literal ⟨r, runtime, false⟩) is d') := by
  induction is generalizing d d' with
  | nil => exact .pure (.of_forall fun _ => rfl)
  | cons i rest ih =>
    refine (literal_modes h i).bind fun e e' c c' hc hc' he => ?_
    refine (ih (h.leads hc hc')).bind fun es es' b b' hb hb' hes => .pure ?_
    refine (he.leads hb hb').map₂ (f := fun m ms => m :: ms) hes (· :: ·)
      fun R e m es ms hm hms => ?_
    rw [Reader.denoteAll?, hm, Option.bind_some, hms, Option.map_some]

/-- Where the own names of a module are taken and nothing is imported, the literals for fields are
written either way to denote the same, each in its own module, or fail for the same cause. -/
theorem literals_modes (himports : d.imports = ∅) (hreserved : r.namesIn d.path ⊆ d.taken)
    (hforeign : runtime ≠ d.path) (is : List FieldInfo) :
    (∃ cause e e', literals ⟨r, runtime, true⟩ is d = (.error cause, e) ∧
        literals ⟨r, runtime, false⟩ is d = (.error cause, e')) ∨
      ∃ a a' e e' m, literals ⟨r, runtime, true⟩ is d = (.ok a, e) ∧
        literals ⟨r, runtime, false⟩ is d = (.ok a', e') ∧
        (readerOf r runtime e).denote? false a = some m ∧
        (readerOf r runtime e').denote? false a' = some m := by
  have hready : Ready r d := ready_of_reserved himports hreserved .refl
  have hpaired : Paired r runtime d d := ⟨hready, hready, rfl, rfl, hforeign⟩
  have hagrees : Agrees (DenoteAlike r runtime) d d (literals ⟨r, runtime, true⟩ is d)
      (literals ⟨r, runtime, false⟩ is d) := by
    refine (collect_modes hpaired is).bind fun es es' c c' _ _ hes => .pure ?_
    refine hes.map (f := fun ms => Denoted.array ms true) (Expr.array · true) fun R es ms hms => ?_
    rw [Reader.denote?, hms, Option.map_some]
  generalize literals ⟨r, runtime, true⟩ is d = run at hagrees ⊢
  generalize literals ⟨r, runtime, false⟩ is d = run' at hagrees ⊢
  cases hagrees with
  | error cause e e' => exact .inl ⟨cause, e, e', rfl, rfl⟩
  | @ok a a' e e' _ _ h =>
    obtain ⟨m, hm, hm'⟩ := h
    exact .inr ⟨a, a', e, e', m, rfl, rfl, hm e .refl, hm' e' .refl⟩

end Writer

/-! ## A renamed declaration -/

/-- A schema with a message that has the name of an enumeration of the runtime. -/
def namesakeSchema : Schema :=
  match Schema.resolve defaultPathRule []
    [Schema.sampleFile "types.proto" "q" [] [Schema.sampleMessage "ScalarType" false [] []] []] with
  | .ok s => s
  | .error _ => Schema.empty

/-- The information about a field of no special kind. -/
def plainInfo (number : Int) (name : String) (kind : FieldKind) : FieldInfo where
  number := .scalar (.int number)
  name := name
  kind := kind
  localName := none
  jsonName := none
  oneof := none
  repetition := none
  optional := none
  options := none

/-- A scalar field and a field for the namesake of the enumeration. -/
def namesakeInfos : List FieldInfo :=
  [plainInfo 1 "id" (.scalar (.scalar (.int 5)) none), plainInfo 2 "type" (.message "q.ScalarType")]

/-- The message keeps its name where constants are inline, and is renamed where they are not. -/
theorem literals_modes_of_namesake :
    ∃ a a' e e' m,
      Writer.literals ⟨namesakeSchema.registry, Config.defaultRuntime, true⟩ namesakeInfos
        (Draft.new "main.ts" ⟨"./main"⟩) = (.ok a, e) ∧
      Writer.literals ⟨namesakeSchema.registry, Config.defaultRuntime, false⟩ namesakeInfos
        (Draft.new "main.ts" ⟨"./main"⟩) = (.ok a', e') ∧
      e.localName? ⟨⟨"./types"⟩, "ScalarType"⟩ = some "ScalarType" ∧
      e'.localName? ⟨⟨"./types"⟩, "ScalarType"⟩ = some "ScalarType$" ∧
      (readerOf namesakeSchema.registry Config.defaultRuntime e).denote? false a = some m ∧
      (readerOf namesakeSchema.registry Config.defaultRuntime e').denote? false a' = some m := by
  let run (inlined : Bool) := Writer.literals
    ⟨namesakeSchema.registry, Config.defaultRuntime, inlined⟩ namesakeInfos
    (Draft.new "main.ts" ⟨"./main"⟩)
  have hok : (run true).1.isOk = true := by decide +kernel
  have hinline : (run true).2.localName? ⟨⟨"./types"⟩, "ScalarType"⟩ = some "ScalarType" := by
    decide +kernel
  have hqualified : (run false).2.localName? ⟨⟨"./types"⟩, "ScalarType"⟩ =
      some "ScalarType$" := by
    decide +kernel
  rcases @Writer.literals_modes namesakeSchema.registry Config.defaultRuntime
    (Draft.new "main.ts" ⟨"./main"⟩) rfl (by decide +kernel) (by decide +kernel) namesakeInfos with
    ⟨cause, e, e', h, _⟩ | ⟨a, a', e, e', m, h, h', hm, hm'⟩
  · have hrun : run true = (.error cause, e) := h
    rw [hrun] at hok
    cases hok
  · have hrun : run true = (.ok a, e) := h
    have hrun' : run false = (.ok a', e') := h'
    rw [hrun] at hinline
    rw [hrun'] at hqualified
    exact ⟨a, a', e, e', m, h, h', hinline, hqualified, hm, hm'⟩

end FieldInfo

end SchemaScript
