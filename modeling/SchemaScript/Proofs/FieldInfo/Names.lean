import SchemaScript.Proofs.Draft.Growth
import SchemaScript.Proofs.FieldInfo.Reading
import SchemaScript.Proofs.Outcome

/-!
# Names in field literals

Which names a field literal asks its module for.

`Expr.names` lists the identifiers in the functions of an expression and at the base of its property
accesses.  In a field literal these are the targets of its references and the enumerations of
qualified constants.  A bare identifier elsewhere is `null`.

`FieldInfo.Writer.literal_asks` says that each of them stands for an enumeration of the runtime or
for the declaration that the kind of the field refers to, and that nothing else is imported.
-/

namespace SchemaScript

/-! ## Names in expressions -/

namespace Expr

mutual

/-- The identifiers in functions and at the base of accesses, and all others too if they are
`counted`. -/
def namesIn (counted : Bool) : Expr → List String
  | .ident name => if counted then [name] else []
  | .access base _ => namesIn true base
  | .arrow body => namesIn true body
  | .array elements _ => namesInAll counted elements
  | .object properties _ => namesInProperties counted properties
  | .number _ _ | .misfit _ | .text _ | .bool _ => []

/-- The names in expressions in order. -/
def namesInAll (counted : Bool) : List Expr → List String
  | [] => []
  | e :: rest => namesIn counted e ++ namesInAll counted rest

/-- The names in properties in order. -/
def namesInProperties (counted : Bool) : List (String × Expr) → List String
  | [] => []
  | (_, e) :: rest => namesIn counted e ++ namesInProperties counted rest

end

/-- The names that an expression asks its module for. -/
def names (e : Expr) : List String :=
  e.namesIn false

theorem namesInProperties_append (counted : Bool) (ps qs : List (String × Expr)) :
    namesInProperties counted (ps ++ qs) =
      namesInProperties counted ps ++ namesInProperties counted qs := by
  induction ps with
  | nil => rfl
  | cons p rest ih =>
    rw [List.cons_append, namesInProperties, namesInProperties, ih, List.append_assoc]

mutual

/-- The literal for a value asks for nothing. -/
theorem names_ofValue (v : Value) {e : Expr} (h : ofValue v = .ok e) : e.namesIn false = [] := by
  cases v with
  | scalar s => cases h; cases s <;> rfl
  | list items =>
    obtain ⟨es, hes, rfl⟩ := Outcome.map_eq_ok_iff.mp h
    exact names_ofValues items hes
  | tuple items =>
    obtain ⟨es, hes, rfl⟩ := Outcome.map_eq_ok_iff.mp h
    exact names_ofValues items hes
  | table entries =>
    obtain ⟨ps, hps, rfl⟩ := Outcome.map_eq_ok_iff.mp h
    exact names_ofEntries entries hps
  | bytes content => cases h
  | set => cases h
  | object => cases h

theorem names_ofValues (items : List Value) {es : List Expr} (h : ofValues items = .ok es) :
    namesInAll false es = [] := by
  cases items with
  | nil => cases h; rfl
  | cons v rest =>
    simp only [ofValues, Outcome.bind_eq_ok_iff, Outcome.pure_eq_ok_iff] at h
    obtain ⟨e, he, es', hes', rfl⟩ := h
    rw [namesInAll, names_ofValue v he, names_ofValues rest hes']
    rfl

theorem names_ofEntries (entries : List (Value × Value)) {ps : List (String × Expr)}
    (h : ofEntries entries = .ok ps) : namesInProperties false ps = [] := by
  cases entries with
  | nil => cases h; rfl
  | cons p rest =>
    obtain ⟨key, v⟩ := p
    simp only [ofEntries, Outcome.bind_eq_ok_iff, Outcome.pure_eq_ok_iff] at h
    obtain ⟨name, -, e, he, ps', hps', rfl⟩ := h
    rw [namesInProperties, names_ofValue v he, names_ofEntries rest hps']
    rfl

end

end Expr

/-! ## What writing a literal asks for -/

namespace FieldInfo.Writer

open Edit (Asks)
open Draft (Told)

variable {w : Writer} {allowed : Symbol → Prop} {d : Draft}

/-- The names in properties. -/
def propertyNames (ps : Properties) : List String :=
  Expr.namesInProperties false ps

theorem constant_asks {family : Family} (hruntime : allowed ⟨w.runtime, family.name⟩)
    (value : Value) : Asks allowed Expr.names (w.constant family value) d := by
  unfold constant
  refine (Asks.outcome _).bind fun c d' _ _ => ?_
  split
  · exact .pure nofun
  · refine (Asks.request hruntime).bind fun l d'' _ hl => ?_
    exact .pure hl

theorem whenSome_asks {key : String} {write : Value → Edit Expr}
    (hwrite : ∀ v, Asks allowed Expr.names (write v) d) (value : Option Value) :
    Asks allowed propertyNames (whenSome key write value) d := by
  cases value with
  | none => exact .pure nofun
  | some v =>
    refine (hwrite v).bind fun e d' _ he => .pure fun l hl => he l ?_
    simpa [propertyNames, Expr.namesInProperties, Expr.names] using hl

theorem reference_asks {typeName : String}
    (hdeclared : ∀ x, w.registry.declared? typeName = some x → allowed x.symbol)
    (referrer : String) :
    Asks allowed (fun r : String × ImportPath => [r.1]) (w.reference typeName referrer) d := by
  unfold reference
  split
  · exact (Asks.view _).bind fun _ _ _ _ => .fail _
  · next x hx =>
    refine (Asks.request (hdeclared x hx)).bind fun l d₁ _ hl => ?_
    refine (Asks.view _).bind fun file d₂ hd₂ _ => ?_
    refine (Asks.tell _).bind fun _ d₃ hd₃ _ => .pure fun l' hl' => ?_
    exact (hl l' hl').leads (hd₂.trans hd₃)

theorem enumFunction_asks {typeName : String}
    (hdeclared : ∀ x, w.registry.declared? typeName = some x → allowed x.symbol)
    (sharedStem : Option String) (referrer : String) :
    Asks allowed Expr.names (w.enumFunction typeName sharedStem referrer) d := by
  unfold enumFunction
  refine (reference_asks hdeclared referrer).bind fun r d' _ hr => .pure fun l hl => hr l ?_
  cases sharedStem with
  | none => simpa [Expr.names, Expr.namesIn, Expr.namesInAll] using hl
  | some s =>
    by_cases hs : s = "" <;> simpa [Expr.names, Expr.namesIn, Expr.namesInAll, hs] using hl

theorem messageFunction_asks {typeName : String}
    (hdeclared : ∀ x, w.registry.declared? typeName = some x → allowed x.symbol)
    (referrer : String) :
    Asks allowed Expr.names (w.messageFunction typeName referrer) d := by
  unfold messageFunction
  refine (reference_asks hdeclared referrer).bind fun r d' _ hr => .pure fun l hl => hr l ?_
  simpa [Expr.names, Expr.namesIn] using hl

/-- What may be asked for by a field of a kind: the enumerations of the runtime, and the declaration
that the kind refers to. -/
structure Allows (w : Writer) (allowed : Symbol → Prop) (k : FieldKind) : Prop where
  runtime : ∀ family : Family, allowed ⟨w.runtime, family.name⟩
  declared : ∀ t x, k.typeName? = some t → w.registry.declared? t = some x → allowed x.symbol

theorem kindProperties_asks {k : FieldKind} (hk : w.Allows allowed k) (referrer : String)
    (d : Draft) : Asks allowed propertyNames (w.kindProperties referrer k) d := by
  induction k generalizing d with
  | scalar type long =>
    unfold kindProperties
    refine (constant_asks (hk.runtime _) type).bind fun t d₁ _ ht => ?_
    refine (whenSome_asks (fun v => constant_asks (hk.runtime _) v) long).bind
      fun ps d₂ hd₂ hps => .pure fun l hl => ?_
    rw [propertyNames, Expr.namesInProperties, List.mem_append] at hl
    rcases hl with hl | hl
    · exact (ht l hl).leads hd₂
    · exact hps l hl
  | enumeration typeName sharedStem =>
    unfold kindProperties
    refine (enumFunction_asks (fun x hx => hk.declared _ x rfl hx) sharedStem referrer).bind
      fun t d' _ ht => .pure fun l hl => ht l ?_
    simpa [propertyNames, Expr.namesInProperties, Expr.names] using hl
  | message typeName =>
    unfold kindProperties
    refine (messageFunction_asks (fun x hx => hk.declared _ x rfl hx) referrer).bind
      fun t d' _ ht => .pure fun l hl => ht l ?_
    simpa [propertyNames, Expr.namesInProperties, Expr.names] using hl
  | map key value ih =>
    unfold kindProperties
    refine (constant_asks (hk.runtime _) key).bind fun k d₁ _ hk' => ?_
    split
    · exact .fail _
    · refine (ih ⟨hk.runtime, hk.declared⟩ d₁).bind fun ps d₂ hd₂ hps => .pure fun l hl => ?_
      simp only [propertyNames, Expr.namesInProperties, Expr.namesIn, List.nil_append,
        List.append_nil, List.mem_append] at hl
      rcases hl with hl | hl
      · exact (hk' l hl).leads hd₂
      · exact hps l hl

theorem checkKind_asks (k : FieldKind) (referrer : String) (d : Draft) :
    Asks allowed (fun _ => []) (w.checkKind referrer k) d := by
  have hreference (t : String) : Asks allowed (fun _ => []) (w.checkReference t referrer) d := by
    unfold checkReference
    split
    · exact .pure nofun
    · exact (Asks.view _).bind fun _ _ _ _ => .fail _
  have hvalue (k : FieldKind) : Asks allowed (fun _ => []) (w.checkValueKind referrer k) d := by
    cases k with
    | enumeration t _ => exact hreference t
    | message t => exact hreference t
    | _ => exact .pure nofun
  cases k with
  | map _ value =>
    simp only [checkKind]
    split
    · exact .fail _
    · exact hvalue value
  | scalar type long => exact hvalue (.scalar type long)
  | enumeration t stem => exact hvalue (.enumeration t stem)
  | message t => exact hvalue (.message t)

theorem names_optionsProperty {options : Option (List (Value × Value))} {ps : Properties}
    (h : optionsProperty options = .ok ps) : propertyNames ps = [] := by
  unfold optionsProperty at h
  split at h
  · cases h; rfl
  · cases h; rfl
  · obtain ⟨e, he, rfl⟩ := Outcome.map_eq_ok_iff.mp h
    rw [propertyNames, Expr.namesInProperties, Expr.names_ofValue _ he]
    rfl

theorem names_textProperty (key : String) (value : Option String) :
    propertyNames (textProperty key value) = [] := by
  cases value <;> rfl

theorem names_boolProperty (key : String) (value : Option Bool) :
    propertyNames (boolProperty key value) = [] := by
  cases value <;> rfl

theorem propertyNames_append (ps qs : Properties) :
    propertyNames (ps ++ qs) = propertyNames ps ++ propertyNames qs :=
  Expr.namesInProperties_append false ps qs

theorem minimizedProperties_asks {i : FieldInfo} (hk : w.Allows allowed i.kind) (d : Draft) :
    Asks allowed propertyNames (w.minimizedProperties i) d := by
  unfold minimizedProperties
  refine (checkKind_asks i.kind i.name d).bind fun _ d₁ _ _ => ?_
  refine (Asks.ofExcept (fun e he => Expr.names_ofValue i.number he)).bind fun e d₂ _ he => ?_
  refine (whenSome_asks (fun v => constant_asks (hk.runtime _) v) i.repetition).bind
    fun rep d₃ hd₃ hrep => ?_
  refine (kindProperties_asks hk i.name d₃).bind fun kind d₄ hd₄ hkind => ?_
  refine (Asks.ofExcept (fun ps hps => names_optionsProperty hps)).bind
    fun options d₅ hd₅ hoptions => .pure fun l hl => ?_
  have hhead : propertyNames [("no", e), ("name", .text i.name), ("kind", .text i.kind.word)] =
      e.namesIn false := by
    simp [propertyNames, Expr.namesInProperties, Expr.namesIn]
  simp only [propertyNames_append, hhead, names_textProperty, names_boolProperty,
    List.append_nil, List.mem_append] at hl
  rcases hl with ((hl | hl) | hl) | hl
  · exact (he l hl).leads (hd₃.trans (hd₄.trans hd₅))
  · exact (hrep l hl).leads (hd₄.trans hd₅)
  · exact (hkind l hl).leads hd₅
  · exact hoptions l hl

/-- Each name in a field literal stands for an enumeration of the runtime or for what the field
refers to, and nothing else is imported for it. -/
theorem literal_asks {i : FieldInfo} (hk : w.Allows allowed i.kind) (d : Draft) :
    Asks allowed Expr.names (w.literal i) d := by
  have hminimized : w.Allows allowed i.minimized.kind := hk
  refine (minimizedProperties_asks hminimized d).bind fun ps d' _ hps => .pure hps

end FieldInfo.Writer

end SchemaScript
