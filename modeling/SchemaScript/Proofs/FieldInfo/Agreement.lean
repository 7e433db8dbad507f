import SchemaScript.FieldInfo.Literal
import SchemaScript.FieldInfo.OfField
import SchemaScript.Proofs.FieldInfo.OfField
import SchemaScript.Proofs.FieldInfo.Reading
import SchemaScript.Proofs.Schema.Agreement

/-!
# Field information that agrees

The information about a field, and its literal, in two schemas that agree.

Alike fields have the same information (`FieldInfo.ofField_alike`), where for a map the fields of
its entries must be alike too.  A literal looks up nothing in the registry but the declaration that
the kind of the field refers to, and takes nothing from it but its symbol
(`FieldInfo.Writer.literal_alike`).
-/

namespace SchemaScript

open Outcome Schema

/-! ## What fields refer to -/

namespace Field.Alike

variable {s s' : Schema} {f f' : Field}

theorem view_eq (h : Alike s s' f f') {α : Type} (view : Field → α)
    (hview : ∀ f : Field, view f.bare = view f) : view f = view f' :=
  view_eq_of_forget Field.bare view hview h.same

/-- Alike fields both refer to nothing, or to messages or enums that show them the same. -/
theorem target_cases (h : Alike s s' f f') :
    (s.target? f = none ∧ s'.target? f' = none) ∨
      (∃ m m', s.target? f = some (.message m) ∧ s'.target? f' = some (.message m') ∧
        m.fullName = m'.fullName ∧ m.isMapEntry = m'.isMapEntry) ∨
      ∃ e e', s.target? f = some (.enum e) ∧ s'.target? f' = some (.enum e') ∧
        e.fullName = e'.fullName ∧ e.sharedStem = e'.sharedStem := by
  have htarget := h.target
  generalize s.target? f = x at htarget ⊢
  generalize s'.target? f' = x' at htarget ⊢
  cases htarget with
  | none => exact .inl ⟨rfl, rfl⟩
  | some hlike =>
    cases hlike with
    | message hname hentry => exact .inr (.inl ⟨_, _, rfl, rfl, hname, hentry⟩)
    | enum hname hstem => exact .inr (.inr ⟨_, _, rfl, rfl, hname, hstem⟩)

/-- Alike fields are both no maps, or both maps. -/
theorem mapEntry_cases (h : Alike s s' f f') :
    (s.mapEntry? f = none ∧ s'.mapEntry? f' = none) ∨
      ∃ e e', s.mapEntry? f = some e ∧ s'.mapEntry? f' = some e' := by
  unfold Schema.mapEntry? Schema.message?
  rcases h.target_cases with ⟨hx, hx'⟩ | ⟨m, m', hx, hx', _, hentry⟩ | ⟨e, e', hx, hx', _⟩
  · exact .inl ⟨by rw [hx]; rfl, by rw [hx']; rfl⟩
  · rw [hx, hx']
    cases hmap : m.isMapEntry with
    | true =>
      refine .inr ⟨m, m', Option.filter_some_pos hmap, Option.filter_some_pos ?_⟩
      rw [← hentry, hmap]
    | false =>
      have hmap' : m'.isMapEntry = false := by rw [← hentry, hmap]
      exact .inl ⟨Option.filter_some_neg (by simp [hmap]),
        Option.filter_some_neg (by simp [hmap'])⟩
  · exact .inl ⟨by rw [hx]; rfl, by rw [hx']; rfl⟩

theorem isMap_eq (h : Alike s s' f f') : s.isMap f = s'.isMap f' := by
  unfold Schema.isMap
  rcases h.mapEntry_cases with ⟨he, he'⟩ | ⟨e, e', he, he'⟩ <;> rw [he, he']
  rfl

end Field.Alike

/-! ## Information -/

namespace FieldInfo

variable {settings : Settings} {s s' : Schema} {f f' : Field}

theorem scalarTypeOf_alike (h : Field.Alike s s' f f') : scalarTypeOf f = scalarTypeOf f' :=
  h.view_eq scalarTypeOf fun _ => rfl

theorem repetitionOf_alike (h : Field.Alike s s' f f') : repetitionOf s f = repetitionOf s' f' := by
  unfold repetitionOf Schema.isList
  rw [h.isMap_eq, h.view_eq Field.type fun _ => rfl, h.view_eq Field.cardinality fun _ => rfl,
    h.view_eq (fun f => f.descriptor.options) fun _ => rfl,
    h.view_eq (fun f => f.file.isOlderDialect) fun _ => rfl]

theorem optionalOf_alike (h : Field.Alike s s' f f') (r : RepeatType) :
    optionalOf s f r = optionalOf s' f' r := by
  unfold optionalOf
  rw [h.isMap_eq, h.view_eq Field.type fun _ => rfl, h.view_eq Field.cardinality fun _ => rfl,
    h.view_eq (fun f => f.descriptor.proto3Optional) fun _ => rfl,
    h.view_eq Field.realOneof fun _ => rfl, h.view_eq (fun f => f.file.isOlderDialect) fun _ => rfl]

theorem valueKindOf_alike (h : Field.Alike s s' f f') :
    valueKindOf settings s f = valueKindOf settings s' f' := by
  have htype : f.type = f'.type := h.view_eq Field.type fun _ => rfl
  have hlong (t : ScalarType) : longTypeOf settings f t = longTypeOf settings f' t :=
    h.view_eq (fun f => longTypeOf settings f t) fun _ => rfl
  unfold valueKindOf
  rw [htype, scalarTypeOf_alike h]
  simp only [hlong]
  rcases h.target_cases with
    ⟨hx, hx'⟩ | ⟨m, m', hx, hx', hname, _⟩ | ⟨e, e', hx, hx', hname, hstem⟩
  · rw [hx, hx']
  · rw [hx, hx']
    cases f'.type <;> simp only [hname]
  · rw [hx, hx']
    cases f'.type <;> simp only [hname, hstem]

/-- The fields of the entries of two fields are alike, if both are maps. -/
def AlikeEntries (s s' : Schema) (f f' : Field) : Prop :=
  ∀ e e', s.mapEntry? f = some e → s'.mapEntry? f' = some e' →
    List.Forall₂ (Field.Alike s s') e.fields e'.fields

theorem kindOf_alike (h : Field.Alike s s' f f') (hentry : AlikeEntries s s' f f') :
    kindOf settings s f = kindOf settings s' f' := by
  have htype : f.type = f'.type := h.view_eq Field.type fun _ => rfl
  have hname : f.fullName = f'.fullName := h.view_eq Field.fullName fun _ => rfl
  unfold kindOf
  rw [htype, hname, valueKindOf_alike h]
  rcases h.mapEntry_cases with ⟨he, he'⟩ | ⟨e, e', he, he'⟩
  · rw [he, he']
  · have hfields := hentry e e' he he'
    simp only [he, he']
    generalize e.fields = parts at hfields
    generalize e'.fields = parts' at hfields
    rcases hfields with _ | ⟨hkey, _ | ⟨hvalue, _⟩⟩
    · rfl
    · simp only [List.getElem?_cons_zero, scalarTypeOf_alike hkey, List.getElem?_cons_succ,
        List.getElem?_nil]
    · simp only [List.getElem?_cons_zero, scalarTypeOf_alike hkey, List.getElem?_cons_succ,
        valueKindOf_alike hvalue]

/-- Alike fields have the same information. -/
theorem ofField_alike (h : Field.Alike s s' f f') (hentry : AlikeEntries s s' f f') :
    ofField settings s f = ofField settings s' f' := by
  simp only [ofField, kindOf_alike h hentry, repetitionOf_alike h, optionalOf_alike h,
    h.view_eq (fun f => f.descriptor.number) fun _ => rfl,
    h.view_eq (fun f => f.descriptor.name) fun _ => rfl,
    h.view_eq (fun f => f.descriptor.jsonName) fun _ => rfl, h.view_eq Field.realOneof fun _ => rfl,
    h.view_eq (fun f => optionsOf settings f) fun _ => rfl]

/-- The fields of like messages have the same information. -/
theorem ofField_eq_of_like {rule : PathRule} {toGenerate toGenerate' : List String}
    {ds ds' : List FileDescriptor} {fs fs' : List File}
    (h : Within rule toGenerate toGenerate' ds ds' fs fs' s s') {m m' : Message}
    (hm : .message m ∈ fs.flatMap File.declared) (hm' : .message m' ∈ fs'.flatMap File.declared)
    (hsame : m.unplaced = m'.unplaced) :
    List.Forall₂ (fun f f' => f.unplaced = f'.unplaced ∧
      ofField settings s f = ofField settings s' f') m.fields m'.fields := by
  refine Related.imp_mem (h.alike hm hm' hsame) fun f hf f' hf' ⟨hff', halike⟩ => ?_
  refine ⟨hff', ofField_alike halike fun e e' he he' => ?_⟩
  have htarget := (target?_of_entry he).1
  have htarget' := (target?_of_entry he').1
  have hlike := h.target_like hm hm' hf hf' hff'
  rw [htarget, htarget'] at hlike
  cases hlike with
  | some hlike =>
    exact (h.alike (h.smaller.target_mem hm hf htarget) (h.larger.target_mem hm' hf' htarget')
      (Declared.message.inj hlike)).imp fun _ _ h => h.2

/-! ## Literals -/

namespace Writer

/-- Two writers have the same runtime, and see the same symbol in what a kind refers to. -/
structure Alike (w w' : Writer) (k : FieldKind) : Prop where
  runtime : w.runtime = w'.runtime
  inlined : w.inlined = w'.inlined
  symbol : ∀ t, k.typeName? = some t →
    (w.registry.declared? t).map Declared.symbol = (w'.registry.declared? t).map Declared.symbol

variable {w w' : Writer} {k : FieldKind}

theorem constant_alike (h : Alike w w' k) : w.constant = w'.constant := by
  funext family value
  unfold constant
  rw [h.runtime, h.inlined]

theorem reference_alike (h : Alike w w' k) {t : String} (ht : k.typeName? = some t)
    (referrer : String) : w.reference t referrer = w'.reference t referrer := by
  have hsymbol := h.symbol t ht
  unfold reference
  cases hx : w.registry.declared? t with
  | none =>
    rw [hx, Option.map_none, eq_comm, Option.map_eq_none_iff] at hsymbol
    rw [hsymbol]
  | some x =>
    rw [hx, Option.map_some, eq_comm, Option.map_eq_some_iff] at hsymbol
    obtain ⟨x', hx', hsame⟩ := hsymbol
    rw [hx']
    simp only [hsame]

theorem checkReference_alike (h : Alike w w' k) {t : String} (ht : k.typeName? = some t)
    (referrer : String) : w.checkReference t referrer = w'.checkReference t referrer := by
  have hsymbol := congrArg Option.isSome (h.symbol t ht)
  rw [Option.isSome_map, Option.isSome_map] at hsymbol
  unfold checkReference
  cases hx : w.registry.declared? t <;> cases hx' : w'.registry.declared? t <;>
    rw [hx, hx'] at hsymbol <;> first | rfl | cases hsymbol

theorem kindProperties_alike (h : Alike w w' k) (referrer : String) :
    w.kindProperties referrer k = w'.kindProperties referrer k := by
  induction k with
  | scalar type long => simp only [kindProperties, constant_alike h]
  | enumeration t stem => simp only [kindProperties, enumFunction, reference_alike h rfl]
  | message t => simp only [kindProperties, messageFunction, reference_alike h rfl]
  | map key value ih =>
    simp only [kindProperties, constant_alike h, ih ⟨h.runtime, h.inlined, h.symbol⟩]

theorem checkKind_alike (h : Alike w w' k) (referrer : String) :
    w.checkKind referrer k = w'.checkKind referrer k := by
  have hvalue {v : FieldKind} (hv : Alike w w' v) :
      w.checkValueKind referrer v = w'.checkValueKind referrer v := by
    cases v with
    | scalar type long => rfl
    | enumeration t stem => exact checkReference_alike hv rfl referrer
    | message t => exact checkReference_alike hv rfl referrer
    | map key value => rfl
  cases k with
  | map key value =>
    simp only [checkKind, hvalue (v := value) ⟨h.runtime, h.inlined, h.symbol⟩]
  | scalar type long => exact hvalue h
  | enumeration t stem => exact hvalue h
  | message t => exact hvalue h

/-- Alike writers write the same literal. -/
theorem literal_alike {i : FieldInfo} (h : Alike w w' i.kind) : w.literal i = w'.literal i := by
  have hminimized : Alike w w' i.minimized.kind := h
  simp only [literal, properties, minimizedProperties, checkKind_alike hminimized,
    constant_alike hminimized, kindProperties_alike hminimized]

end Writer

end FieldInfo

end SchemaScript
