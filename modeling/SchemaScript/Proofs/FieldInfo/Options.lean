import SchemaScript.FieldInfo.OfField
import SchemaScript.Proofs.Schema.CustomOptions
import SchemaScript.Proofs.Schema.Resolved

/-!
# Options in the information about a field

The options of a field hold standard options and extensions in one row of bytes.  The custom options
are read from the extensions, and the rest of the information about the field takes two of the
standard options.  Neither side sees the other: with the same extensions the custom options are the
same whatever the standard options are, and with the same standard options the information is the
same in all but its custom options (`ofField_options_apart`).

The first half needs that no standard option has a name in brackets in JSON.  A schema can give it
one, and then it is taken for an extension (`not_apart_of_bracketedName`).
-/

namespace SchemaScript

open Wire Outcome

/-! ## Rows of bytes -/

/-- The field with the given options. -/
def Field.withOptions (f : Field) (o : FieldOptions) : Field :=
  { f with descriptor := { f.descriptor with options := some o } }

/-- Options in bytes have the same payloads for every standard option. -/
def FieldOptions.SameStandard (b b' : List UInt8) : Prop :=
  ∀ g ∈ FieldOptions.shape.fields, payloadsIn b g.number = payloadsIn b' g.number

namespace CustomOptions

/-- Options in bytes have the same payloads for every extension, in the same order. -/
def SameExtensions (c : CustomOptions) (b b' : List UInt8) : Prop :=
  ∀ g ∈ c.options.fields, g.isExtension = true → payloadsIn b g.number = payloadsIn b' g.number

/-- Options can be read by the schema and rendered. -/
def renders (c : CustomOptions) (o : FieldOptions) : Bool :=
  (c.content? o).any fun d => (c.shapes.render c.options d).toOption.isSome

variable {c : CustomOptions} {files : List FileDescriptor} {b b' : List UInt8} {o o' : FieldOptions}

theorem exists_of_renders (h : c.renders o = true) :
    ∃ d v, c.content? o = some d ∧ c.shapes.render c.options d = .ok v := by
  obtain ⟨d, hd, hrender⟩ := (Option.any_eq_true _ _).mp h
  obtain ⟨v, hv⟩ := Option.isSome_iff_exists.mp hrender
  exact ⟨d, v, hd, toOption_eq_some_iff.mp hv⟩

/-- Options with the same extensions have the same custom options, by the extensions they hold. -/
theorem read_of_sameExtensions (hc : ofFiles files = .ok (some c)) (happart : c.NamesApart)
    (hform : c.options.form = .plain) (hset : c.options.isSet = false)
    (h : FieldOptions.ofBytes? b = some o) (h' : FieldOptions.ofBytes? b' = some o')
    (hrenders : c.renders o = true) (hrenders' : c.renders o' = true)
    (hsame : c.SameExtensions b b') :
    ∃ d custom, c.content? o = some d ∧ c.read o = .ok custom ∧ c.read o' = .ok custom ∧
      TellExtensions files c d custom := by
  obtain ⟨d, v, hd, hv⟩ := exists_of_renders hrenders
  obtain ⟨d', v', hd', hv'⟩ := exists_of_renders hrenders'
  obtain ⟨custom, hread, htell⟩ := read_tellExtensions hc happart hform hset hd hv
  refine ⟨d, custom, hd, hread, ?_, htell⟩
  rw [← hread]
  refine (read_eq_of_lookup hform hset hd hv hd' hv' fun n g hg hpicked => ?_).symm
  have hmem : g ∈ c.options.fields := List.mem_of_find?_eq_some hg
  have hext : g.isExtension = true := by
    by_contra hown
    rw [happart g hmem (eq_false_of_ne_true hown)] at hpicked
    cases hpicked
  have hpayloads : payloadsIn b n = payloadsIn b' n := field?_number hg ▸ hsame g hmem hext
  exact lookup_eq_of_payloads hset (oneof_of_isExtension hc hg hext) h h' hpayloads hd hd'

end CustomOptions

namespace FieldOptions

variable {b b' : List UInt8} {o o' : FieldOptions}

theorem lookup_eq_of_sameStandard (h : ofBytes? b = some o) (h' : ofBytes? b' = some o')
    (hsame : SameStandard b b') {g : FieldShape} (hg : g ∈ shape.fields) :
    o.content.fields.lookup g.number = o'.content.fields.lookup g.number :=
  (agree_of_payloads h h' (hsame g hg)).lookup

theorem packed_of_sameStandard (h : ofBytes? b = some o) (h' : ofBytes? b' = some o')
    (hsame : SameStandard b b') : o.packed? = o'.packed? := by
  have hg : FieldShape.bool packedNumber ∈ shape.fields := .tail _ (.head _)
  exact packed?_eq (lookup_eq_of_sameStandard h h' hsame hg)

theorem longWish_of_sameStandard (h : ofBytes? b = some o) (h' : ofBytes? b' = some o')
    (hsame : SameStandard b b') : o.longWish? = o'.longWish? := by
  have hg : FieldShape.enum longWishNumber "LongWish" ∈ shape.fields :=
    .tail _ (.tail _ (.tail _ (.tail _ (.head _))))
  exact longWish?_eq (lookup_eq_of_sameStandard h h' hsame hg)

end FieldOptions

/-! ## The information -/

namespace FieldInfo

variable {settings : Settings} {s : Schema} {f : Field} {o o' : FieldOptions}

theorem repetitionOf_withOptions (h : o.packed? = o'.packed?) :
    repetitionOf s (f.withOptions o) = repetitionOf s (f.withOptions o') := by
  have hpacked (o : FieldOptions) :
      (f.withOptions o).descriptor.options.bind FieldOptions.packed? = o.packed? := rfl
  unfold repetitionOf
  rw [hpacked, hpacked, h]
  rfl

theorem longTypeOf_withOptions (h : o.longWish? = o'.longWish?) :
    longTypeOf settings (f.withOptions o) = longTypeOf settings (f.withOptions o') := by
  have hwish (o : FieldOptions) :
      (f.withOptions o).descriptor.options.bind FieldOptions.longWish? = o.longWish? := rfl
  funext t
  unfold longTypeOf
  rw [hwish, hwish, h]

theorem kindOf_withOptions (h : o.longWish? = o'.longWish?) :
    kindOf settings s (f.withOptions o) = kindOf settings s (f.withOptions o') := by
  have hvalue : valueKindOf settings s (f.withOptions o) =
      valueKindOf settings s (f.withOptions o') := by
    unfold valueKindOf
    rw [longTypeOf_withOptions h]
    rfl
  unfold kindOf
  rw [hvalue]
  rfl

theorem ofField_eq (f : Field) : ofField settings s f =
    (kindOf settings s f >>= fun kind => optionsOf settings f >>= fun options =>
      .ok {
        number := .scalar (.int f.descriptor.number.toInt)
        name := f.descriptor.name
        kind := kind
        localName := some (safeProperty (lowerCamelCase f.descriptor.name))
        jsonName := some (f.descriptor.jsonName.getD (lowerCamelCase f.descriptor.name))
        oneof := f.realOneof.map fun o => lowerCamelCase o.name
        repetition := some (.scalar (.constant (.repetition (repetitionOf s f))))
        optional := some (optionalOf s f (repetitionOf s f))
        options := options }) := rfl

/-- Information whose options say the same of packing and of long types is the same in all but the
custom options, and if there is none, it is for the same reason. -/
theorem ofField_withOptions (s : Schema) {custom custom' : Option (List (Value × Value))}
    (hpacked : o.packed? = o'.packed?) (hwish : o.longWish? = o'.longWish?)
    (h : optionsOf settings (f.withOptions o) = .ok custom)
    (h' : optionsOf settings (f.withOptions o') = .ok custom') :
    (∀ e, kindOf settings s (f.withOptions o) = .error e →
      ofField settings s (f.withOptions o) = .error e ∧
        ofField settings s (f.withOptions o') = .error e) ∧
    ∀ k, kindOf settings s (f.withOptions o) = .ok k →
      ∃ i, ofField settings s (f.withOptions o) = .ok i ∧
        ofField settings s (f.withOptions o') = .ok { i with options := custom' } := by
  rw [ofField_eq, ofField_eq, h, h', ← kindOf_withOptions hwish]
  refine ⟨fun e he => ?_, fun k hk => ?_⟩
  · rw [he]
    exact ⟨rfl, rfl⟩
  · rw [hk]
    refine ⟨_, rfl, ?_⟩
    rw [← repetitionOf_withOptions hpacked]
    rfl

/-! ## Both halves -/

variable {c : CustomOptions} {files : List FileDescriptor} {b b' : List UInt8}

/-- Custom options and standard options do not interfere, for a schema whose options message has no
form of its own.  With the same extensions the custom options are the same, those of the extensions
that the options hold, unless a standard option has a name in brackets.  With the same standard
options the information is the same in all but the custom options. -/
theorem ofField_options_apart (hc : CustomOptions.ofFiles files = .ok (some c))
    (hform : c.options.form = .plain) (hset : c.options.isSet = false)
    (hsettings : settings.customOptions = some c) (s : Schema) (f : Field)
    (h : FieldOptions.ofBytes? b = some o) (h' : FieldOptions.ofBytes? b' = some o')
    (hrenders : c.renders o = true) (hrenders' : c.renders o' = true) :
    (c.NamesApart → c.SameExtensions b b' →
      ∃ d custom, c.content? o = some d ∧
        optionsOf settings (f.withOptions o) = .ok custom ∧
        optionsOf settings (f.withOptions o') = .ok custom ∧
        CustomOptions.TellExtensions files c d custom) ∧
    (FieldOptions.SameStandard b b' →
      (∀ e, kindOf settings s (f.withOptions o) = .error e →
        ofField settings s (f.withOptions o) = .error e ∧
          ofField settings s (f.withOptions o') = .error e) ∧
      ∀ k, kindOf settings s (f.withOptions o) = .ok k →
        ∃ i custom, ofField settings s (f.withOptions o) = .ok i ∧
          ofField settings s (f.withOptions o') = .ok { i with options := custom }) := by
  have hread (o : FieldOptions) : optionsOf settings (f.withOptions o) = c.read o := by
    rw [optionsOf, hsettings]
    rfl
  refine ⟨fun happart hsame => ?_, fun hsame => ?_⟩
  · rw [hread, hread]
    exact CustomOptions.read_of_sameExtensions hc happart hform hset h h' hrenders hrenders' hsame
  · obtain ⟨d, v, hd, hv⟩ := CustomOptions.exists_of_renders hrenders
    obtain ⟨d', v', hd', hv'⟩ := CustomOptions.exists_of_renders hrenders'
    obtain ⟨_, _, hcustom⟩ := CustomOptions.exists_of_read hform hd hv
    obtain ⟨_, _, hcustom'⟩ := CustomOptions.exists_of_read hform hd' hv'
    obtain ⟨herror, hok⟩ := ofField_withOptions s
      (FieldOptions.packed_of_sameStandard h h' hsame)
      (FieldOptions.longWish_of_sameStandard h h' hsame)
      ((hread o).trans hcustom) ((hread o').trans hcustom')
    refine ⟨herror, fun k hk => ?_⟩
    obtain ⟨i, hi, hi'⟩ := hok k hk
    exact ⟨i, _, hi, hi'⟩

/-! ## A small options message -/

/-- A file with an options message of one option, and an extension of it. -/
def optionsFile (jsonName : Option String) : FileDescriptor :=
  { Schema.sampleFile "google/protobuf/descriptor.proto" "google.protobuf" []
      [Schema.sampleMessage "FieldOptions" false
        [{ Schema.sampleField "deprecated" 3 1 8 none with jsonName := jsonName }] []] [] with
    extensions := [{ Schema.sampleField "hint" 1000 1 9 none with
      extendee := some ".google.protobuf.FieldOptions" }] }

/-- The shapes for the custom options of the file. -/
def smallOptions (jsonName : Option String) : CustomOptions :=
  ⟨shapesOf [optionsFile jsonName],
    (shapesOf [optionsFile jsonName]).message CustomOptions.messageName⟩

theorem ofFiles_optionsFile (jsonName : Option String) :
    CustomOptions.ofFiles [optionsFile jsonName] = .ok (some (smallOptions jsonName)) := rfl

/-- The bytes of the extension with a text. -/
def hintBytes : List UInt8 :=
  [0xC2, 0x3E, 0x01, 0x61]

/-- The bytes of the standard option. -/
def deprecatedBytes : List UInt8 :=
  [0x18, 0x01]

/-- Options with the standard option or without it, and with bytes that are not known. -/
def smallChoice (deprecated : Bool) (rest : List UInt8) : FieldOptions :=
  ⟨⟨if deprecated then [(3, [.bool true])] else [], rest⟩⟩

/-- Settings with the custom options of the file. -/
def smallSettings : Settings :=
  ⟨.string, some (smallOptions none)⟩

/-- An extension stands for the same with the standard option and without it, and a field has the
same information with the extension and without it. -/
theorem ofField_options_apart_of_hint :
    ∃ m f i custom, Schema.sampleSchema.registry.messages.get? "p.Tree" = some m ∧
      m.fields[3]? = some f ∧
      optionsOf smallSettings (f.withOptions (smallChoice true hintBytes)) =
        .ok (some [(.text "google.protobuf.hint", .text "a")]) ∧
      ofField smallSettings Schema.sampleSchema (f.withOptions (smallChoice true [])) = .ok i ∧
      ofField smallSettings Schema.sampleSchema (f.withOptions (smallChoice true hintBytes)) =
        .ok { i with options := custom } := by
  have hfound : ((Schema.sampleSchema.registry.messages.get? "p.Tree").any fun m =>
      m.fields[3]?.any fun f =>
        (kindOf smallSettings Schema.sampleSchema
          (f.withOptions (smallChoice true []))).toOption.isSome) = true := by
    decide +kernel
  have hsmall : (smallOptions none).NamesApart ∧
      (smallOptions none).SameExtensions hintBytes (hintBytes ++ deprecatedBytes) ∧
      FieldOptions.SameStandard deprecatedBytes (hintBytes ++ deprecatedBytes) ∧
      (smallOptions none).renders (smallChoice false hintBytes) = true ∧
      (smallOptions none).renders (smallChoice true hintBytes) = true ∧
      (smallOptions none).renders (smallChoice true []) = true := by
    unfold CustomOptions.NamesApart CustomOptions.SameExtensions FieldOptions.SameStandard
    decide +kernel
  obtain ⟨happart, hextensions, hstandard, hhint, hboth, hdeprecated⟩ := hsmall
  obtain ⟨m, hm, hfound⟩ := (Option.any_eq_true _ _).mp hfound
  obtain ⟨f, hf, hfound⟩ := (Option.any_eq_true _ _).mp hfound
  obtain ⟨k, hk⟩ := Option.isSome_iff_exists.mp hfound
  have hsettings : smallSettings.customOptions = some (smallOptions none) := rfl
  have hform : (smallOptions none).options.form = .plain := rfl
  have hset : (smallOptions none).options.isSet = false := rfl
  have hbytes : FieldOptions.ofBytes? hintBytes = some (smallChoice false hintBytes) := rfl
  have hbytes' : FieldOptions.ofBytes? (hintBytes ++ deprecatedBytes) =
      some (smallChoice true hintBytes) := rfl
  have hbytes'' : FieldOptions.ofBytes? deprecatedBytes = some (smallChoice true []) := rfl
  have hread : optionsOf smallSettings (f.withOptions (smallChoice false hintBytes)) =
      .ok (some [(.text "google.protobuf.hint", .text "a")]) := rfl
  obtain ⟨_, _, _, hleft, hright, _⟩ :=
    (ofField_options_apart (ofFiles_optionsFile none) hform hset hsettings Schema.sampleSchema f
      hbytes hbytes' hhint hboth).1 happart hextensions
  obtain ⟨i, custom, hi, hi'⟩ :=
    ((ofField_options_apart (ofFiles_optionsFile none) hform hset hsettings Schema.sampleSchema f
      hbytes'' hbytes' hdeprecated hboth).2 hstandard).2 k (toOption_eq_some_iff.mp hk)
  cases hleft.symm.trans hread
  exact ⟨m, f, i, custom, hm, hf, hright, hi, hi'⟩

/-- A standard option with a name in brackets stands among the custom options. -/
theorem not_apart_of_bracketedName :
    CustomOptions.ofFiles [optionsFile (some "[deprecated]")] =
        .ok (some (smallOptions (some "[deprecated]"))) ∧
      FieldOptions.ofBytes? [] = some (smallChoice false []) ∧
      FieldOptions.ofBytes? deprecatedBytes = some (smallChoice true []) ∧
      (smallOptions (some "[deprecated]")).SameExtensions [] deprecatedBytes ∧
      (smallOptions (some "[deprecated]")).read (smallChoice false []) = .ok none ∧
      (smallOptions (some "[deprecated]")).read (smallChoice true []) =
        .ok (some [(.text "deprecated", .scalar (.bool true))]) := by
  refine ⟨rfl, rfl, rfl, ?_, rfl, rfl⟩
  unfold CustomOptions.SameExtensions
  decide +kernel

end FieldInfo

end SchemaScript
