import SchemaScript.Proofs.Wire.Agreement
import SchemaScript.Schema.CustomOptions

/-!
# Options of a field in bytes

The options of a field are read twice.  First they are read by the shape of the standard options,
which all schemas share.  What was read is written to bytes, and these are read again by the shape
that the schema declares for the options message.

A number means something to both readers, to one or to none.  Each of them reads number by number,
and so does writing, so what the second reader finds under a number depends only on the payloads of
this number in the bytes at the start (`CustomOptions.lookup_eq_of_payloads`).
-/

namespace SchemaScript

open Wire

/-! ## The standard options -/

/-- The shape of the standard options of a field. -/
def FieldOptions.shape : MessageShape :=
  requestShapes.message "FieldOptions"

/-- The options of a field in bytes. -/
def FieldOptions.ofBytes? (bytes : List UInt8) : Option FieldOptions :=
  (requestShapes.readBytes maxDepth shape bytes).map FieldOptions.mk

/-- The payloads of a number in bytes, none if the bytes can not be parsed. -/
def payloadsIn (bytes : List UInt8) (n : Nat) : List Payload :=
  payloadsOf n ((parse maxDepth bytes).getD [])

namespace FieldOptions

variable {b b' : List UInt8} {o o' : FieldOptions} {es gs gs' : List Wire.Field} {n : Nat}

theorem isSet_shape : shape.isSet = false := rfl

/-- Whether a field is one that standard options have: with values that are written under a number
of their own, and outside of oneofs. -/
def isRegular (f : FieldShape) : Bool :=
  f.type != .group && 0 < f.number && f.number < 2 ^ 29 && f.oneof.isNone

theorem shape_regular : shape.fields.all isRegular = true := by decide +kernel

theorem isRegular_of_field? {f : FieldShape} (h : shape.field? n = some f) : isRegular f = true :=
  List.all_eq_true.mp shape_regular f (List.mem_of_find?_eq_some h)

theorem writable_of_field? {f : FieldShape} (h : shape.field? n = some f) : f.Writable := by
  have hregular := isRegular_of_field? h
  simp only [isRegular, Bool.and_eq_true, bne_iff_ne, decide_eq_true_eq] at hregular
  exact ⟨hregular.1.1.1, hregular.1.1.2, hregular.1.2⟩

theorem oneof_field? (n : Nat) : (shape.field? n).bind FieldShape.oneof = none := by
  cases h : shape.field? n with
  | none => rfl
  | some f =>
    have hregular := isRegular_of_field? h
    simp only [isRegular, Bool.and_eq_true] at hregular
    exact Option.isNone_iff_eq_none.mp hregular.2

theorem ofBytes?_eq_some_iff : ofBytes? b = some o ↔
    ∃ es, parse maxDepth b = some es ∧
      requestShapes.readInto maxDepth shape .empty es = some o.content := by
  rw [ofBytes?, Shapes.readBytes, Option.map_eq_some_iff]
  constructor
  · rintro ⟨content, hcontent, rfl⟩
    exact Option.bind_eq_some_iff.mp hcontent
  · intro h
    exact ⟨o.content, Option.bind_eq_some_iff.mpr h, rfl⟩

theorem payloadsIn_eq (h : parse maxDepth b = some es) (n : Nat) :
    payloadsIn b n = payloadsOf n es := by
  rw [payloadsIn, h, Option.getD_some]

/-- Options with the same payloads of a number hold and keep the same under it. -/
theorem agree_of_payloads (h : ofBytes? b = some o) (h' : ofBytes? b' = some o')
    (hn : payloadsIn b n = payloadsIn b' n) : Content.Agree maxDepth n o.content o'.content := by
  obtain ⟨es, hes, ho⟩ := ofBytes?_eq_some_iff.mp h
  obtain ⟨fs, hfs, ho'⟩ := ofBytes?_eq_some_iff.mp h'
  rw [payloadsIn_eq hes, payloadsIn_eq hfs] at hn
  exact readInto_agree isSet_shape (oneof_field? n) (parse_eq_some_iff.mp hes).1
    (parse_eq_some_iff.mp hfs).1 hn ho ho'

theorem sorted_of_bytes (h : ofBytes? b = some o) : o.content.fields.Sorted := by
  obtain ⟨es, hes, ho⟩ := ofBytes?_eq_some_iff.mp h
  exact sorted_of_readInto isSet_shape (parse_eq_some_iff.mp hes).1 ho

/-- What is written under a number depends on what is held and kept under it. -/
theorem payloadsOf_bytes (h : Content.Agree maxDepth n o.content o'.content)
    (ho : o.content.fields.Sorted) (ho' : o'.content.fields.Sorted)
    (hgs : parse maxDepth o.bytes = some gs) (hgs' : parse maxDepth o'.bytes = some gs') :
    payloadsOf n gs = payloadsOf n gs' := by
  obtain ⟨es, fs, hes, hfs, heq⟩ := h.rest
  obtain ⟨_, hmore, hleft⟩ :=
    payloadsOf_encodeFields (fun _ _ => writable_of_field?) ho.nodup hgs
  obtain ⟨_, hmore', hright⟩ :=
    payloadsOf_encodeFields (fun _ _ => writable_of_field?) ho'.nodup hgs'
  cases hes.symm.trans hmore
  cases hfs.symm.trans hmore'
  rw [hleft n, hright n, h.lookup, heq]

/-- The options that stand for a number. -/
theorem packed?_eq (h : o.content.fields.lookup packedNumber = o'.content.fields.lookup packedNumber) :
    o.packed? = o'.packed? := by
  rw [packed?, packed?, Record.bool?, Record.bool?, Record.values, Record.values, h]

theorem longWish?_eq
    (h : o.content.fields.lookup longWishNumber = o'.content.fields.lookup longWishNumber) :
    o.longWish? = o'.longWish? := by
  rw [longWish?, longWish?, Record.int?, Record.int?, Record.values, Record.values, h]

end FieldOptions

/-! ## The options of the schema -/

namespace CustomOptions

variable {c : CustomOptions} {b b' : List UInt8} {o o' : FieldOptions} {d d' : Content} {n : Nat}

/-- What options hold by the shape of the schema. -/
def content? (c : CustomOptions) (o : FieldOptions) : Option Content :=
  c.shapes.readBytes maxDepth c.options o.bytes

theorem content?_eq_some_iff : c.content? o = some d ↔
    ∃ gs, parse maxDepth o.bytes = some gs ∧
      c.shapes.readInto maxDepth c.options .empty gs = some d :=
  Option.bind_eq_some_iff

/-- What the schema finds under a number in options depends only on the payloads of the number. -/
theorem lookup_eq_of_payloads (hset : c.options.isSet = false)
    (ho : (c.options.field? n).bind FieldShape.oneof = none)
    (h : FieldOptions.ofBytes? b = some o) (h' : FieldOptions.ofBytes? b' = some o')
    (hn : payloadsIn b n = payloadsIn b' n)
    (hd : c.content? o = some d) (hd' : c.content? o' = some d') :
    d.fields.lookup n = d'.fields.lookup n := by
  obtain ⟨gs, hgs, hd⟩ := content?_eq_some_iff.mp hd
  obtain ⟨gs', hgs', hd'⟩ := content?_eq_some_iff.mp hd'
  have hwritten : payloadsOf n gs = payloadsOf n gs' :=
    FieldOptions.payloadsOf_bytes (FieldOptions.agree_of_payloads h h' hn)
      (FieldOptions.sorted_of_bytes h) (FieldOptions.sorted_of_bytes h') hgs hgs'
  exact (readInto_agree hset ho (parse_eq_some_iff.mp hgs).1 (parse_eq_some_iff.mp hgs').1 hwritten
    hd hd').lookup

theorem sorted_of_content? (hset : c.options.isSet = false) (hd : c.content? o = some d) :
    d.fields.Sorted := by
  obtain ⟨gs, hgs, hd⟩ := content?_eq_some_iff.mp hd
  exact sorted_of_readInto hset (parse_eq_some_iff.mp hgs).1 hd

end CustomOptions

end SchemaScript
