import SchemaScript.Proofs.Wire.Parsing
import SchemaScript.Wire.Writing

/-!
# Fields that were written

How the bytes of a written message are cut into fields again.

Numbers are written in their shortest form and read back as they were (`takes_readVarint`), so each
value of a field is a field of the same number.  The only value that is not is one of 2 ^ 31 bytes
or more, and bytes with such a value in front can not be parsed at all.

What is parsed of the set fields of a message is told number by number.  The payloads of a number
depend only on the values that are held under it (`payloadsOf_encodeFields`), and in particular not
on what else is held.
-/

namespace SchemaScript.Wire

variable {depth number form n : Nat} {content own rest : List UInt8} {payload : Payload}

/-! ## Numbers -/

theorem encodeVarint_succ (limit n : Nat) :
    encodeVarint (limit + 1) n =
      if n < 128 then [UInt8.ofNat n]
      else UInt8.ofNat (n % 128 + 128) :: encodeVarint limit (n / 128) := rfl

theorem toNat_last {n : Nat} (h : n < 128) : (UInt8.ofNat n).toNat = n := by
  rw [UInt8.toNat_ofNat']
  omega

theorem toNat_continued (n : Nat) : (UInt8.ofNat (n % 128 + 128)).toNat = n % 128 + 128 := by
  rw [UInt8.toNat_ofNat']
  omega

/-- A number is read back in any count of bytes that is enough for it. -/
theorem takes_readVarint {count limit : Nat} (hpos : 0 < count) (hle : count ≤ limit)
    (hn : n < 128 ^ count) : Takes (readVarint count) (encodeVarint limit n) n := by
  induction count generalizing limit n with
  | zero => exact absurd hpos (Nat.lt_irrefl 0)
  | succ count ih =>
    obtain ⟨limit, rfl⟩ : ∃ k, limit = k + 1 := ⟨limit - 1, by omega⟩
    intro rest
    rw [encodeVarint_succ]
    split
    · next hlt =>
      rw [List.singleton_append, readVarint_cons, toNat_last hlt, if_pos hlt]
    · next hge =>
      rw [Nat.pow_succ] at hn
      have hcount : 0 < count := by
        rcases Nat.eq_zero_or_pos count with rfl | h
        · omega
        · exact h
      have hle' : count ≤ limit := by omega
      have hrest := ih hcount hle' (show n / 128 < 128 ^ count by omega) rest
      rw [List.cons_append, readVarint_cons, toNat_continued, if_neg (by omega), hrest]
      simp only [Option.map_some, Option.some.injEq, Prod.mk.injEq, and_true]
      omega

/-- What is read of a number that was written is the number. -/
theorem eq_of_readVarint {count limit v : Nat} {after : List UInt8} (hle : count ≤ limit)
    (h : readVarint count (encodeVarint limit n ++ rest) = some (v, after)) : v = n := by
  induction count generalizing limit n v after with
  | zero => cases h
  | succ count ih =>
    obtain ⟨limit, rfl⟩ : ∃ k, limit = k + 1 := ⟨limit - 1, by omega⟩
    rw [encodeVarint_succ] at h
    split at h
    · next hlt =>
      rw [List.singleton_append, readVarint_cons, toNat_last hlt, if_pos hlt] at h
      cases h
      rfl
    · next hge =>
      rw [List.cons_append, readVarint_cons, toNat_continued, if_neg (by omega),
        Option.map_eq_some_iff] at h
      obtain ⟨⟨w, _⟩, hw, heq⟩ := h
      have hle' : count ≤ limit := by omega
      have hrest := ih hle' hw
      have hv := (Prod.mk.inj heq).1
      dsimp only at hv
      omega

theorem takes_readTag (hpos : 0 < number) (hlt : number < 2 ^ 29) (hform : form < 8) :
    Takes readTag (encodeTag number form) (number, form) := by
  intro rest
  have hread : Takes (readVarint 5) (encodeTag number form) (number * 8 + form) :=
    takes_readVarint (by decide) (Nat.le_refl _) (by omega)
  have hsmall : readSmall (Nat.pow 2 32) (encodeTag number form ++ rest) =
      some (number * 8 + form, rest) := by
    have hbound : number * 8 + form < Nat.pow 2 32 := by
      rw [show Nat.pow 2 32 = 2 ^ 32 from rfl]
      omega
    rw [readSmall, hread rest, Option.filter_some, if_pos (decide_eq_true hbound)]
  have hdiv : (number * 8 + form) / 8 = number := by omega
  have hmod : (number * 8 + form) % 8 = form := by omega
  rw [readTag, hsmall, Option.bind_some]
  dsimp only
  rw [hdiv, hmod, if_neg (by omega)]

theorem length_encodeWord (count n : Nat) : (encodeWord count n).length = count := by
  induction count generalizing n with
  | zero => rfl
  | succ count ih => exact congrArg Nat.succ (ih _)

/-! ## Fields -/

/-- A field with a payload that is written after its number stands for itself. -/
theorem stands_of_payload (hpos : 0 < number) (hlt : number < 2 ^ 29) (hform : form < 8)
    (h : ∀ read, Takes (readPayload read form) own payload) :
    (⟨number, payload, encodeTag number form ++ own⟩ : Field).Stands depth := by
  have hread : readField depth (encodeTag number form ++ own) =
      some (⟨number, payload, encodeTag number form ++ own⟩, []) := by
    have hown := h (readGroup (own.length + 1) depth number) []
    rw [List.append_nil] at hown
    rw [readField_eq, takes_readTag hpos hlt hform, Option.bind_some]
    dsimp only
    rw [hown, Option.bind_some]
    dsimp only
    rw [List.length_nil, Nat.sub_zero, List.take_length]
  exact (readField_stands hread).1

theorem stands_varint (hpos : 0 < number) (hlt : number < 2 ^ 29) (hn : n < 2 ^ 64) :
    (⟨number, .varint n, encodeVarintField number n⟩ : Field).Stands depth := by
  refine stands_of_payload hpos hlt (by decide) fun read rest => ?_
  have hread : Takes (readVarint 10) (encodeVarint 10 n) n :=
    takes_readVarint (by decide) (Nat.le_refl _) (by omega)
  show (readVarint64 (encodeVarint 10 n ++ rest)).map (fun r => (Payload.varint r.1, r.2)) = _
  have hmod : n % Nat.pow 2 64 = n := Nat.mod_eq_of_lt hn
  rw [readVarint64, hread rest, Option.map_some, Option.map_some]
  dsimp only
  rw [hmod]

theorem stands_word64 (hpos : 0 < number) (hlt : number < 2 ^ 29) :
    (⟨number, .word64 (littleEndian (encodeWord 8 n)), encodeTag number 1 ++ encodeWord 8 n⟩ :
      Field).Stands depth := by
  have htakes := takes_readBytes (encodeWord 8 n)
  rw [length_encodeWord] at htakes
  exact stands_of_payload hpos hlt (by decide) fun _ =>
    (htakes.map littleEndian).map Payload.word64

theorem stands_word32 (hpos : 0 < number) (hlt : number < 2 ^ 29) :
    (⟨number, .word32 (littleEndian (encodeWord 4 n)), encodeTag number 5 ++ encodeWord 4 n⟩ :
      Field).Stands depth := by
  have htakes := takes_readBytes (encodeWord 4 n)
  rw [length_encodeWord] at htakes
  exact stands_of_payload hpos hlt (by decide) fun _ =>
    (htakes.map littleEndian).map Payload.word32

theorem stands_delimited (hpos : 0 < number) (hlt : number < 2 ^ 29)
    (hlength : content.length < 2 ^ 31) :
    (⟨number, .delimited content, encodeDelimited number content⟩ : Field).Stands depth := by
  have hread : Takes (readVarint 5) (encodeVarint 10 content.length) content.length :=
    takes_readVarint (by decide) (by decide) (by omega)
  have hsize : Takes (readSmall (Nat.pow 2 31)) (encodeVarint 10 content.length) content.length :=
    hread.filter (q := fun n => decide (n < Nat.pow 2 31)) (decide_eq_true hlength)
  rw [encodeDelimited, List.append_assoc]
  exact stands_of_payload hpos hlt (by decide) fun _ =>
    (hsize.bind (takes_readBytes content)).map Payload.delimited

/-- Bytes that start with a delimited field can be parsed only if the field is not too long. -/
theorem length_lt_of_parse_encodeDelimited {fs : List Field} (hpos : 0 < number)
    (hlt : number < 2 ^ 29) (h : parse depth (encodeDelimited number content ++ rest) = some fs) :
    content.length < 2 ^ 31 := by
  rw [encodeDelimited, List.append_assoc, List.append_assoc] at h
  obtain ⟨hstands, hbytes⟩ := parse_eq_some_iff.mp h
  have htag : Takes readTag (encodeTag number 2) (number, 2) := takes_readTag hpos hlt (by decide)
  cases fs with
  | nil => exact absurd (List.append_eq_nil_iff.mp hbytes.symm).1 (htag.ne_nil readTag_nil)
  | cons f fs =>
    have hread := (List.forall_mem_cons.mp hstands).1.takes (fs.flatMap Field.bytes)
    rw [← List.flatMap_cons, hbytes, readField_eq, htag, Option.bind_some,
      Option.bind_eq_some_iff] at hread
    obtain ⟨_, hpayload, _⟩ := hread
    obtain ⟨_, hdelimited, _⟩ := Option.map_eq_some_iff.mp hpayload
    obtain ⟨⟨size, _⟩, hsize, _⟩ := Option.bind_eq_some_iff.mp hdelimited
    have hbound : size < 2 ^ 31 := lt_of_readSmall hsize
    have hsame := eq_of_readVarint (by decide) (Option.filter_eq_some_iff.mp hsize).1
    omega

/-! ## Values -/

/-- The payloads of the fields of a number, in order. -/
def payloadsOf (n : Nat) (es : List Field) : List Payload :=
  (es.filter fun e => e.number = n).map Field.payload

theorem payloadsOf_append (n : Nat) (es fs : List Field) :
    payloadsOf n (es ++ fs) = payloadsOf n es ++ payloadsOf n fs := by
  simp only [payloadsOf, List.filter_append, List.map_append]

theorem payloadsOf_eq_nil {es : List Field} (h : ∀ e ∈ es, e.number ≠ n) : payloadsOf n es = [] := by
  rw [payloadsOf, List.filter_eq_nil_iff.mpr (by simpa using h), List.map_nil]

/-- Whether the values of a field are written as fields of its number. -/
structure FieldShape.Writable (f : FieldShape) : Prop where
  not_group : f.type ≠ .group
  number_pos : 0 < f.number
  number_lt : f.number < 2 ^ 29

/-- Bytes that are cut into fields of one number, whatever stands after them, or make what they
stand in front of unreadable. -/
def WritesOnly (number : Nat) (own : List UInt8) : Prop :=
  ∀ depth rest fs, parse depth (own ++ rest) = some fs →
    ∃ es, parse depth own = some es ∧ ∀ e ∈ es, e.number = number

theorem writesOnly_nil (number : Nat) : WritesOnly number [] :=
  fun _ _ _ _ => ⟨[], rfl, nofun⟩

theorem WritesOnly.append {more : List UInt8} (h : WritesOnly number own)
    (hmore : WritesOnly number more) : WritesOnly number (own ++ more) := by
  intro depth rest fs hfs
  rw [List.append_assoc] at hfs
  obtain ⟨es, hes, hnumber⟩ := h _ _ _ hfs
  obtain ⟨gs, hgs, rfl⟩ := exists_parse_of_append hes hfs
  obtain ⟨es', hes', hnumber'⟩ := hmore _ _ _ hgs
  exact ⟨es ++ es', parse_append hes hes', List.forall_mem_append.mpr ⟨hnumber, hnumber'⟩⟩

theorem writesOnly_of_stands (h : ∀ depth, (⟨number, payload, own⟩ : Field).Stands depth) :
    WritesOnly number own :=
  fun depth _ _ _ => ⟨[⟨number, payload, own⟩], (h depth).parse_eq, by simp⟩

theorem writesOnly_encodeDelimited (hpos : 0 < number) (hlt : number < 2 ^ 29)
    (content : List UInt8) : WritesOnly number (encodeDelimited number content) := by
  intro depth rest fs hfs
  have hlength := length_lt_of_parse_encodeDelimited hpos hlt hfs
  exact writesOnly_of_stands (fun _ => stands_delimited hpos hlt hlength) depth rest fs hfs

theorem toNat_emod_lt (n : Int) (bits : Nat) : (n % (Nat.pow 2 bits : Nat)).toNat < 2 ^ bits := by
  have hpos : 0 < Nat.pow 2 bits := Nat.two_pow_pos bits
  have hlt := Int.emod_lt_of_pos n (Int.natCast_pos.mpr hpos)
  exact (Int.toNat_lt' hpos).mpr hlt

/-- The number in the payload for a value has at most 64 bits. -/
theorem numberCode_lt (t : FieldType) (d : Datum) : numberCode t d < 2 ^ 64 := by
  have hwide : 2 ^ 32 < 2 ^ 64 := by decide
  cases d with
  | int n =>
    unfold numberCode
    dsimp only
    split
    · exact Nat.lt_trans (toNat_emod_lt _ 32) hwide
    · exact toNat_emod_lt _ 64
    · exact Nat.lt_trans (toNat_emod_lt n 32) hwide
    · exact toNat_emod_lt n 64
  | bool b =>
    show (if b then 1 else 0) < 2 ^ 64
    split <;> decide
  | double d => exact d.bits.toNat_lt
  | single s => exact Nat.lt_trans s.bits.toNat_lt hwide
  | enum n => exact toNat_emod_lt n 64
  | text s => exact Nat.two_pow_pos 64
  | bytes content => exact Nat.two_pow_pos 64
  | message fields rest => exact Nat.two_pow_pos 64

section

variable {shapes : Shapes} {f : FieldShape}

theorem encode_message (fields : List (Nat × List Datum)) (rest : List UInt8) :
    (Datum.message fields rest).encode shapes f =
      encodeMessage f.number f.type (encodeFields shapes (shapes.inner f) fields ++ rest) := rfl

theorem FieldShape.Writable.encodeNumber (hf : f.Writable) (form : NumberForm) {n : Nat}
    (hn : n < 2 ^ 64) : WritesOnly f.number (encodeNumber f.number form n) := by
  cases form with
  | varint => exact writesOnly_of_stands fun _ => stands_varint hf.number_pos hf.number_lt hn
  | word32 => exact writesOnly_of_stands fun _ => stands_word32 hf.number_pos hf.number_lt
  | word64 => exact writesOnly_of_stands fun _ => stands_word64 hf.number_pos hf.number_lt

theorem FieldShape.Writable.encode (hf : f.Writable) (d : Datum) :
    WritesOnly f.number (d.encode shapes f) := by
  have delimited (content : List UInt8) : WritesOnly f.number (encodeDelimited f.number content) :=
    writesOnly_encodeDelimited hf.number_pos hf.number_lt content
  have coded (d : Datum) : WritesOnly f.number
      (((numberForm? f.type).map fun form =>
        Wire.encodeNumber f.number form (numberCode f.type d)).getD []) := by
    cases numberForm? f.type with
    | none => exact writesOnly_nil f.number
    | some form => exact hf.encodeNumber form (numberCode_lt f.type d)
  cases d with
  | text s => exact delimited (utf8 s)
  | bytes content => exact delimited content
  | message fields rest =>
    rw [encode_message, encodeMessage, if_neg hf.not_group]
    exact delimited _
  | int n => exact coded (.int n)
  | bool b => exact coded (.bool b)
  | double d => exact coded (.double d)
  | single s => exact coded (.single s)
  | enum n => exact coded (.enum n)

theorem FieldShape.Writable.encodeAll (hf : f.Writable) (ds : List Datum) :
    WritesOnly f.number (encodeAll shapes f ds) := by
  induction ds with
  | nil => exact writesOnly_nil f.number
  | cons d ds ih => exact (hf.encode d).append ih

/-! ## Messages -/

variable {shape : MessageShape} {r : Record} {fs : List Field}

theorem field?_number {m : Nat} (h : shape.field? m = some f) : f.number = m :=
  of_decide_eq_true (List.find?_some (p := fun f : FieldShape => decide (f.number = m)) h)

/-- The bytes of the values of a number in a message. -/
def encodeEntry (shapes : Shapes) (shape : MessageShape) (number : Nat) (values : List Datum) :
    List UInt8 :=
  match shape.field? number with
  | some f => encodeAll shapes f values
  | none => []

theorem encodeFields_cons (number : Nat) (values : List Datum) (r : Record) :
    encodeFields shapes shape ((number, values) :: r) =
      encodeEntry shapes shape number values ++ encodeFields shapes shape r := rfl

/-- The payloads that are written for the values of a number. -/
def writtenPayloads (depth : Nat) (shapes : Shapes) (shape : MessageShape) (number : Nat) :
    Option (List Datum) → List Payload
  | some values =>
    payloadsOf number ((parse depth (encodeEntry shapes shape number values)).getD [])
  | none => []

/-- What is written under a number, and parsed, depends only on what is held under it. -/
theorem payloadsOf_encodeFields (hshape : ∀ m f, shape.field? m = some f → f.Writable)
    (hkeys : (r.map Prod.fst).Nodup)
    (h : parse depth (encodeFields shapes shape r ++ rest) = some fs) :
    ∃ more, parse depth rest = some more ∧ ∀ n,
      payloadsOf n fs = writtenPayloads depth shapes shape n (r.lookup n) ++ payloadsOf n more := by
  induction r generalizing fs with
  | nil => exact ⟨fs, h, fun _ => rfl⟩
  | cons e r ih =>
    obtain ⟨m, values⟩ := e
    obtain ⟨hnew, hkeys⟩ := List.nodup_cons.mp hkeys
    have hown : WritesOnly m (encodeEntry shapes shape m values) := by
      unfold encodeEntry
      cases hf : shape.field? m with
      | none => exact writesOnly_nil m
      | some f => exact field?_number hf ▸ (hshape m f hf).encodeAll values
    rw [encodeFields_cons, List.append_assoc] at h
    obtain ⟨es, hes, hnumber⟩ := hown _ _ _ h
    obtain ⟨gs, hgs, rfl⟩ := exists_parse_of_append hes h
    obtain ⟨more, hmore, hpayloads⟩ := ih hkeys hgs
    refine ⟨more, hmore, fun n => ?_⟩
    rw [payloadsOf_append, hpayloads n, ← List.append_assoc]
    congr 1
    by_cases hn : n = m
    · subst hn
      have hnone : r.lookup n = none := by
        rw [List.lookup_eq_none_iff]
        intro e he
        rw [bne_iff_ne]
        exact fun heq => hnew (List.mem_map.mpr ⟨e, he, heq.symm⟩)
      rw [hnone, List.lookup_cons_self, writtenPayloads, writtenPayloads, hes, Option.getD_some,
        List.append_nil]
    · have hother : (n == m) = false := beq_false_of_ne hn
      rw [payloadsOf_eq_nil (fun e he heq => hn (heq.symm.trans (hnumber e he))), List.lookup_cons,
        hother, List.nil_append]

end

end SchemaScript.Wire
