import Mathlib.Algebra.Group.Nat.Defs
import Mathlib.Data.List.Basic
import SchemaScript.Wire.Basic

/-!
# Fields on the wire

How bytes are cut into fields.

A reader takes something from the start of bytes and leaves the rest.  None of the readers looks
beyond what it takes (`IsLocal`), so a field is read from its own bytes in the same way whatever
stands after them (`Field.Stands`).  The one bound that is not local is that of a group, which is
read in as many steps as there are bytes left.  A step takes at least one byte, so any bound that is
not less than the bytes of the group will do (`readGroup_takes`).

With that the parse of bytes is told without its steps: the bytes of the fields make the bytes, and
each field stands for itself (`parse_eq_some_iff`).  Bytes that were parsed on their own can be put
together.
-/

namespace SchemaScript.Wire

/-! ## Readers -/

/-- A reader of something at the start of bytes. -/
abbrev Reader (α : Type) := List UInt8 → Option (α × List UInt8)

variable {α β : Type} {p : Reader α} {used bytes rest : List UInt8} {a : α}

/-- A reader takes something from given bytes, whatever stands after them. -/
def Takes (p : Reader α) (used : List UInt8) (a : α) : Prop :=
  ∀ rest, p (used ++ rest) = some (a, rest)

/-- A reader does not look beyond what it takes. -/
def IsLocal (p : Reader α) : Prop :=
  ∀ bytes a rest, p bytes = some (a, rest) → ∃ used, bytes = used ++ rest ∧ Takes p used a

theorem Takes.ne_nil (h : Takes p used a) (hnil : p [] = none) : used ≠ [] := by
  rintro rfl
  have hsome := h []
  rw [List.nil_append, hnil] at hsome
  cases hsome

theorem Takes.map (h : Takes p used a) (f : α → β) :
    Takes (fun bytes => (p bytes).map fun r => (f r.1, r.2)) used (f a) := fun rest => by
  simp only [h rest, Option.map_some]

theorem IsLocal.map (h : IsLocal p) (f : α → β) :
    IsLocal fun bytes => (p bytes).map fun r => (f r.1, r.2) := by
  intro bytes b rest hread
  obtain ⟨⟨a, _⟩, ha, heq⟩ := Option.map_eq_some_iff.mp hread
  obtain ⟨rfl, rfl⟩ := Prod.mk.inj heq
  obtain ⟨used, hbytes, htakes⟩ := h _ _ _ ha
  exact ⟨used, hbytes, htakes.map f⟩

theorem Takes.filter (h : Takes p used a) {q : α → Bool} (hq : q a = true) :
    Takes (fun bytes => (p bytes).filter fun r => q r.1) used a := fun rest => by
  simp only [h rest, Option.filter_some, hq, if_true]

theorem IsLocal.filter (h : IsLocal p) (q : α → Bool) :
    IsLocal fun bytes => (p bytes).filter fun r => q r.1 := by
  intro bytes a rest hread
  obtain ⟨ha, hq⟩ := Option.filter_eq_some_iff.mp hread
  obtain ⟨used, hbytes, htakes⟩ := h _ _ _ ha
  exact ⟨used, hbytes, htakes.filter hq⟩

theorem Takes.bind {next : α → Reader β} {more : List UInt8} {b : β} (h : Takes p used a)
    (hnext : Takes (next a) more b) :
    Takes (fun bytes => (p bytes).bind fun r => next r.1 r.2) (used ++ more) b := fun rest => by
  simp only [List.append_assoc, h (more ++ rest), Option.bind_some, hnext rest]

theorem IsLocal.bind {next : α → Reader β} (h : IsLocal p) (hnext : ∀ a, IsLocal (next a)) :
    IsLocal fun bytes => (p bytes).bind fun r => next r.1 r.2 := by
  intro bytes b rest hread
  obtain ⟨⟨a, between⟩, ha, hb⟩ := Option.bind_eq_some_iff.mp hread
  obtain ⟨used, rfl, htakes⟩ := h _ _ _ ha
  obtain ⟨more, rfl, hmore⟩ := hnext a _ _ _ hb
  exact ⟨used ++ more, (List.append_assoc _ _ _).symm, htakes.bind hmore⟩

theorem isLocal_pure (a : α) : IsLocal fun bytes => some (a, bytes) := by
  intro bytes b rest h
  cases h
  exact ⟨[], rfl, fun _ => rfl⟩

theorem isLocal_none : IsLocal fun _ => (none : Option (α × List UInt8)) :=
  nofun

/-! ## Numbers and bytes -/

theorem readVarint_cons (limit : Nat) (b : UInt8) (rest : List UInt8) :
    readVarint (limit + 1) (b :: rest) =
      if b.toNat < 128 then some (b.toNat, rest)
      else (readVarint limit rest).map fun r => (b.toNat - 128 + 128 * r.1, r.2) := rfl

theorem isLocal_readVarint (limit : Nat) : IsLocal (readVarint limit) := by
  induction limit with
  | zero => exact isLocal_none
  | succ limit ih =>
    intro bytes n rest h
    cases bytes with
    | nil => cases h
    | cons b bytes =>
      rw [readVarint_cons] at h
      split at h
      · next hb =>
        cases h
        exact ⟨[b], rfl, fun rest => by rw [List.singleton_append, readVarint_cons, if_pos hb]⟩
      · next hb =>
        obtain ⟨used, rfl, htakes⟩ := ih.map (fun n => b.toNat - 128 + 128 * n) _ _ _ h
        exact ⟨b :: used, rfl, fun rest => by
          rw [List.cons_append, readVarint_cons, if_neg hb]
          exact htakes rest⟩

theorem isLocal_readVarint64 : IsLocal readVarint64 :=
  (isLocal_readVarint 10).map (· % Nat.pow 2 64)

theorem isLocal_readSmall (bound : Nat) : IsLocal (readSmall bound) :=
  (isLocal_readVarint 5).filter fun n => decide (n < bound)

theorem lt_of_readSmall {bound n : Nat} (h : readSmall bound bytes = some (n, rest)) : n < bound :=
  of_decide_eq_true (Option.filter_eq_some_iff.mp h).2

theorem readBytes_eq_some_iff {count : Nat} {content : List UInt8} :
    readBytes count bytes = some (content, rest) ↔
      bytes = content ++ rest ∧ content.length = count := by
  unfold readBytes
  split
  · next hle =>
    rw [List.splitAt_eq, Option.some_inj, Prod.mk.injEq]
    constructor
    · rintro ⟨rfl, rfl⟩
      exact ⟨(List.take_append_drop _ _).symm, List.length_take_of_le hle⟩
    · rintro ⟨rfl, rfl⟩
      exact ⟨List.take_left, List.drop_left⟩
  · next hlt =>
    constructor
    · nofun
    · rintro ⟨rfl, rfl⟩
      exact absurd (by simp) hlt

theorem takes_readBytes (content : List UInt8) : Takes (readBytes content.length) content content :=
  fun _ => readBytes_eq_some_iff.mpr ⟨rfl, rfl⟩

theorem isLocal_readBytes (count : Nat) : IsLocal (readBytes count) := by
  intro bytes content rest h
  obtain ⟨rfl, rfl⟩ := readBytes_eq_some_iff.mp h
  exact ⟨content, rfl, takes_readBytes content⟩

theorem isLocal_readWord (count : Nat) : IsLocal (readWord count) :=
  (isLocal_readBytes count).map littleEndian

theorem readDelimited_eq (bytes : List UInt8) :
    readDelimited bytes = (readSmall (Nat.pow 2 31) bytes).bind fun r => readBytes r.1 r.2 := rfl

theorem isLocal_readDelimited : IsLocal readDelimited :=
  (isLocal_readSmall _).bind isLocal_readBytes

/-- Bytes with their length in front are more than the bytes alone. -/
theorem length_lt_of_takes_readDelimited {content : List UInt8}
    (h : Takes readDelimited used content) : content.length < used.length := by
  have hread := h []
  rw [List.append_nil, readDelimited_eq, Option.bind_eq_some_iff] at hread
  obtain ⟨⟨size, between⟩, hsize, hcontent⟩ := hread
  obtain ⟨front, rfl, hfront⟩ := isLocal_readSmall _ _ _ _ hsize
  obtain ⟨rfl, -⟩ := readBytes_eq_some_iff.mp hcontent
  have hne : front ≠ [] := hfront.ne_nil rfl
  have hpos := List.length_pos_of_ne_nil hne
  simp only [List.length_append, List.length_nil]
  omega

/-! ## Tags -/

theorem readTag_nil : readTag [] = none := rfl

theorem isLocal_readTag : IsLocal readTag := by
  have hparts (n : Nat) : IsLocal fun rest : List UInt8 =>
      if n / 8 = 0 then none else some ((n / 8, n % 8), rest) := by
    split
    · exact isLocal_none
    · exact isLocal_pure _
  exact (isLocal_readSmall (Nat.pow 2 32)).bind hparts

/-- The bounds of the number of a field. -/
theorem number_of_readTag {number form : Nat} (h : readTag bytes = some ((number, form), rest)) :
    0 < number ∧ number < 2 ^ 29 := by
  obtain ⟨⟨n, between⟩, hn, htag⟩ := Option.bind_eq_some_iff.mp h
  have hlt : n < 2 ^ 32 := lt_of_readSmall hn
  dsimp only at htag
  split at htag
  · cases htag
  · cases htag
    constructor <;> omega

/-! ## Payloads and groups -/

/-- The bytes in a payload. -/
def Payload.content : Payload → List UInt8
  | .delimited content => content
  | .group content => content
  | _ => []

/-- What holds of the payload that is read from given bytes. -/
structure Payload.From (payload : Payload) (used : List UInt8) : Prop where
  varint_lt : ∀ n, payload = .varint n → n < 2 ^ 64
  content_le : payload.content.length ≤ used.length

/-- Groups are read from their own bytes, in any count of steps that is not less than these. -/
def ReadsGroups (read : Reader (List UInt8)) (within : Nat → Reader (List UInt8)) : Prop :=
  ∀ bytes content rest, read bytes = some (content, rest) →
    ∃ used, bytes = used ++ rest ∧ content.length < used.length ∧
      ∀ steps, used.length ≤ steps → Takes (within steps) used content

section

variable {read : Reader (List UInt8)} {within : Nat → Reader (List UInt8)} {form : Nat}
  {payload : Payload}

theorem readPayload_takes (hgroups : ReadsGroups read within)
    (h : readPayload read form bytes = some (payload, rest)) :
    ∃ used, bytes = used ++ rest ∧ payload.From used ∧
      ∀ steps, used.length ≤ steps → Takes (readPayload (within steps) form) used payload := by
  unfold readPayload at h
  split at h
  · obtain ⟨⟨n, _⟩, hn, heq⟩ := Option.map_eq_some_iff.mp h
    obtain ⟨used, rfl, htakes⟩ := isLocal_readVarint64 _ _ _ hn
    obtain ⟨rfl, rfl⟩ := Prod.mk.inj heq
    refine ⟨used, rfl, ⟨fun m hm => ?_, Nat.zero_le _⟩, fun _ _ => htakes.map Payload.varint⟩
    cases hm
    obtain ⟨r, _, hr⟩ := Option.map_eq_some_iff.mp hn
    obtain ⟨rfl, -⟩ := Prod.mk.inj hr
    exact Nat.mod_lt _ (Nat.pow_pos (by decide))
  · obtain ⟨used, rfl, htakes⟩ := (isLocal_readWord 8).map Payload.word64 _ _ _ h
    obtain ⟨_, _, heq⟩ := Option.map_eq_some_iff.mp h
    obtain ⟨rfl, -⟩ := Prod.mk.inj heq
    exact ⟨used, rfl, ⟨nofun, Nat.zero_le _⟩, fun _ _ => htakes⟩
  · obtain ⟨⟨content, _⟩, hcontent, heq⟩ := Option.map_eq_some_iff.mp h
    obtain ⟨used, rfl, htakes⟩ := isLocal_readDelimited _ _ _ hcontent
    obtain ⟨rfl, rfl⟩ := Prod.mk.inj heq
    exact ⟨used, rfl, ⟨nofun, Nat.le_of_lt (length_lt_of_takes_readDelimited htakes)⟩,
      fun _ _ => htakes.map Payload.delimited⟩
  · obtain ⟨⟨content, _⟩, hcontent, heq⟩ := Option.map_eq_some_iff.mp h
    obtain ⟨used, rfl, hlength, htakes⟩ := hgroups _ _ _ hcontent
    obtain ⟨rfl, rfl⟩ := Prod.mk.inj heq
    exact ⟨used, rfl, ⟨nofun, Nat.le_of_lt hlength⟩,
      fun steps hsteps => (htakes steps hsteps).map Payload.group⟩
  · obtain ⟨used, rfl, htakes⟩ := (isLocal_readWord 4).map Payload.word32 _ _ _ h
    obtain ⟨_, _, heq⟩ := Option.map_eq_some_iff.mp h
    obtain ⟨rfl, -⟩ := Prod.mk.inj heq
    exact ⟨used, rfl, ⟨nofun, Nat.zero_le _⟩, fun _ _ => htakes⟩
  · cases h

end

theorem readGroup_succ (steps depth number : Nat) (bytes : List UInt8) :
    readGroup (steps + 1) (depth + 1) number bytes =
      (readTag bytes).bind fun r =>
        if r.1.2 = 4 then if r.1.1 = number then some ([], r.2) else none
        else (readPayload (readGroup steps depth r.1.1) r.1.2 r.2).bind fun q =>
          (readGroup steps (depth + 1) number q.2).bind fun s =>
            some (bytes.take (bytes.length - q.2.length) ++ s.1, s.2) := rfl

/-- What is taken from bytes is what they have more than the rest. -/
theorem take_length_sub (used rest : List UInt8) :
    (used ++ rest).take ((used ++ rest).length - rest.length) = used := by
  rw [List.length_append, Nat.add_sub_cancel, List.take_left]

/-- A group is read from its own bytes. -/
theorem readGroup_takes (steps depth number : Nat) :
    ReadsGroups (readGroup steps depth number) fun steps => readGroup steps depth number := by
  induction steps generalizing depth number with
  | zero => intro _ _ _ h; cases h
  | succ steps ih =>
    intro bytes content rest h
    cases depth with
    | zero => cases h
    | succ depth =>
      rw [readGroup_succ, Option.bind_eq_some_iff] at h
      obtain ⟨⟨⟨inner, form⟩, after⟩, htag, h⟩ := h
      obtain ⟨tag, rfl, htakes⟩ := isLocal_readTag _ _ _ htag
      have hpos : 0 < tag.length := List.length_pos_of_ne_nil (htakes.ne_nil readTag_nil)
      dsimp only at h
      split at h
      · next hend =>
        split at h
        · next hnumber =>
          cases h
          refine ⟨tag, rfl, hpos, fun steps' hsteps rest => ?_⟩
          obtain ⟨n, rfl⟩ : ∃ n, steps' = n + 1 := ⟨steps' - 1, by omega⟩
          show readGroup (n + 1) (depth + 1) number (tag ++ rest) = some ([], rest)
          rw [readGroup_succ, htakes rest, Option.bind_some, if_pos hend, if_pos hnumber]
        · cases h
      · next hend =>
        obtain ⟨⟨payload, between⟩, hpayload, h⟩ := Option.bind_eq_some_iff.mp h
        obtain ⟨⟨more, _⟩, hmore, heq⟩ := Option.bind_eq_some_iff.mp h
        obtain ⟨own, rfl, _, hown⟩ := readPayload_takes (ih depth inner) hpayload
        obtain ⟨others, rfl, hlength, hothers⟩ := ih (depth + 1) number _ _ _ hmore
        obtain ⟨rfl, rfl⟩ := Prod.mk.inj (Option.some.inj heq)
        have hfield (rest : List UInt8) : (tag ++ (own ++ rest)).take
            ((tag ++ (own ++ rest)).length - rest.length) = tag ++ own := by
          rw [← List.append_assoc, take_length_sub]
        refine ⟨tag ++ own ++ others, by simp only [List.append_assoc], ?_, ?_⟩
        · show (List.take _ _ ++ more).length < _
          rw [hfield]
          simp only [List.length_append]
          omega
        · intro steps' hsteps rest
          simp only [List.length_append] at hsteps
          obtain ⟨n, rfl⟩ : ∃ n, steps' = n + 1 := ⟨steps' - 1, by omega⟩
          have hother : readGroup n (depth + 1) number (others ++ rest) = some (more, rest) :=
            hothers n (by omega) rest
          show readGroup (n + 1) (depth + 1) number _ = some (List.take _ _ ++ more, rest)
          simp only [List.append_assoc]
          rw [readGroup_succ, htakes, Option.bind_some, if_neg hend, hown n (by omega),
            Option.bind_some]
          dsimp only
          rw [hother, Option.bind_some, hfield, hfield]

/-! ## Fields -/

/-- A field is read from its own bytes, whatever stands after them. -/
structure Field.Stands (depth : Nat) (e : Field) : Prop where
  takes : Takes (readField depth) e.bytes e
  number_pos : 0 < e.number
  number_lt : e.number < 2 ^ 29
  varint_lt : ∀ n, e.payload = .varint n → n < 2 ^ 64
  content_lt : e.payload.content.length < e.bytes.length

theorem readField_eq (depth : Nat) (bytes : List UInt8) :
    readField depth bytes =
      (readTag bytes).bind fun r =>
        (readPayload (readGroup (r.2.length + 1) depth r.1.1) r.1.2 r.2).bind fun q =>
          some (⟨r.1.1, q.1, bytes.take (bytes.length - q.2.length)⟩, q.2) := rfl

variable {depth : Nat} {e : Field} {es fs : List Field}

/-- A field that is read stands at the start of the bytes. -/
theorem readField_stands (h : readField depth bytes = some (e, rest)) :
    e.Stands depth ∧ bytes = e.bytes ++ rest := by
  rw [readField_eq, Option.bind_eq_some_iff] at h
  obtain ⟨⟨⟨number, form⟩, after⟩, htag, h⟩ := h
  obtain ⟨tag, rfl, htakes⟩ := isLocal_readTag _ _ _ htag
  obtain ⟨⟨payload, _⟩, hpayload, heq⟩ := Option.bind_eq_some_iff.mp h
  obtain ⟨own, rfl, hfrom, hown⟩ := readPayload_takes (readGroup_takes _ depth number) hpayload
  obtain ⟨rfl, rfl⟩ := Prod.mk.inj (Option.some.inj heq)
  have hpos : 0 < tag.length := List.length_pos_of_ne_nil (htakes.ne_nil readTag_nil)
  have hfield (rest : List UInt8) : (tag ++ (own ++ rest)).take
      ((tag ++ (own ++ rest)).length - rest.length) = tag ++ own := by
    rw [← List.append_assoc, take_length_sub]
  obtain ⟨hnumber, hlt⟩ := number_of_readTag htag
  dsimp only
  rw [hfield]
  refine ⟨⟨fun rest => ?_, hnumber, hlt, hfrom.varint_lt, ?_⟩, (List.append_assoc _ _ _).symm⟩
  · rw [List.append_assoc, readField_eq, htakes, Option.bind_some]
    dsimp only
    rw [hown _ (by simp only [List.length_append]; omega), Option.bind_some]
    dsimp only
    rw [hfield]
  · have hle := hfrom.content_le
    simp only [List.length_append]
    omega

theorem Field.Stands.bytes_ne_nil (h : e.Stands depth) : e.bytes ≠ [] :=
  List.ne_nil_of_length_pos (Nat.lt_of_le_of_lt (Nat.zero_le _) h.content_lt)

/-! ## Rows of fields -/

theorem parseWithin_nil (depth steps : Nat) : parseWithin depth steps [] = some [] := by
  cases steps <;> rfl

theorem parseWithin_cons (depth steps : Nat) (b : UInt8) (rest : List UInt8) :
    parseWithin depth (steps + 1) (b :: rest) =
      (readField depth (b :: rest)).bind fun r =>
        (parseWithin depth steps r.2).bind fun fields => some (r.1 :: fields) := rfl

theorem parseWithin_stands {steps : Nat} (h : parseWithin depth steps bytes = some es) :
    (∀ e ∈ es, e.Stands depth) ∧ es.flatMap Field.bytes = bytes := by
  induction steps generalizing bytes es with
  | zero =>
    cases bytes with
    | nil => cases h; exact ⟨nofun, rfl⟩
    | cons b rest => cases h
  | succ steps ih =>
    cases bytes with
    | nil => cases h; exact ⟨nofun, rfl⟩
    | cons b rest =>
      rw [parseWithin_cons, Option.bind_eq_some_iff] at h
      obtain ⟨⟨e, after⟩, he, h⟩ := h
      obtain ⟨fields, hfields, heq⟩ := Option.bind_eq_some_iff.mp h
      obtain ⟨hstands, hbytes⟩ := readField_stands he
      obtain ⟨hall, hrest⟩ := ih hfields
      cases heq
      refine ⟨List.forall_mem_cons.mpr ⟨hstands, hall⟩, ?_⟩
      rw [List.flatMap_cons, hrest, ← hbytes]

theorem parseWithin_of_stands {steps : Nat} (h : ∀ e ∈ es, e.Stands depth)
    (hsteps : (es.flatMap Field.bytes).length ≤ steps) :
    parseWithin depth steps (es.flatMap Field.bytes) = some es := by
  induction es generalizing steps with
  | nil => exact parseWithin_nil depth steps
  | cons e rest ih =>
    obtain ⟨he, hrest⟩ := List.forall_mem_cons.mp h
    obtain ⟨b, own, hown⟩ := List.exists_cons_of_ne_nil he.bytes_ne_nil
    rw [List.flatMap_cons, List.length_append, hown, List.length_cons] at hsteps
    obtain ⟨n, rfl⟩ : ∃ n, steps = n + 1 := ⟨steps - 1, by omega⟩
    have htakes := he.takes (rest.flatMap Field.bytes)
    rw [hown, List.cons_append] at htakes
    rw [List.flatMap_cons, hown, List.cons_append, parseWithin_cons, htakes, Option.bind_some,
      ih hrest (by omega), Option.bind_some]

/-- Bytes are parsed into the fields whose bytes they are, each of which stands for itself. -/
theorem parse_eq_some_iff :
    parse depth bytes = some es ↔ (∀ e ∈ es, e.Stands depth) ∧ es.flatMap Field.bytes = bytes := by
  constructor
  · exact parseWithin_stands
  · rintro ⟨hstands, rfl⟩
    exact parseWithin_of_stands hstands (Nat.le_refl _)

theorem parse_append (hes : parse depth bytes = some es) (hfs : parse depth rest = some fs) :
    parse depth (bytes ++ rest) = some (es ++ fs) := by
  obtain ⟨hstands, rfl⟩ := parse_eq_some_iff.mp hes
  obtain ⟨hstands', rfl⟩ := parse_eq_some_iff.mp hfs
  exact parse_eq_some_iff.mpr ⟨List.forall_mem_append.mpr ⟨hstands, hstands'⟩, List.flatMap_append⟩

theorem Field.Stands.parse_eq (h : e.Stands depth) : parse depth e.bytes = some [e] :=
  parse_eq_some_iff.mpr ⟨List.forall_mem_singleton.mpr h, List.flatMap_singleton _ _⟩

/-- Where all bytes and those at the start can be parsed, so can those after them. -/
theorem exists_parse_of_append (hes : parse depth bytes = some es)
    (h : parse depth (bytes ++ rest) = some fs) :
    ∃ more, parse depth rest = some more ∧ fs = es ++ more := by
  induction es generalizing bytes fs with
  | nil =>
    obtain ⟨_, rfl⟩ := parse_eq_some_iff.mp hes
    exact ⟨fs, h, rfl⟩
  | cons e es ih =>
    obtain ⟨hstands, rfl⟩ := parse_eq_some_iff.mp hes
    obtain ⟨he, hothers⟩ := List.forall_mem_cons.mp hstands
    obtain ⟨hfs, hbytes⟩ := parse_eq_some_iff.mp h
    have hread := he.takes (es.flatMap Field.bytes ++ rest)
    rw [List.flatMap_cons, List.append_assoc] at hbytes
    cases fs with
    | nil => exact absurd (List.append_eq_nil_iff.mp hbytes.symm).1 he.bytes_ne_nil
    | cons f fs =>
      obtain ⟨hf, hfs⟩ := List.forall_mem_cons.mp hfs
      rw [← hbytes, List.flatMap_cons, hf.takes] at hread
      obtain ⟨rfl, hrest⟩ := Prod.mk.inj (Option.some.inj hread)
      obtain ⟨more, hmore, rfl⟩ := ih (parse_eq_some_iff.mpr ⟨hothers, rfl⟩)
        (parse_eq_some_iff.mpr ⟨hfs, hrest⟩)
      exact ⟨more, hmore, rfl⟩

end SchemaScript.Wire
