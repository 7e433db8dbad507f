import SchemaScript.Proofs.Wire.Encoding
import SchemaScript.Proofs.Wire.Records

/-!
# What a wire field changes

A wire field changes what is held under its own number, and what is kept of its own number, and no
more (`Content.touches_readStep`).  The one exception are oneofs, where a field drops others, so
nothing is said of numbers in a oneof.  Message sets are left out, for their extensions all come
under one number.

A message in a field is read with as many steps as the message around it has bytes.  The bytes of
the inner message are fewer, so how many there are beyond these makes no difference
(`Shapes.sameBelow`).
-/

namespace SchemaScript.Wire

variable {shapes : Shapes} {shape : MessageShape} {f : FieldShape} {steps steps' depth n number : Nat}
  {c c' d d' : Content} {e e' : Field} {value : Datum}

/-! ## One wire field -/

/-- The content with a message in a field read into it. -/
def Shapes.readMessage (shapes : Shapes) (steps depth : Nat) (shape : MessageShape) (f : FieldShape)
    (c : Content) (e : Field) : Option Content :=
  match messageBytes? f.type e.payload, depth with
  | none, _ => some (c.keep e.bytes)
  | some _, 0 => none
  | some content, depth + 1 => do
    let inner ← parse depth content
    let before :=
      if f.repeated then Content.empty
      else ((c.fields.contents f.number).head?).getD .empty
    let after ← shapes.readWithin steps depth (shapes.inner f) before inner
    if (shapes.inner f).form ≠ .entry then
      return c.give shape f after.datum
    else if shapes.takesAll (shapes.inner f) inner then
      return c.give shape f (.message ((shapes.inner f).fields.foldl Record.fill after.fields) [])
    else
      return c.keep e.bytes

/-- The content with a wire field read into it as one of the shape. -/
def Shapes.readOwn (shapes : Shapes) (steps depth : Nat) (shape : MessageShape) (f : FieldShape)
    (c : Content) (e : Field) : Option Content :=
  match numberForm? f.type with
  | some form =>
    (payloadNumbers form f.repeated e.payload).map fun numbers =>
      match numbers with
      | some ns => c.giveNumbers shapes shape f e.payload.isDelimited ns
      | none => c.keep e.bytes
  | none =>
    if f.type.isMessage then
      shapes.readMessage steps depth shape f c e
    else
      match e.payload with
      | .delimited content => (textDatum f content).map fun d => c.give shape f d
      | _ => some (c.keep e.bytes)

/-- The content with a wire field of a message set read into it. -/
def Shapes.readItem (shapes : Shapes) (steps : Nat) (shape : MessageShape) (c : Content)
    (e : Field) : Option Content :=
  match shape.setItem? e with
  | none => some (c.keep e.bytes)
  | some (f, content) => do
    let inner ← parse maxDepth content
    let after ← shapes.readWithin steps maxDepth (shapes.inner f) .empty inner
    return c.give shape f after.datum

/-- The content with a wire field read into it. -/
def Shapes.readStep (shapes : Shapes) (steps depth : Nat) (shape : MessageShape) (c : Content)
    (e : Field) : Option Content :=
  if shape.isSet then
    shapes.readItem steps shape c e
  else
    match shape.field? e.number with
    | none => some (c.keep e.bytes)
    | some f => shapes.readOwn steps depth shape f c e

theorem readWithin_succ (shapes : Shapes) (steps depth : Nat) (shape : MessageShape)
    (start : Content) (fields : List Field) :
    shapes.readWithin (steps + 1) depth shape start fields =
      fields.foldlM (shapes.readStep steps depth shape) start := rfl

/-! ## Counts of steps -/

theorem length_bytes_le {bytes : List UInt8} {fields : List Field}
    (h : parse depth bytes = some fields) (he : e ∈ fields) : e.bytes.length ≤ bytes.length := by
  obtain ⟨_, rfl⟩ := parse_eq_some_iff.mp h
  obtain ⟨before, after, rfl⟩ := List.append_of_mem he
  simp only [List.flatMap_append, List.flatMap_cons, List.length_append]
  omega

/-- The bytes of a message in a message set are less than those of its group. -/
theorem length_lt_of_setItem? {content : List UInt8} (h : shape.setItem? e = some (f, content)) :
    content.length < e.payload.content.length := by
  unfold MessageShape.setItem? at h
  split at h
  · next group hgroup =>
    obtain ⟨⟨number, content'⟩, hitem, h⟩ := Option.bind_eq_some_iff.mp h
    obtain ⟨_, _, heq⟩ := Option.bind_eq_some_iff.mp h
    cases heq
    obtain ⟨_, _, hitem⟩ := Option.bind_eq_some_iff.mp hitem
    obtain ⟨found, hfound, heq⟩ := Option.bind_eq_some_iff.mp hitem
    cases heq
    obtain ⟨g, hg, hdelimited⟩ := List.exists_of_findSome?_eq_some hfound
    cases hparse : parse maxDepth group with
    | none =>
      rw [hparse] at hg
      cases hg
    | some fields =>
      rw [hparse] at hg
      have hstands := (parse_eq_some_iff.mp hparse).1 g hg
      have hle := length_bytes_le hparse hg
      have hlt := hstands.content_lt
      split at hdelimited
      · next content hcontent =>
        split at hdelimited
        · cases hdelimited
          rw [hcontent] at hlt
          rw [hgroup]
          exact Nat.lt_of_lt_of_le hlt hle
        · cases hdelimited
      · cases hdelimited
  · cases h

/-- Two counts of steps come to the same for messages of fewer bytes than a bound. -/
def Shapes.SameBelow (shapes : Shapes) (bound steps steps' : Nat) : Prop :=
  ∀ depth shape start parseDepth content inner, parse parseDepth content = some inner →
    content.length < bound →
      shapes.readWithin steps depth shape start inner =
        shapes.readWithin steps' depth shape start inner

theorem messageBytes?_eq_some {t : FieldType} {payload : Payload} {content : List UInt8}
    (h : messageBytes? t payload = some content) : payload.content = content := by
  unfold messageBytes? at h
  split at h
  · split at h
    · cases h; rfl
    · cases h
  · split at h
    · cases h; rfl
    · cases h
  · cases h

theorem Shapes.SameBelow.readStep (h : shapes.SameBelow e.bytes.length steps steps')
    (he : e.payload.content.length < e.bytes.length) (c : Content) :
    shapes.readStep steps depth shape c e = shapes.readStep steps' depth shape c e := by
  unfold Shapes.readStep
  split
  · unfold Shapes.readItem
    split
    · rfl
    · next f content hitem =>
      have hlt := Nat.lt_trans (length_lt_of_setItem? hitem) he
      cases hinner : parse maxDepth content with
      | none => rfl
      | some inner =>
        show (shapes.readWithin steps _ _ _ _).bind _ = (shapes.readWithin steps' _ _ _ _).bind _
        rw [h _ _ _ _ _ _ hinner hlt]
  · split
    · rfl
    · unfold Shapes.readOwn
      split
      · rfl
      · split
        · unfold Shapes.readMessage
          split
          · rfl
          · rfl
          · next content depth hcontent =>
            rw [← messageBytes?_eq_some hcontent]
            cases hinner : parse depth e.payload.content with
            | none => rfl
            | some inner =>
              show (shapes.readWithin steps _ _ _ _).bind _ =
                (shapes.readWithin steps' _ _ _ _).bind _
              rw [h _ _ _ _ _ _ hinner he]
        · rfl

theorem foldlM_congr {α β : Type} {g g' : β → α → Option β} {as : List α}
    (h : ∀ a ∈ as, ∀ b, g b a = g' b a) (b : β) : as.foldlM g b = as.foldlM g' b := by
  induction as generalizing b with
  | nil => rfl
  | cons a rest ih =>
    obtain ⟨ha, hrest⟩ := List.forall_mem_cons.mp h
    rw [List.foldlM_cons, List.foldlM_cons, ha b]
    exact congrArg _ (funext fun b => ih hrest b)

/-- Any count of steps above the bytes of a message will do. -/
theorem Shapes.sameBelow (shapes : Shapes) (bound : Nat) (h : bound ≤ steps) (h' : bound ≤ steps') :
    shapes.SameBelow bound steps steps' := by
  induction bound generalizing steps steps' with
  | zero => exact fun _ _ _ _ _ _ _ hlt => absurd hlt (Nat.not_lt_zero _)
  | succ bound ih =>
    intro depth shape start parseDepth content inner hinner hlt
    obtain ⟨n, rfl⟩ : ∃ n, steps = n + 1 := ⟨steps - 1, by omega⟩
    obtain ⟨m, rfl⟩ : ∃ m, steps' = m + 1 := ⟨steps' - 1, by omega⟩
    have hbelow : shapes.SameBelow bound n m := ih (by omega) (by omega)
    rw [readWithin_succ, readWithin_succ]
    refine foldlM_congr (fun e he c => ?_) start
    have hle := length_bytes_le hinner he
    have hstands := (parse_eq_some_iff.mp hinner).1 e he
    refine Shapes.SameBelow.readStep ?_ hstands.content_lt c
    intro depth shape start parseDepth content inner hinner hlt
    exact hbelow depth shape start parseDepth content inner hinner (by omega)

/-! ## What a wire field changes -/

namespace Content

/-- Two contents, of which one came from the other by fields of a number. -/
structure Touches (depth : Nat) (shape : MessageShape) (number : Nat) (c c' : Content) : Prop where
  /-- Under other numbers the same is held, but for the members of oneofs. -/
  lookup : ∀ m, m ≠ number → (shape.field? m).bind FieldShape.oneof = none →
    c'.fields.lookup m = c.fields.lookup m
  /-- What is kept in addition has the number. -/
  rest : ∃ bytes es, c'.rest = c.rest ++ bytes ∧ parse depth bytes = some es ∧
    ∀ e ∈ es, e.number = number
  /-- The order is preserved. -/
  sorted : c.fields.Sorted → c'.fields.Sorted

theorem Touches.refl (depth : Nat) (shape : MessageShape) (number : Nat) (c : Content) :
    Touches depth shape number c c where
  lookup _ _ _ := rfl
  rest := ⟨[], [], (List.append_nil _).symm, rfl, nofun⟩
  sorted h := h

theorem Touches.trans {c'' : Content} (h : Touches depth shape number c c')
    (h' : Touches depth shape number c' c'') : Touches depth shape number c c'' where
  lookup m hm ho := (h'.lookup m hm ho).trans (h.lookup m hm ho)
  rest := by
    obtain ⟨bytes, es, hrest, hes, hnumber⟩ := h.rest
    obtain ⟨bytes', es', hrest', hes', hnumber'⟩ := h'.rest
    refine ⟨bytes ++ bytes', es ++ es', ?_, parse_append hes hes',
      List.forall_mem_append.mpr ⟨hnumber, hnumber'⟩⟩
    rw [hrest', hrest, List.append_assoc]
  sorted hc := h'.sorted (h.sorted hc)

theorem touches_keep (h : e.Stands depth) (c : Content) :
    Touches depth shape e.number c (c.keep e.bytes) where
  lookup _ _ _ := rfl
  rest := ⟨e.bytes, [e], rfl, h.parse_eq, by simp⟩
  sorted h := h

/-- What is held under other numbers after a number was set, in a record without the other members
of its oneof. -/
theorem lookup_clearOthers {m : Nat} {r : Record}
    (h : m = f.number ∨ (shape.field? m).bind FieldShape.oneof = none) :
    List.lookup m (r.clearOthers shape f) = r.lookup m := by
  unfold Record.clearOthers
  split
  · rfl
  · refine Record.lookup_filter fun _ => ?_
    rcases h with rfl | h
    · simp
    · simp [h]

theorem lookup_append (m : Nat) (values : List Datum) (r : Record) :
    List.lookup m (r.append number values) =
      if m = number then some (r.values number ++ values) else r.lookup m :=
  Record.lookup_set number m _ r

/-- What a field holds after it was given a value. -/
theorem lookup_give {m : Nat} (c : Content) (value : Datum)
    (h : m = f.number ∨ (shape.field? m).bind FieldShape.oneof = none) :
    (c.give shape f value).fields.lookup m =
      if m = f.number then
        some (if f.repeated then c.fields.values f.number ++ [value] else [value])
      else c.fields.lookup m := by
  have hfields : (c.give shape f value).fields =
      if f.repeated then c.fields.append f.number [value]
      else (c.fields.clearOthers shape f).set f.number [value] := rfl
  rw [hfields]
  split
  · exact lookup_append m [value] c.fields
  · rw [Record.lookup_set, lookup_clearOthers h]

theorem sorted_clearOthers {r : Record} (h : r.Sorted) : (r.clearOthers shape f).Sorted := by
  unfold Record.clearOthers
  split
  · exact h
  · exact h.filter _

theorem touches_give (c : Content) (value : Datum) :
    Touches depth shape f.number c (c.give shape f value) where
  lookup m hm ho := by rw [lookup_give c value (.inr ho), if_neg hm]
  rest := ⟨[], [], (List.append_nil _).symm, rfl, nofun⟩
  sorted h := by
    have hfields : (c.give shape f value).fields =
        if f.repeated then c.fields.append f.number [value]
        else (c.fields.clearOthers shape f).set f.number [value] := rfl
    rw [hfields]
    split
    · exact h.set _ _
    · exact (sorted_clearOthers h).set _ _

/-- A number that does not belong to its field is one of an enum. -/
theorem type_of_not_admits (h : shapes.admits f (numberDatum f.type n) = false) :
    f.type = .enumeration := by
  unfold numberDatum at h
  split at h
  all_goals first
    | assumption
    | exact absurd h (by simp [Shapes.admits])

theorem giveNumber_eq (shapes : Shapes) (shape : MessageShape) (f : FieldShape) (c : Content)
    (n : Nat) :
    c.giveNumber shapes shape f n =
      if shapes.admits f (numberDatum f.type n) then c.give shape f (numberDatum f.type n)
      else c.keep (encodeVarintField f.number n) := rfl

theorem readPacked_succ (form : NumberForm) (count : Nat) (b : UInt8) (bytes : List UInt8) :
    readPacked form (count + 1) (b :: bytes) =
      (match form with
        | .varint => readVarint64 (b :: bytes)
        | .word32 => readWord 4 (b :: bytes)
        | .word64 => readWord 8 (b :: bytes)).bind fun r =>
          (readPacked form count r.2).bind fun ns => some (r.1 :: ns) := by
  cases form <;> rfl

theorem readVarint64_lt {bytes rest : List UInt8} (h : readVarint64 bytes = some (n, rest)) :
    n < 2 ^ 64 := by
  obtain ⟨⟨m, _⟩, _, heq⟩ := Option.map_eq_some_iff.mp h
  cases heq
  exact Nat.mod_lt m (Nat.two_pow_pos 64)

theorem readPacked_varint_lt {count : Nat} {bytes : List UInt8} {ns : List Nat}
    (h : readPacked .varint count bytes = some ns) : ∀ n ∈ ns, n < 2 ^ 64 := by
  induction count generalizing bytes ns with
  | zero =>
    cases bytes with
    | nil => cases h; exact nofun
    | cons b bytes => cases h
  | succ count ih =>
    cases bytes with
    | nil => cases h; exact nofun
    | cons b bytes =>
      rw [readPacked_succ] at h
      obtain ⟨⟨n, _⟩, hn, h⟩ := Option.bind_eq_some_iff.mp h
      obtain ⟨ns, hns, heq⟩ := Option.bind_eq_some_iff.mp h
      cases heq
      exact List.forall_mem_cons.mpr ⟨readVarint64_lt hn, ih hns⟩

/-- The varints in a payload have at most 64 bits. -/
theorem payloadNumbers_varint_lt {repeated : Bool} {ns : List Nat} (he : e.Stands depth)
    (h : payloadNumbers .varint repeated e.payload = some (some ns)) : ∀ n ∈ ns, n < 2 ^ 64 := by
  cases hpayload : e.payload with
  | varint n =>
    rw [hpayload] at h
    cases h
    exact List.forall_mem_singleton.mpr (he.varint_lt n hpayload)
  | delimited content =>
    rw [hpayload] at h
    cases repeated with
    | true =>
      obtain ⟨_, hns, heq⟩ := Option.map_eq_some_iff.mp h
      cases heq
      exact readPacked_varint_lt hns
    | false => cases h
  | word64 n => rw [hpayload] at h; cases h
  | group content => rw [hpayload] at h; cases h
  | word32 n => rw [hpayload] at h; cases h

/-- A number that can be kept as a varint field, where it is one of an enum. -/
def Keepable (f : FieldShape) (n : Nat) : Prop :=
  f.type = .enumeration → n < 2 ^ 64

theorem keepable_of_payloadNumbers {form : NumberForm} {ns : List Nat} (he : e.Stands depth)
    (hform : numberForm? f.type = some form)
    (h : payloadNumbers form f.repeated e.payload = some (some ns)) :
    ∀ n ∈ ns, Keepable f n := by
  intro n hn htype
  rw [htype] at hform
  cases hform
  exact payloadNumbers_varint_lt he h n hn

theorem touches_giveNumber (hpos : 0 < f.number) (hlt : f.number < 2 ^ 29) (hn : Keepable f n)
    (c : Content) : Touches depth shape f.number c (c.giveNumber shapes shape f n) := by
  rw [giveNumber_eq]
  split
  · exact touches_give c _
  · next h =>
    have hn := hn (type_of_not_admits (eq_false_of_ne_true h))
    exact touches_keep (stands_varint hpos hlt hn) c

/-- The content with a field set by a packed payload. -/
def present (f : FieldShape) (packed : Bool) (c : Content) : Content :=
  if packed then { c with fields := c.fields.append f.number [] } else c

theorem giveNumbers_eq (packed : Bool) (numbers : List Nat) (c : Content) :
    c.giveNumbers shapes shape f packed numbers =
      numbers.foldl (giveNumber shapes shape f) (c.present f packed) := rfl

theorem touches_present (packed : Bool) (c : Content) :
    Touches depth shape f.number c (c.present f packed) := by
  unfold present
  split
  · exact {
      lookup := fun m hm _ => by rw [lookup_append, if_neg hm]
      rest := ⟨[], [], (List.append_nil _).symm, rfl, nofun⟩
      sorted := fun h => h.set _ _ }
  · exact Touches.refl depth shape f.number c

theorem touches_giveNumbers {ns : List Nat} (hpos : 0 < f.number) (hlt : f.number < 2 ^ 29)
    (hns : ∀ n ∈ ns, Keepable f n) (packed : Bool) (c : Content) :
    Touches depth shape f.number c (c.giveNumbers shapes shape f packed ns) := by
  have numbers (c : Content) :
      Touches depth shape f.number c (ns.foldl (giveNumber shapes shape f) c) := by
    induction ns generalizing c with
    | nil => exact Touches.refl depth shape f.number c
    | cons n ns ih =>
      obtain ⟨hn, hns⟩ := List.forall_mem_cons.mp hns
      exact (touches_giveNumber hpos hlt hn c).trans (ih hns _)
  rw [giveNumbers_eq]
  exact (touches_present packed c).trans (numbers _)

theorem touches_readMessage (he : e.Stands depth) (hf : f.number = e.number)
    (h : shapes.readMessage steps depth shape f c e = some c') :
    Touches depth shape e.number c c' := by
  have given (value : Datum) : Touches depth shape e.number c (c.give shape f value) :=
    hf ▸ touches_give c value
  unfold Shapes.readMessage at h
  split at h
  · cases h
    exact touches_keep he c
  · cases h
  · obtain ⟨inner, _, h⟩ := Option.bind_eq_some_iff.mp h
    obtain ⟨after, _, h⟩ := Option.bind_eq_some_iff.mp h
    split at h
    · cases h
      exact given _
    · split at h
      · cases h
        exact given _
      · cases h
        exact touches_keep he c

theorem touches_readOwn (he : e.Stands depth) (hf : f.number = e.number)
    (h : shapes.readOwn steps depth shape f c e = some c') :
    Touches depth shape e.number c c' := by
  unfold Shapes.readOwn at h
  split at h
  · next form hform =>
    obtain ⟨numbers, hnumbers, rfl⟩ := Option.map_eq_some_iff.mp h
    cases numbers with
    | none => exact touches_keep he c
    | some ns =>
      rw [← hf]
      exact touches_giveNumbers (hf ▸ he.number_pos) (hf ▸ he.number_lt)
        (keepable_of_payloadNumbers he hform hnumbers) _ c
  · split at h
    · exact touches_readMessage he hf h
    · split at h
      · obtain ⟨d, _, rfl⟩ := Option.map_eq_some_iff.mp h
        exact hf ▸ touches_give c d
      · cases h
        exact touches_keep he c

/-- A wire field of a message that is no message set changes only what is held under its number. -/
theorem touches_readStep (hset : shape.isSet = false) (he : e.Stands depth)
    (h : shapes.readStep steps depth shape c e = some c') :
    Touches depth shape e.number c c' := by
  rw [Shapes.readStep, hset, if_neg (by decide)] at h
  split at h
  · cases h
    exact touches_keep he c
  · next f hf => exact touches_readOwn he (field?_number hf) h

end Content

end SchemaScript.Wire
