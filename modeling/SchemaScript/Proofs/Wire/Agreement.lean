import SchemaScript.Proofs.Wire.Locality

/-!
# Agreement under a number

Two contents *agree* under a number if they hold the same under it and keep the same of it.  A wire
field of another number does not change that, unless the number is in a oneof, and neither do two
wire fields of this number with the same payload.

So two rows of wire fields with the same payloads of a number lead from contents that agree there to
contents that agree there (`readInto_agree`), whatever stands between these fields and however their
tags and lengths are written.
-/

namespace SchemaScript.Wire

variable {shapes : Shapes} {shape : MessageShape} {f : FieldShape} {steps steps' depth n number : Nat}
  {c c' d d' : Content} {e e' : Field} {es fs : List Field}

namespace Content

/-- What is kept of a content can be parsed. -/
def Readable (depth : Nat) (c : Content) : Prop :=
  ∃ es, parse depth c.rest = some es

/-- Two contents hold and keep the same under a number. -/
structure Agree (depth n : Nat) (c d : Content) : Prop where
  lookup : c.fields.lookup n = d.fields.lookup n
  rest : ∃ es fs, parse depth c.rest = some es ∧ parse depth d.rest = some fs ∧
    payloadsOf n es = payloadsOf n fs

theorem Readable.agree (h : Readable depth c) (n : Nat) : Agree depth n c c where
  lookup := rfl
  rest := h.elim fun es hes => ⟨es, es, hes, hes, rfl⟩

theorem Agree.symm (h : Agree depth n c d) : Agree depth n d c where
  lookup := h.lookup.symm
  rest := by
    obtain ⟨es, fs, hes, hfs, heq⟩ := h.rest
    exact ⟨fs, es, hfs, hes, heq.symm⟩

theorem Agree.trans (h : Agree depth n c c') (h' : Agree depth n c' d) : Agree depth n c d where
  lookup := h.lookup.trans h'.lookup
  rest := by
    obtain ⟨es, fs, hes, hfs, heq⟩ := h.rest
    obtain ⟨fs', gs, hfs', hgs, heq'⟩ := h'.rest
    cases hfs.symm.trans hfs'
    exact ⟨es, gs, hes, hgs, heq.trans heq'⟩

theorem Agree.readable (h : Agree depth n c d) : Readable depth c := by
  obtain ⟨es, _, hes, _⟩ := h.rest
  exact ⟨es, hes⟩

theorem Agree.values (h : Agree depth n c d) : c.fields.values n = d.fields.values n :=
  congrArg (Option.getD · []) h.lookup

theorem Agree.contents (h : Agree depth n c d) : c.fields.contents n = d.fields.contents n :=
  congrArg (List.filterMap _) h.values

/-- Fields of another number are nothing to a number outside of oneofs. -/
theorem Touches.agree (h : Touches depth shape number c c') (hn : number ≠ n)
    (ho : (shape.field? n).bind FieldShape.oneof = none) (hc : Readable depth c) :
    Agree depth n c c' where
  lookup := (h.lookup n hn.symm ho).symm
  rest := by
    obtain ⟨es, hes⟩ := hc
    obtain ⟨bytes, es', hrest, hes', hnumber⟩ := h.rest
    have hothers : payloadsOf n es' = [] :=
      payloadsOf_eq_nil fun e he heq => hn ((hnumber e he).symm.trans heq)
    refine ⟨es, es ++ es', hes, hrest ▸ parse_append hes hes', ?_⟩
    rw [payloadsOf_append, hothers, List.append_nil]

/-! ## Two wire fields of the number -/

/-- Two wire fields have the same number and the same payload. -/
structure Like (depth : Nat) (e e' : Field) : Prop where
  left : e.Stands depth
  right : e'.Stands depth
  number : e.number = e'.number
  payload : e.payload = e'.payload

theorem Agree.keep (h : Agree depth n c d) (he : Like depth e e') :
    Agree depth n (c.keep e.bytes) (d.keep e'.bytes) where
  lookup := h.lookup
  rest := by
    obtain ⟨es, fs, hes, hfs, heq⟩ := h.rest
    refine ⟨es ++ [e], fs ++ [e'], parse_append hes he.left.parse_eq,
      parse_append hfs he.right.parse_eq, ?_⟩
    have hone : payloadsOf n [e] = payloadsOf n [e'] := by
      simp only [payloadsOf, List.filter_cons, he.number, List.filter_nil]
      split
      · rw [List.map_cons, List.map_cons, he.payload]
      · rfl
    rw [payloadsOf_append, payloadsOf_append, heq, hone]

theorem Agree.give (h : Agree depth f.number c d) (value : Datum) :
    Agree depth f.number (c.give shape f value) (d.give shape f value) where
  lookup := by
    rw [lookup_give c value (.inl rfl), lookup_give d value (.inl rfl), if_pos rfl, if_pos rfl,
      h.values]
  rest := h.rest

theorem Agree.giveNumber (h : Agree depth f.number c d) (hpos : 0 < f.number)
    (hlt : f.number < 2 ^ 29) (hn : Keepable f n) :
    Agree depth f.number (c.giveNumber shapes shape f n) (d.giveNumber shapes shape f n) := by
  rw [giveNumber_eq, giveNumber_eq]
  split
  · exact h.give _
  · next hadmits =>
    have hn := hn (type_of_not_admits (eq_false_of_ne_true hadmits))
    exact h.keep ⟨stands_varint hpos hlt hn, stands_varint hpos hlt hn, rfl, rfl⟩

theorem Agree.present (h : Agree depth f.number c d) (packed : Bool) :
    Agree depth f.number (c.present f packed) (d.present f packed) := by
  unfold Content.present
  split
  · exact {
      lookup := by rw [lookup_append, lookup_append, if_pos rfl, if_pos rfl, h.values]
      rest := h.rest }
  · exact h

theorem Agree.giveNumbers {ns : List Nat} (h : Agree depth f.number c d) (hpos : 0 < f.number)
    (hlt : f.number < 2 ^ 29) (hns : ∀ n ∈ ns, Keepable f n) (packed : Bool) :
    Agree depth f.number (c.giveNumbers shapes shape f packed ns)
      (d.giveNumbers shapes shape f packed ns) := by
  rw [giveNumbers_eq, giveNumbers_eq]
  have hpresent := h.present packed
  generalize c.present f packed = c at hpresent ⊢
  generalize d.present f packed = d at hpresent ⊢
  induction ns generalizing c d with
  | nil => exact hpresent
  | cons n ns ih =>
    obtain ⟨hn, hns⟩ := List.forall_mem_cons.mp hns
    exact ih hns _ _ (hpresent.giveNumber hpos hlt hn)

theorem Agree.readMessage (h : Agree depth e.number c d) (hf : f.number = e.number)
    (he : Like depth e e')
    (hsteps : shapes.SameBelow (e.payload.content.length + 1) steps steps')
    (hc : shapes.readMessage steps depth shape f c e = some c')
    (hd : shapes.readMessage steps' depth shape f d e' = some d') :
    Agree depth e.number c' d' := by
  have given (value : Datum) :
      Agree depth e.number (c.give shape f value) (d.give shape f value) :=
    hf ▸ (hf ▸ h : Agree depth f.number c d).give value
  have kept : Agree depth e.number (c.keep e.bytes) (d.keep e'.bytes) :=
    h.keep he
  unfold Shapes.readMessage at hc hd
  rw [← he.payload, hf, ← h.contents] at hd
  rw [hf] at hc
  split at hc
  · next hnone =>
    rw [hnone] at hd
    cases hc
    cases hd
    exact kept
  · cases hc
  · next content depth hcontent =>
    rw [hcontent] at hd
    obtain ⟨inner, hinner, hc⟩ := Option.bind_eq_some_iff.mp hc
    obtain ⟨_, hinner', hd⟩ := Option.bind_eq_some_iff.mp hd
    cases hinner.symm.trans hinner'
    obtain ⟨after, hafter, hc⟩ := Option.bind_eq_some_iff.mp hc
    obtain ⟨_, hafter', hd⟩ := Option.bind_eq_some_iff.mp hd
    have hlt : content.length < e.payload.content.length + 1 := by
      rw [messageBytes?_eq_some hcontent]
      exact Nat.lt_succ_self _
    rw [← hsteps _ _ _ _ _ _ hinner hlt] at hafter'
    cases hafter.symm.trans hafter'
    split at hc
    · next hplain =>
      rw [if_pos hplain] at hd
      cases hc
      cases hd
      exact given _
    · next hentry =>
      rw [if_neg hentry] at hd
      split at hc
      · next htakes =>
        rw [if_pos htakes] at hd
        cases hc
        cases hd
        exact given _
      · next htakes =>
        rw [if_neg htakes] at hd
        cases hc
        cases hd
        exact kept

theorem Agree.readOwn (h : Agree depth e.number c d) (hf : f.number = e.number)
    (he : Like depth e e')
    (hsteps : shapes.SameBelow (e.payload.content.length + 1) steps steps')
    (hc : shapes.readOwn steps depth shape f c e = some c')
    (hd : shapes.readOwn steps' depth shape f d e' = some d') :
    Agree depth e.number c' d' := by
  have kept : Agree depth e.number (c.keep e.bytes) (d.keep e'.bytes) :=
    h.keep he
  have hown : Agree depth f.number c d := hf ▸ h
  unfold Shapes.readOwn at hc hd
  split at hc
  · next form hform =>
    rw [hform, ← he.payload] at hd
    obtain ⟨numbers, hnumbers, rfl⟩ := Option.map_eq_some_iff.mp hc
    obtain ⟨_, hnumbers', rfl⟩ := Option.map_eq_some_iff.mp hd
    cases hnumbers.symm.trans hnumbers'
    cases numbers with
    | none => exact kept
    | some ns =>
      rw [← hf]
      exact hown.giveNumbers (hf ▸ he.left.number_pos) (hf ▸ he.left.number_lt)
        (keepable_of_payloadNumbers he.left hform hnumbers) _
  · next hform =>
    rw [hform] at hd
    split at hc
    · next hmessage =>
      rw [if_pos hmessage] at hd
      exact h.readMessage hf he hsteps hc hd
    · next hmessage =>
      rw [if_neg hmessage, ← he.payload] at hd
      split at hc
      · next content hcontent =>
        rw [hcontent] at hd
        obtain ⟨value, hvalue, rfl⟩ := Option.map_eq_some_iff.mp hc
        obtain ⟨_, hvalue', rfl⟩ := Option.map_eq_some_iff.mp hd
        cases hvalue.symm.trans hvalue'
        rw [← hf]
        exact hown.give value
      · next hother =>
        cases hc
        dsimp only at hd
        split at hd
        · next content hcontent => exact absurd hcontent (hother content)
        · cases hd
          exact kept

/-- Wire fields of one number with one payload do the same under the number. -/
theorem Agree.readStep (hset : shape.isSet = false) (h : Agree depth e.number c d)
    (he : Like depth e e')
    (hsteps : shapes.SameBelow (e.payload.content.length + 1) steps steps')
    (hc : shapes.readStep steps depth shape c e = some c')
    (hd : shapes.readStep steps' depth shape d e' = some d') :
    Agree depth e.number c' d' := by
  rw [Shapes.readStep, hset, if_neg (by decide)] at hc hd
  rw [← he.number] at hd
  split at hc
  · next hnone =>
    rw [hnone] at hd
    cases hc
    cases hd
    exact h.keep he
  · next f hf =>
    rw [hf] at hd
    exact h.readOwn (field?_number hf) he hsteps hc hd

end Content

/-! ## Rows of wire fields -/

open Content

/-- Wire fields of other numbers change nothing under a number outside of oneofs. -/
theorem Content.Readable.agree_of_others (hset : shape.isSet = false)
    (ho : (shape.field? n).bind FieldShape.oneof = none) (hc : Readable depth c)
    (hes : ∀ e ∈ es, e.Stands depth) (hothers : ∀ e ∈ es, e.number ≠ n)
    (h : es.foldlM (shapes.readStep steps depth shape) c = some c') : Agree depth n c c' := by
  induction es generalizing c with
  | nil =>
    cases h
    exact hc.agree n
  | cons e es ih =>
    obtain ⟨he, hes⟩ := List.forall_mem_cons.mp hes
    obtain ⟨hother, hothers⟩ := List.forall_mem_cons.mp hothers
    rw [List.foldlM_cons] at h
    obtain ⟨middle, hmiddle, h⟩ := Option.bind_eq_some_iff.mp h
    have hfirst : Agree depth n c middle := (touches_readStep hset he hmiddle).agree hother ho hc
    exact hfirst.trans (ih hfirst.symm.readable hes hothers h)

/-- A row of wire fields up to its first one of a number. -/
theorem exists_of_payloadsOf_cons {payload : Payload} {payloads : List Payload}
    (h : payloadsOf n es = payload :: payloads) :
    ∃ before e after, es = before ++ e :: after ∧ (∀ e ∈ before, e.number ≠ n) ∧ e.number = n ∧
      e.payload = payload ∧ payloadsOf n after = payloads := by
  obtain ⟨e, rest, hfilter, hpayload, hrest⟩ := List.map_eq_cons_iff.mp h
  obtain ⟨before, after, rfl, hbefore, he, hafter⟩ := List.filter_eq_cons_iff.mp hfilter
  refine ⟨before, e, after, rfl, fun b hb heq => hbefore b hb (decide_eq_true heq),
    of_decide_eq_true he, hpayload, ?_⟩
  rw [payloadsOf, hafter, hrest]

theorem number_ne_of_payloadsOf_nil (h : payloadsOf n es = []) : ∀ e ∈ es, e.number ≠ n := by
  intro e he heq
  have hnone := List.filter_eq_nil_iff.mp (List.map_eq_nil_iff.mp h) e he
  exact hnone (decide_eq_true heq)

/-- Rows of wire fields with the same payloads of a number do the same under it. -/
theorem foldlM_readStep_agree (hset : shape.isSet = false)
    (ho : (shape.field? n).bind FieldShape.oneof = none)
    (hes : ∀ e ∈ es, e.Stands depth) (hfs : ∀ e ∈ fs, e.Stands depth)
    (hsteps : ∀ e ∈ es, e.number = n →
      shapes.SameBelow (e.payload.content.length + 1) steps steps')
    (hpayloads : payloadsOf n es = payloadsOf n fs)
    (hc : es.foldlM (shapes.readStep steps depth shape) c = some c')
    (hd : fs.foldlM (shapes.readStep steps' depth shape) d = some d')
    (h : Agree depth n c d) : Agree depth n c' d' := by
  generalize hlist : payloadsOf n es = payloads at hpayloads
  have hlist' := hpayloads.symm
  clear hpayloads
  induction payloads generalizing es fs c d with
  | nil =>
    have hleft := h.readable.agree_of_others hset ho hes (number_ne_of_payloadsOf_nil hlist) hc
    have hright :=
      h.symm.readable.agree_of_others hset ho hfs (number_ne_of_payloadsOf_nil hlist') hd
    exact (hleft.symm.trans h).trans hright
  | cons payload payloads ih =>
    obtain ⟨before, e, after, rfl, hbefore, rfl, rfl, hafter⟩ := exists_of_payloadsOf_cons hlist
    obtain ⟨before', e', after', rfl, hbefore', hnumber, hpayload, hafter'⟩ :=
      exists_of_payloadsOf_cons hlist'
    obtain ⟨hbeforeStands, hes⟩ := List.forall_mem_append.mp hes
    obtain ⟨he, hafterStands⟩ := List.forall_mem_cons.mp hes
    obtain ⟨hbeforeStands', hfs⟩ := List.forall_mem_append.mp hfs
    obtain ⟨he', hafterStands'⟩ := List.forall_mem_cons.mp hfs
    rw [List.foldlM_append] at hc hd
    obtain ⟨c₁, hc₁, hc⟩ := Option.bind_eq_some_iff.mp hc
    obtain ⟨d₁, hd₁, hd⟩ := Option.bind_eq_some_iff.mp hd
    rw [List.foldlM_cons] at hc hd
    obtain ⟨c₂, hc₂, hc⟩ := Option.bind_eq_some_iff.mp hc
    obtain ⟨d₂, hd₂, hd⟩ := Option.bind_eq_some_iff.mp hd
    have hleft := h.readable.agree_of_others hset ho hbeforeStands hbefore hc₁
    have hright := h.symm.readable.agree_of_others hset ho hbeforeStands' hbefore' hd₁
    have hhere := (hleft.symm.trans h).trans hright
    have hstep := hhere.readStep hset ⟨he, he', hnumber.symm, hpayload.symm⟩
      (hsteps e (List.mem_append_right _ List.mem_cons_self) rfl) hc₂ hd₂
    exact ih hafterStands hafterStands'
      (fun e he => hsteps e (List.mem_append_right _ (List.mem_cons_of_mem _ he)))
      hc hd hstep hafter hafter'

/-- Messages in the fields of a row need no more steps than the row has bytes. -/
theorem content_length_succ_le (hes : ∀ e ∈ es, e.Stands depth) (he : e ∈ es) :
    e.payload.content.length + 1 ≤ (es.flatMap Field.bytes).length := by
  have hlt := (hes e he).content_lt
  have hle := length_bytes_le (parse_eq_some_iff.mpr ⟨hes, rfl⟩) he
  omega

/-- A message is read alike under a number from bytes with the same payloads of the number. -/
theorem readInto_agree (hset : shape.isSet = false)
    (ho : (shape.field? n).bind FieldShape.oneof = none)
    (hes : ∀ e ∈ es, e.Stands depth) (hfs : ∀ e ∈ fs, e.Stands depth)
    (hpayloads : payloadsOf n es = payloadsOf n fs)
    (hc : shapes.readInto depth shape .empty es = some c)
    (hd : shapes.readInto depth shape .empty fs = some d) : Agree depth n c d := by
  have hempty : Readable depth Content.empty := ⟨[], rfl⟩
  rw [Shapes.readInto, readWithin_succ] at hc hd
  refine foldlM_readStep_agree hset ho hes hfs (fun e he hn => ?_) hpayloads hc hd (hempty.agree n)
  have hpayload : e.payload ∈ payloadsOf n fs := by
    rw [← hpayloads]
    exact List.mem_map.mpr ⟨e, List.mem_filter.mpr ⟨he, decide_eq_true hn⟩, rfl⟩
  obtain ⟨e', he', heq⟩ := List.mem_map.mp hpayload
  refine shapes.sameBelow _ (content_length_succ_le hes he) ?_
  rw [← heq]
  exact content_length_succ_le hfs (List.mem_of_mem_filter he')

theorem sorted_of_foldlM_readStep (hset : shape.isSet = false) (hes : ∀ e ∈ es, e.Stands depth)
    (hc : c.fields.Sorted) (h : es.foldlM (shapes.readStep steps depth shape) c = some c') :
    c'.fields.Sorted := by
  induction es generalizing c with
  | nil =>
    cases h
    exact hc
  | cons e es ih =>
    obtain ⟨he, hes⟩ := List.forall_mem_cons.mp hes
    rw [List.foldlM_cons] at h
    obtain ⟨middle, hmiddle, h⟩ := Option.bind_eq_some_iff.mp h
    exact ih hes ((touches_readStep hset he hmiddle).sorted hc) h

/-- What is read of a message is in the order of the numbers. -/
theorem sorted_of_readInto (hset : shape.isSet = false) (hes : ∀ e ∈ es, e.Stands depth)
    (h : shapes.readInto depth shape .empty es = some c) : c.fields.Sorted := by
  have hempty : Content.empty.fields.Sorted := List.Pairwise.nil
  rw [Shapes.readInto, readWithin_succ] at h
  exact sorted_of_foldlM_readStep hset hes hempty h

end SchemaScript.Wire
