import SchemaScript.Expr.Printer
import SchemaScript.Proofs.Number.Numeral
import SchemaScript.Proofs.Number.Short
import SchemaScript.Proofs.Number.Value
import SchemaScript.Proofs.Text.Comments

/-!
# Numbers in expressions

What is kept of a number when it is written.

An integer of at most 4300 digits is written in its decimal digits, and a longer one is not written
at all.  A double that is an integer below `10 ^ 21` is written in its digits, too.  Any other finite
double is written as a numeral that denotes what its form in messages denotes.  The forms have the
parts of the numeral in common, and they differ in the width of the exponent.  An exponent of zero is
never written, so there is no zero in front of one that is as wide as it has to be
(`Decimal.hasPlainExponent_text`).

The comment behind a number is open until the last two characters.
-/

namespace SchemaScript

/-! ## Signs -/

theorem not_mem_sign {c : Char} (h : c ≠ '-') (negative : Bool) :
    c ∉ (if negative then "-" else "").toList := by
  cases negative with
  | false => exact List.not_mem_nil
  | true => exact fun hc => h (List.mem_singleton.mp hc)

namespace Numeral

theorem number?_of_magnitude {text : String} {q : ℚ} (h : magnitude? text.toList = some q) :
    number? text = some q := by
  unfold number?
  split
  · next rest htext =>
    -- a text without a sign starts with a digit
    rw [htext] at h
    cases h
  · exact h

theorem number?_signed {text : String} {q : ℚ} (h : magnitude? text.toList = some q)
    (negative : Bool) :
    number? ((if negative then "-" else "") ++ text) = some (if negative then -q else q) := by
  cases negative with
  | false =>
    have htext : (if false then "-" else "") ++ text = text := String.empty_append
    rw [htext]
    exact number?_of_magnitude h
  | true =>
    have htext : ((if true then "-" else "") ++ text).toList = '-' :: text.toList := by
      rw [String.toList_append]
      rfl
    rw [number?, htext]
    show (magnitude? text.toList).map (- ·) = some (-q)
    rw [h, Option.map_some]

end Numeral

/-! ## Integers -/

theorem intText_eq_toString (n : ℤ) : intText n = toString n := by
  cases n with
  | ofNat n => exact if_neg (by simp)
  | negSucc n => exact if_pos (Int.negSucc_lt_zero n)

theorem Numeral.magnitude?_repr (n : ℕ) : magnitude? (Nat.repr n).toList = some (n : ℚ) := by
  have hformed : WellFormed ⟨Nat.toDigits 10 n, [], none⟩ :=
    ⟨Nat.toDigits_ne_nil, fun _ hc => Script.isDigit_of_mem_toDigits hc, nofun⟩
  have hread := magnitude?_chars hformed 0
  have hchars : chars 0 ⟨Nat.toDigits 10 n, [], none⟩ = Nat.toDigits 10 n := List.append_nil _
  have hvalue : value ⟨Nat.toDigits 10 n, [], none⟩ = n := by
    show assemble (Nat.toDigits 10 n) [] 0 = n
    rw [assemble, List.append_nil, Nat.ofDigitChars_ten_toDigits]
    simp
  rw [hchars, hvalue] at hread
  rwa [Nat.toList_repr]

theorem Numeral.number?_toString (n : ℤ) : number? (toString n) = some (n : ℚ) := by
  have htext : toString n = (if decide (n < 0) then "-" else "") ++ Nat.repr n.natAbs := by
    rw [← intText_eq_toString, intText]
    split
    · next h => rw [if_pos (decide_eq_true h)]
    · next h => rw [if_neg (by simpa using h), String.empty_append]
  rw [htext, number?_signed (magnitude?_repr _)]
  congr 1
  rw [← Int.cast_natCast]
  split
  · next h =>
    have hneg := of_decide_eq_true h
    rw [← Int.cast_neg, Int.cast_inj]
    omega
  · next h =>
    have hpos := of_decide_eq_false (Bool.eq_false_of_not_eq_true h)
    rw [Int.cast_inj]
    omega

/-- The characters of an integer are digits and minus signs. -/
theorem isDigit_or_eq_of_mem_toString {n : ℤ} {c : Char} (hc : c ∈ (toString n).toList) :
    c.isDigit = true ∨ c = '-' := by
  rw [← intText_eq_toString, intText] at hc
  split at hc
  · rw [String.toList_append, Nat.toList_repr] at hc
    rcases List.mem_append.mp hc with hsign | hdigit
    · exact .inr (List.mem_singleton.mp hsign)
    · exact .inl (Script.isDigit_of_mem_toDigits hdigit)
  · rw [Nat.toList_repr] at hc
    exact .inl (Script.isDigit_of_mem_toDigits hc)

theorem not_mem_toString {c : Char} (hdigit : c.isDigit = false) (hminus : c ≠ '-') (n : ℤ) :
    c ∉ (toString n).toList := by
  intro hc
  rcases isDigit_or_eq_of_mem_toString hc with h | h
  · exact absurd h (Bool.eq_false_iff.mp hdigit)
  · exact hminus h

/-! ## Exponents -/

/-- A sign and digits, the first of which is not zero. -/
def IsPlainExponent (chars : List Char) : Prop :=
  ∃ sign digits, chars = sign :: digits ∧ (sign = '+' ∨ sign = '-') ∧ digits ≠ [] ∧
    (∀ c ∈ digits, c.isDigit = true) ∧ digits.head? ≠ some '0'

/-- Behind each letter `e` there is a sign, and digits without a zero in front, up to the end. -/
def HasPlainExponent (text : String) : Prop :=
  ∀ before after, text.toList = before ++ 'e' :: after → IsPlainExponent after

theorem IsPlainExponent.not_mem {chars : List Char} (h : IsPlainExponent chars) : 'e' ∉ chars := by
  obtain ⟨sign, digits, rfl, hsign, -, hdigits, -⟩ := h
  intro he
  rcases List.mem_cons.mp he with rfl | he
  · exact absurd hsign (by decide)
  · exact absurd (hdigits _ he) (by decide)

theorem exponentText_one {e : ℤ} (he : e ≠ 0) :
    ∃ after, (exponentText 1 e).toList = 'e' :: after ∧ IsPlainExponent after := by
  have hlength : 1 - (Nat.repr e.natAbs).length = 0 := by
    rw [← String.length_toList, Nat.toList_repr]
    exact Nat.sub_eq_zero_of_le (List.length_pos_of_ne_nil Nat.toDigits_ne_nil)
  refine ⟨_, Numeral.toList_exponentText 1 e, _, _, rfl, ?_, ?_⟩
  · split
    · exact .inr rfl
    · exact .inl rfl
  · rw [hlength, List.replicate_zero, List.nil_append]
    refine ⟨Nat.toDigits_ne_nil, fun c hc => Script.isDigit_of_mem_toDigits hc, fun hhead => he ?_⟩
    exact Int.natAbs_eq_zero.mp (Script.head?_toDigits _ hhead)

namespace Numeral

variable {n : Numeral}

theorem WellFormed.isDigit_or_eq (h : n.WellFormed) {c : Char}
    (hc : c ∈ n.whole ++ n.fractionChars) : c.isDigit = true ∨ c = '.' := by
  rcases List.mem_append.mp hc with hwhole | hfraction
  · exact .inl (h.whole c hwhole)
  · unfold fractionChars at hfraction
    split at hfraction
    · cases hfraction
    · exact (List.mem_cons.mp hfraction).symm.imp (h.fraction c) id

/-- The first letter `e` of a numeral is that of its exponent. -/
theorem isPlainExponent_of_chars (h : n.WellFormed) (hexponent : n.exponent ≠ some 0)
    {front before after : List Char} (hfront : 'e' ∉ front)
    (hchars : front ++ n.chars 1 = before ++ 'e' :: after) : IsPlainExponent after := by
  have hstart : 'e' ∉ front ++ (n.whole ++ n.fractionChars) := by
    intro he
    rcases List.mem_append.mp he with he | he
    · exact hfront he
    · exact absurd (h.isDigit_or_eq he) (by decide)
  rw [chars, ← List.append_assoc n.whole, ← List.append_assoc front] at hchars
  cases hcase : n.exponent with
  | none =>
    rw [exponentChars, hcase, List.append_nil] at hchars
    exact absurd (hchars ▸ List.mem_append_right _ List.mem_cons_self) hstart
  | some e =>
    have he : e ≠ 0 := fun heq => hexponent (by rw [hcase, heq])
    obtain ⟨plain, hplain, hexp⟩ := exponentText_one he
    rw [exponentChars, hcase] at hchars
    dsimp only at hchars
    rw [hplain, List.append_cons_inj_of_notMem hstart hexp.not_mem] at hchars
    exact hchars.2.2 ▸ hexp

theorem slash_not_mem_chars (h : n.WellFormed) (width : ℕ) : '/' ∉ n.chars width := by
  rw [chars, ← List.append_assoc]
  intro hslash
  rcases List.mem_append.mp hslash with hstart | hexp
  · exact absurd (h.isDigit_or_eq hstart) (by decide)
  · unfold exponentChars at hexp
    split at hexp
    · cases hexp
    · next e _ =>
      rw [toList_exponentText] at hexp
      rcases List.mem_cons.mp hexp with he | hrest
      · cases he
      · rcases List.mem_cons.mp hrest with hsign | hdigit
        · split at hsign <;> cases hsign
        · exact absurd (isDigit_of_mem_padded _ hdigit) (by decide)

end Numeral

/-- In its least width an exponent has no zero in front. -/
theorem Decimal.hasPlainExponent_text (d : Decimal) {sign : String} (hsign : 'e' ∉ sign.toList) :
    HasPlainExponent (sign ++ d.text 1) := by
  intro before after hchars
  rw [String.toList_append, Decimal.toList_text] at hchars
  exact Numeral.isPlainExponent_of_chars d.laysOut_numeral.wellFormed
    (Numeral.exponent_ofDigits_ne _ _) hsign hchars

/-! ## Doubles -/

namespace Double

variable {d : Double}

theorem integer?_message (d : Double) : DoubleStyle.message.integer? d = none := by
  unfold DoubleStyle.integer?
  split
  · exact if_neg fun h => absurd h.1 (by decide)
  · rfl

theorem integer?_script (h : d.IsFinite) {n : ℤ} :
    DoubleStyle.script.integer? d = some n ↔ d.value = n ∧ n.natAbs < 10 ^ 21 := by
  have hbound : Nat.pow 10 21 = 10 ^ 21 := rfl
  rw [← toInt?_eq_some_iff h, DoubleStyle.integer?, hbound]
  cases hint : d.toInt? with
  | none => simp
  | some m =>
    have hplain : DoubleStyle.script.plainIntegers = true := rfl
    by_cases hm : m.natAbs < 10 ^ 21
    · simp only [hplain, hm, and_self, if_true, Option.some.injEq]
      exact ⟨fun heq => ⟨heq, heq ▸ hm⟩, And.left⟩
    · simp only [hm, and_false, if_false, reduceCtorEq, Option.some.injEq, false_iff]
      rintro ⟨rfl, hlt⟩
      exact hm hlt

/-- An integer below the bound is written like an integer. -/
theorem text_script_of_value (h : d.IsFinite) {n : ℤ} (hn : d.value = n)
    (hbound : n.natAbs < 10 ^ 21) : d.text .script = toString n := by
  rw [text, h.isNaN, (integer?_script h).mpr ⟨hn, hbound⟩, ← intText_eq_toString]
  rfl

/-- Whatever is not written like an integer is written by its shortest decimal. -/
theorem text_of_shortest (h : d.IsFinite) {style : DoubleStyle} (hstyle : style.integer? d = none)
    (hne : d.magnitude ≠ 0) :
    d.text style =
      (if d.negative then "-" else "") ++ d.shortest.text style.exponentWidth := by
  rw [text, h.isNaN, hstyle, h.isInfinite, magnitudeText, if_neg hne]
  rfl

theorem value_of_magnitude_eq_zero (h : d.magnitude = 0) : d.value = 0 := by
  have hexponent : d.exponentField = 0 := by rw [exponentField, h, Nat.zero_div]
  have hfraction : d.fractionField = 0 := by rw [fractionField, h, Nat.zero_mod]
  rw [value, if_pos hexponent, hfraction, Nat.cast_zero, zero_mul, mul_zero]

theorem slash_not_mem_text (d : Double) : '/' ∉ (d.text .script).toList := by
  have hmagnitude : '/' ∉ (d.magnitudeText 1).toList := by
    unfold magnitudeText
    split
    · decide
    · rw [Decimal.toList_text]
      exact Numeral.slash_not_mem_chars d.shortest.laysOut_numeral.wellFormed 1
  unfold text
  split
  · decide
  · split
    · rw [intText_eq_toString]
      exact not_mem_toString (by decide) (by decide) _
    · rw [String.toList_append]
      refine List.not_mem_append (not_mem_sign (by decide) _) ?_
      split
      · decide
      · exact hmagnitude

end Double

theorem Number.slash_not_mem_text (v : Number) : '/' ∉ v.text.toList := by
  cases v with
  | int n =>
    rw [text, intText_eq_toString]
    exact not_mem_toString (by decide) (by decide) n
  | double d => exact d.slash_not_mem_text

/-! ## Written numbers -/

namespace Expr

/-- A number is written exactly if it is no misfit. -/
theorem written_number_eq_ok_iff {indent text : String} {v : Number} {comment : Option String} :
    written indent (.number v comment) = .ok text ↔
      v.misfit? = none ∧ v.text ++ commentAfter comment = text := by
  rw [written, misfit?]
  cases v.misfit? with
  | none => simp [print]
  | some value => simp

theorem written_int_of_short (indent : String) {n : ℤ} (h : n.natAbs < 10 ^ 4300) :
    written indent (.number (.int n) none) = .ok (toString n) := by
  have hfits := Number.misfit?_int_eq_none_iff.mpr (isShortInt_iff.mpr h)
  refine written_number_eq_ok_iff.mpr ⟨hfits, ?_⟩
  rw [commentAfter, String.append_empty, Number.text, intText_eq_toString]

theorem written_int_of_long (indent : String) {n : ℤ} (comment : Option String)
    (h : 10 ^ 4300 ≤ n.natAbs) :
    written indent (.number (.int n) comment) = .error .tooManyDigits := by
  rw [written, misfit?, Number.misfit?, isShortInt_eq_false_iff.mpr h]
  rfl

theorem written_double (indent : String) (d : Double) :
    written indent (.number (.double d) none) = .ok (d.text .script) := by
  refine written_number_eq_ok_iff.mpr ⟨rfl, ?_⟩
  rw [commentAfter, String.append_empty, Number.text]

/-- A double that is no integer below the bound is written as a numeral that denotes what its form
in messages denotes, and only their exponents look different. -/
theorem exists_number?_script {d : Double} (h : d.IsFinite)
    (hno : ∀ n : ℤ, d.value = n → 10 ^ 21 ≤ n.natAbs) :
    ∃ q, Numeral.number? (d.text .message) = some q ∧
      Numeral.number? (d.text .script) = some q ∧ HasPlainExponent (d.text .script) := by
  have hne : d.magnitude ≠ 0 := by
    intro hzero
    have hbound := hno 0 (by rw [Double.value_of_magnitude_eq_zero hzero, Int.cast_zero])
    exact absurd hbound (by decide)
  have hscript : DoubleStyle.script.integer? d = none := by
    refine Option.eq_none_iff_forall_ne_some.mpr fun n hn => ?_
    obtain ⟨hvalue, hlt⟩ := (Double.integer?_script h).mp hn
    exact absurd hlt (Nat.not_lt.mpr (hno n hvalue))
  obtain ⟨q, hread⟩ : ∃ q, ∀ width, Numeral.number?
      ((if d.negative then "-" else "") ++ d.shortest.text width) = some q :=
    ⟨_, fun width => Numeral.number?_signed (Decimal.magnitude?_text width _) _⟩
  refine ⟨q, ?_, ?_, ?_⟩
  · rw [Double.text_of_shortest h (Double.integer?_message d) hne]
    exact hread _
  · rw [Double.text_of_shortest h hscript hne]
    exact hread _
  · rw [Double.text_of_shortest h hscript hne]
    exact Decimal.hasPlainExponent_text _ (not_mem_sign (by decide) _)

/-- A comment behind a number starts with the first slash and ends with the last one. -/
theorem exists_comment_written {indent text : String} {v : Number}
    (h : written indent (.number v none) = .ok text) (comment : String) : ∃ body,
    written indent (.number v (some comment)) = .ok (text ++ " /*" ++ body ++ "*/") ∧
      Text.Disarms body comment ∧ '/' ∉ text.toList ∧
      ∀ before after, body ++ "*/" = before ++ "*/" ++ after → after = "" := by
  obtain ⟨hfits, htext⟩ := written_number_eq_ok_iff.mp h
  rw [commentAfter, String.append_empty] at htext
  subst htext
  refine ⟨Text.commentText comment, written_number_eq_ok_iff.mpr ⟨hfits, ?_⟩,
    Text.disarms_commentText comment, v.slash_not_mem_text, fun before after => ?_⟩
  · rw [commentAfter, String.append_assoc, String.append_assoc, String.append_assoc]
  · exact Text.eq_empty_of_staysOpen (Text.staysOpen_commentText comment)

/-- A number keeps its value when it is written, and a comment behind it goes on to the end.

Integers of at most 4300 digits and doubles that are integers below `10 ^ 21` are written in their
digits, and longer integers are not written.  Every other finite double is written as a numeral that
denotes what its form in messages denotes, and there is no zero in front of an exponent. -/
theorem written_number_keeps_value (indent : String) :
    (∀ n : ℤ, n.natAbs < 10 ^ 4300 → written indent (.number (.int n) none) = .ok (toString n) ∧
      Numeral.number? (toString n) = some (n : ℚ)) ∧
    (∀ (n : ℤ) (comment : Option String), 10 ^ 4300 ≤ n.natAbs →
      written indent (.number (.int n) comment) = .error .tooManyDigits) ∧
    (∀ d : Double, d.IsFinite →
      (∀ n : ℤ, d.value = n → n.natAbs < 10 ^ 21 →
        written indent (.number (.double d) none) = .ok (toString n) ∧
          '.' ∉ (toString n).toList ∧ 'e' ∉ (toString n).toList) ∧
      ((∀ n : ℤ, d.value = n → 10 ^ 21 ≤ n.natAbs) →
        ∃ text q, written indent (.number (.double d) none) = .ok text ∧
          Numeral.number? (d.text .message) = some q ∧ Numeral.number? text = some q ∧
            HasPlainExponent text)) ∧
    ∀ (v : Number) (text : String), written indent (.number v none) = .ok text →
      ∀ comment : String, ∃ body,
        written indent (.number v (some comment)) = .ok (text ++ " /*" ++ body ++ "*/") ∧
        Text.Disarms body comment ∧ '/' ∉ text.toList ∧
        ∀ before after, body ++ "*/" = before ++ "*/" ++ after → after = "" := by
  refine ⟨fun n hn => ⟨written_int_of_short indent hn, Numeral.number?_toString n⟩,
    fun n comment => written_int_of_long indent comment,
    fun d h => ⟨fun n hn hbound => ⟨?_, ?_, ?_⟩, fun hno => ?_⟩,
    fun v text => exists_comment_written⟩
  · rw [written_double, Double.text_script_of_value h hn hbound]
  · exact not_mem_toString (by decide) (by decide) n
  · exact not_mem_toString (by decide) (by decide) n
  · obtain ⟨q, hq⟩ := exists_number?_script h hno
    exact ⟨_, q, written_double indent d, hq⟩

/-- Two is written like an integer.  Ten to the minus seven is no integer, and ten to the twenty-two
is one beyond the bound.  The comment behind minus twelve would end too early as it is. -/
theorem written_number_keeps_two_small_and_large :
    written "" (.number (.double (Double.ofDecimal false 2 0)) none) = .ok "2" ∧
    (∃ text q, written "" (.number (.double (Double.ofDecimal false 1 (-7))) none) = .ok text ∧
      Numeral.number? "1e-07" = some q ∧ Numeral.number? text = some q ∧ HasPlainExponent text) ∧
    (∃ text q, written "" (.number (.double (Double.ofDecimal true 1 22)) none) = .ok text ∧
      Numeral.number? "-1e+22" = some q ∧ Numeral.number? text = some q ∧ HasPlainExponent text) ∧
    ∃ body, written "" (.number (.int (-12)) (some "*/")) = .ok ("-12 /*" ++ body ++ "*/") ∧
      ∀ before after, body ++ "*/" = before ++ "*/" ++ after → after = "" := by
  have htwo : (Double.ofDecimal false 2 0).IsFinite := by decide +kernel
  have hsmall : (Double.ofDecimal false 1 (-7)).IsFinite := by decide +kernel
  have hlarge : (Double.ofDecimal true 1 22).IsFinite := by decide +kernel
  have hvalue : (Double.ofDecimal false 2 0).value = (2 : ℤ) :=
    (Double.toInt?_eq_some_iff htwo).mp (by decide +kernel)
  have hfraction : (Double.ofDecimal false 1 (-7)).toInt? = none := by decide +kernel
  have hinteger : (Double.ofDecimal true 1 22).toInt? = some (-10 ^ 22) := by decide +kernel
  have hmessages : (Double.ofDecimal false 1 (-7)).text .message = "1e-07" ∧
      (Double.ofDecimal true 1 22).text .message = "-1e+22" := by decide +kernel
  have hshort : (-12 : ℤ).natAbs < 10 ^ 4300 := isShortInt_iff.mp (by decide +kernel)
  rw [← hmessages.1, ← hmessages.2]
  obtain ⟨hintegers, -, hdoubles, hcomments⟩ := written_number_keeps_value ""
  obtain ⟨body, hbody, -, -, hends⟩ := hcomments _ _ (hintegers (-12) hshort).1 "*/"
  refine ⟨((hdoubles _ htwo).1 2 hvalue (by decide)).1, (hdoubles _ hsmall).2 fun n hn => ?_,
    (hdoubles _ hlarge).2 fun n hn => ?_, body, hbody, hends⟩
  · rw [(Double.toInt?_eq_some_iff hsmall).mpr hn] at hfraction
    cases hfraction
  · rw [(Double.toInt?_eq_some_iff hlarge).mpr hn, Option.some_inj] at hinteger
    rw [hinteger]
    decide

/-- The least integer of 4301 digits is not written. -/
theorem not_written_number_keeps_value :
    written "" (.number (.int (10 ^ 4300)) none) = .error .tooManyDigits ∧
      ¬ ∀ n : ℤ, written "" (.number (.int n) none) = .ok (toString n) := by
  have hfails := written_int_of_long "" none (isShortInt_eq_false_iff.mp isShortInt_pow_eq_false)
  refine ⟨hfails, fun hall => ?_⟩
  cases hfails.symm.trans (hall (10 ^ 4300))

end Expr
end SchemaScript
