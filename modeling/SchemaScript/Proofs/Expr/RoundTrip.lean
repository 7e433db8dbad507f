import SchemaScript.Expr.OfValue
import SchemaScript.Proofs.Expr.Spelling
import SchemaScript.Proofs.Number.Short
import SchemaScript.Proofs.Outcome
import SchemaScript.Proofs.Related
import SchemaScript.Proofs.TextTable

/-!
# Literals in text

What a value is once its literal has been written and read.

The values here are *plain*: nothing, truth values, integers, texts, lists and tuples, and tables
whose keys are different texts (`Value.IsPlain`).  No key of them ends with a line feed, for such a
key could be written bare with the line feed, which a reader takes for a blank.

A plain value has a literal.  If no integer in the value has too many digits, the text of the literal
holds only the printable characters of ASCII, and reading it gives the value with lists for tuples
(`Value.IsPlain.written_reads_back`).  Nothing else is lost, and a text or a key never reaches beyond
its quotation marks.  An integer of too many digits keeps the literal from being written.

The induction is on the value.  What it carries is that the literal spells the value at every
indentation, and that the first misfit in it is the first long integer of the value
(`Value.Writes`).
-/

namespace SchemaScript

/-! ## Plain values -/

namespace Value

/-- Whether a value is a text that does not end with a line feed. -/
def isKey : Value → Bool
  | .scalar (.text s) => s.toList.getLast? != some '\n'
  | _ => false

theorem exists_of_isKey {v : Value} (h : v.isKey = true) :
    ∃ key : String, v = .text key ∧ key.toList.getLast? ≠ some '\n' := by
  unfold isKey at h
  split at h
  · next s => exact ⟨s, rfl, bne_iff_ne.mp h⟩
  · cases h

/-- A value is made of nothing, truth values, integers and texts by lists, tuples and tables whose
keys are different texts, none of which ends with a line feed. -/
inductive IsPlain : Value → Prop where
  | null : IsPlain (.scalar .null)
  | bool (b : Bool) : IsPlain (.scalar (.bool b))
  | int (n : Int) : IsPlain (.scalar (.int n))
  | text (s : String) : IsPlain (.text s)
  | list {items : List Value} (h : ∀ v ∈ items, IsPlain v) : IsPlain (.list items)
  | tuple {items : List Value} (h : ∀ v ∈ items, IsPlain v) : IsPlain (.tuple items)
  | table {entries : List (Value × Value)}
    (hkeys : ∀ e ∈ entries, e.1.isKey = true) (hdistinct : (entries.map Prod.fst).Nodup)
    (h : ∀ e ∈ entries, IsPlain e.2) : IsPlain (.table entries)

mutual

/-- A value with lists for tuples. -/
def listed : Value → Value
  | .list items => .list (listedAll items)
  | .tuple items => .list (listedAll items)
  | .table entries => .table (listedEntries entries)
  | .scalar s => .scalar s
  | .bytes content => .bytes content
  | .set => .set
  | .object => .object

/-- Values in order with lists for tuples. -/
def listedAll : List Value → List Value
  | [] => []
  | v :: rest => listed v :: listedAll rest

/-- Entries in order with lists for tuples in their values. -/
def listedEntries : List (Value × Value) → List (Value × Value)
  | [] => []
  | (key, v) :: rest => (key, listed v) :: listedEntries rest

end

theorem listedAll_eq_map (items : List Value) : listedAll items = items.map listed := by
  induction items with
  | nil => rfl
  | cons v rest ih => rw [listedAll, List.map_cons, ih]

theorem listedEntries_eq_map (entries : List (Value × Value)) :
    listedEntries entries = entries.map fun e => (e.1, e.2.listed) := by
  induction entries with
  | nil => rfl
  | cons e rest ih => rw [listedEntries, List.map_cons, ih]

/-- Entries with different texts for keys are already a table. -/
theorem tableOf_eq_self {entries : List (Value × Value)}
    (hkeys : ∀ e ∈ entries, e.1.isKey = true) (hdistinct : (entries.map Prod.fst).Nodup) :
    tableOf entries = entries := by
  obtain ⟨pairs, rfl⟩ := exists_textEntries fun e he =>
    (exists_of_isKey (hkeys e he)).imp fun _ hkey => hkey.1
  rw [keys_textEntries] at hdistinct
  rw [tableOf_textEntries, Table.entries_ofList hdistinct.of_map]

/-! ## Integers in values -/

mutual

/-- The integers in a value in order.  Those in keys do not count. -/
def ints : Value → List Int
  | .scalar (.int n) => [n]
  | .list items => intsOfAll items
  | .tuple items => intsOfAll items
  | .table entries => intsOfEntries entries
  | .scalar _ | .bytes _ | .set | .object => []

/-- The integers in values in order. -/
def intsOfAll : List Value → List Int
  | [] => []
  | v :: rest => ints v ++ intsOfAll rest

/-- The integers in the values of entries in order. -/
def intsOfEntries : List (Value × Value) → List Int
  | [] => []
  | (_, v) :: rest => ints v ++ intsOfEntries rest

end

/-- The first of some integers that is too long to be written. -/
def firstLong? (ns : List Int) : Option Value :=
  (ns.find? fun n => !isShortInt n).map fun n => .scalar (.int n)

theorem firstLong?_append (ms ns : List Int) :
    firstLong? (ms ++ ns) = (firstLong? ms).or (firstLong? ns) := by
  rw [firstLong?, firstLong?, firstLong?, List.find?_append, Option.map_or]

theorem firstLong?_eq_none {ns : List Int} (h : ∀ n ∈ ns, isShortInt n = true) :
    firstLong? ns = none := by
  rw [firstLong?, Option.map_eq_none_iff, List.find?_eq_none]
  intro n hn
  simp [h n hn]

theorem exists_firstLong? {ns : List Int} (h : ∃ n ∈ ns, isShortInt n = false) :
    ∃ n, firstLong? ns = some (.scalar (.int n)) := by
  obtain ⟨m, hm, hlong⟩ := h
  have hfound : (ns.find? fun n => !isShortInt n).isSome = true :=
    List.find?_isSome.mpr ⟨m, hm, by simp [hlong]⟩
  obtain ⟨n, hn⟩ := Option.isSome_iff_exists.mp hfound
  exact ⟨n, by rw [firstLong?, hn, Option.map_some]⟩

/-! ## Literals of plain values -/

/-- An expression spells a value, wherever it stands, and only the long integers of the value keep
it from being written. -/
def Writes (e : Expr) (v : Value) : Prop :=
  e.misfit? = firstLong? v.ints ∧ ∀ indent, Script.Spells (e.print indent).toList v.listed

open SchemaScript.Expr Outcome

theorem Writes.int (n : Int) : Writes (.number (.int n) none) (.scalar (.int n)) := by
  constructor
  · show Number.misfit? (.int n) = firstLong? [n]
    rw [Number.misfit?, firstLong?, List.find?_singleton]
    cases isShortInt n with
    | false => rfl
    | true => rfl
  · intro indent
    have htext : (intText n ++ commentAfter none).toList = (intText n).toList := by
      rw [String.toList_append]
      exact List.append_nil _
    show Script.Spells (intText n ++ commentAfter none).toList _
    rw [htext]
    exact Script.Spells.integer n

theorem writes_values {items : List Value} (h : ∀ v ∈ items, ∃ e, ofValue v = .ok e ∧ Writes e v) :
    ∃ es, ofValues items = .ok es ∧ List.Forall₂ Writes es items := by
  induction items with
  | nil => exact ⟨[], rfl, .nil⟩
  | cons v rest ih =>
    obtain ⟨e, he, hv⟩ := h v List.mem_cons_self
    obtain ⟨es, hes, hvs⟩ := ih fun u hu => h u (List.mem_cons_of_mem _ hu)
    refine ⟨e :: es, ?_, .cons hv hvs⟩
    rw [ofValues, bind_eq_ok_iff]
    exact ⟨e, he, bind_eq_ok_iff.mpr ⟨es, hes, rfl⟩⟩

theorem writes_entries {entries : List (Value × Value)} (hkeys : ∀ p ∈ entries, p.1.isKey = true)
    (h : ∀ p ∈ entries, ∃ e, ofValue p.2 = .ok e ∧ Writes e p.2) :
    ∃ ps, ofEntries entries = .ok ps ∧
      List.Forall₂ (fun p entry => p.1 = entry.1.plain ∧ Writes p.2 entry.2) ps entries := by
  induction entries with
  | nil => exact ⟨[], rfl, .nil⟩
  | cons p rest ih =>
    obtain ⟨key, v⟩ := p
    obtain ⟨e, he, hv⟩ := h (key, v) List.mem_cons_self
    obtain ⟨s, hs, -⟩ := exists_of_isKey (hkeys (key, v) List.mem_cons_self)
    obtain ⟨ps, hps, hvs⟩ := ih (fun q hq => hkeys q (List.mem_cons_of_mem _ hq))
      fun q hq => h q (List.mem_cons_of_mem _ hq)
    refine ⟨(key.plain, e) :: ps, ?_, .cons ⟨rfl, hv⟩ hvs⟩
    rw [ofEntries, bind_eq_ok_iff]
    cases hs
    exact ⟨s, ofKey_of_isShort rfl, bind_eq_ok_iff.mpr ⟨e, he, bind_eq_ok_iff.mpr ⟨ps, hps, rfl⟩⟩⟩

theorem firstMisfit?_of_writes {es : List Expr} {vs : List Value}
    (h : List.Forall₂ Writes es vs) : firstMisfit? es = firstLong? (intsOfAll vs) := by
  induction h with
  | nil => rfl
  | cons he _ ih => rw [firstMisfit?, he.1, ih, intsOfAll, firstLong?_append]

/-- The literal for a list or a tuple of values. -/
theorem Writes.array {es : List Expr} {vs : List Value} (h : List.Forall₂ Writes es vs) :
    Writes (.array es false) (.list vs) := by
  refine ⟨firstMisfit?_of_writes h, fun indent => ?_⟩
  rw [listed, listedAll_eq_map]
  have hparts : List.Forall₂ Script.Spells ((es.map (print indent)).map String.toList)
      (vs.map listed) := by
    rw [List.map_map, List.forall₂_map_left_iff, List.forall₂_map_right_iff]
    exact h.imp fun _ _ he => he.2 indent
  have hlist := Script.Spells.list hparts
  rw [← Script.toList_intercalate_comma] at hlist
  cases es with
  | nil =>
    show Script.Spells "[]".toList _
    simpa [Script.joined] using hlist
  | cons e rest =>
    show Script.Spells (onOneLine "[" "]" (printAll indent (e :: rest))).toList _
    rw [printAll_eq_map, onOneLine, String.toList_append, String.toList_append]
    exact hlist

theorem propertyMisfit?_of_writes {ps : List (String × Expr)} {entries : List (Value × Value)}
    (h : List.Forall₂ (fun p entry => p.1 = entry.1.plain ∧ Writes p.2 entry.2) ps entries) :
    propertyMisfit? ps = firstLong? (intsOfEntries entries) := by
  induction h with
  | nil => rfl
  | cons hp _ ih => rw [propertyMisfit?, hp.2.1, ih, intsOfEntries, firstLong?_append]

/-- The literal for a table of values with different texts for keys. -/
theorem Writes.object {ps : List (String × Expr)} {entries : List (Value × Value)}
    (hkeys : ∀ e ∈ entries, e.1.isKey = true) (hdistinct : (entries.map Prod.fst).Nodup)
    (h : List.Forall₂ (fun p entry => p.1 = entry.1.plain ∧ Writes p.2 entry.2) ps entries) :
    Writes (.object ps false) (.table entries) := by
  refine ⟨propertyMisfit?_of_writes h, fun indent => ?_⟩
  rw [listed, listedEntries_eq_map]
  have hmembers : List.Forall₂ Script.SpellsMember
      ((printProperties indent ps).map String.toList)
      (entries.map fun e => (e.1, e.2.listed)) := by
    rw [printProperties_eq_map, List.map_map, List.forall₂_map_left_iff,
      List.forall₂_map_right_iff]
    refine Related.imp_mem h fun p _ entry hentry hp => ?_
    obtain ⟨key, hkey, hlast⟩ := exists_of_isKey (hkeys entry hentry)
    have hplain : p.1 = key := by rw [hp.1, hkey]; rfl
    refine ⟨key, _, _, ?_, Script.SpellsKey.propertyName hlast, hkey, hp.2.2 indent⟩
    rw [Function.comp_apply, String.toList_append, String.toList_append, hplain, List.append_assoc]
    rfl
  cases h with
  | nil =>
    show Script.Spells "\x7b\x7d".toList _
    exact Script.Spells.emptyTable
  | @cons p entry rest entries _ _ =>
    have hself : tableOf ((entry :: entries).map fun e => (e.1, e.2.listed)) =
        (entry :: entries).map fun e => (e.1, e.2.listed) :=
      tableOf_eq_self (List.forall_mem_map.mpr hkeys) (by rwa [List.map_map])
    rw [printProperties_eq_map, List.map_cons, List.map_cons, List.map_cons,
      List.forall₂_cons] at hmembers
    have htable := Script.Spells.table hmembers.1 hmembers.2
    rw [List.map_cons] at hself ⊢
    rw [hself] at htable
    show Script.Spells
      (onOneLine "\x7b " " \x7d" (printProperties indent (p :: rest))).toList _
    rw [printProperties_eq_map, onOneLine, String.toList_append, String.toList_append,
      Script.toList_intercalate_comma]
    exact htable

/-- A plain value has a literal that spells the value. -/
theorem IsPlain.writes {v : Value} (h : v.IsPlain) : ∃ e, ofValue v = .ok e ∧ Writes e v := by
  induction h with
  | null => exact ⟨_, rfl, rfl, fun _ => Script.Spells.null⟩
  | bool b => exact ⟨_, rfl, rfl, fun _ => Script.Spells.bool b⟩
  | int n => exact ⟨_, rfl, .int n⟩
  | text s => exact ⟨_, rfl, rfl, fun _ => Script.Spells.text s⟩
  | list _ ih =>
    obtain ⟨es, hes, hvs⟩ := writes_values ih
    refine ⟨.array es false, ?_, .array hvs⟩
    rw [ofValue, hes]
    rfl
  | tuple _ ih =>
    obtain ⟨es, hes, hvs⟩ := writes_values ih
    -- a tuple has the integers and the spelling of the list of its parts
    refine ⟨.array es false, ?_, Writes.array hvs⟩
    rw [ofValue, hes]
    rfl
  | table hkeys hdistinct _ ih =>
    obtain ⟨ps, hps, hvs⟩ := writes_entries hkeys ih
    refine ⟨.object ps false, ?_, .object hkeys hdistinct hvs⟩
    rw [ofValue, hps]
    rfl

theorem Writes.written {e : Expr} {v : Value} (h : Writes e v) (indent : String)
    (hshort : ∀ n ∈ v.ints, isShortInt n = true) : e.written indent = .ok (e.print indent) := by
  rw [Expr.written, h.1, firstLong?_eq_none hshort]

theorem Writes.not_written {e : Expr} {v : Value} (h : Writes e v) (indent : String)
    (hlong : ∃ n ∈ v.ints, isShortInt n = false) : e.written indent = .error .tooManyDigits := by
  obtain ⟨n, hn⟩ := exists_firstLong? hlong
  rw [Expr.written, h.1, hn]
  rfl

/-- A plain value has a literal.  If no integer in the value has more than 4300 digits, the literal is
written, at any indentation, in printable characters of ASCII, and the reader takes the whole text
for the value, with lists for tuples.  Otherwise the literal is not written. -/
theorem IsPlain.written_reads_back {v : Value} (h : v.IsPlain) (indent : String) :
    ∃ e, ofValue v = .ok e ∧
      ((∀ n ∈ v.ints, n.natAbs < 10 ^ 4300) → ∃ text, e.written indent = .ok text ∧
        (∀ c ∈ text.toList, Text.isVisible c = true) ∧ Script.value? text = some v.listed) ∧
      ((∃ n ∈ v.ints, 10 ^ 4300 ≤ n.natAbs) → e.written indent = .error .tooManyDigits) := by
  obtain ⟨e, he, hwrites⟩ := h.writes
  have hspells := hwrites.2 indent
  refine ⟨e, he, fun hshort => ⟨e.print indent, ?_, hspells.visible, ?_⟩, ?_⟩
  · exact hwrites.written indent fun n hn => isShortInt_iff.mpr (hshort n hn)
  · have hread : Script.readValue ((e.print indent).toList.length + 1)
        ((e.print indent).toList ++ []) = some (v.listed, []) :=
      hspells.read (Nat.le_succ _) nofun
    rw [List.append_nil] at hread
    rw [Script.value?, hread]
    rfl
  · rintro ⟨n, hn, hlong⟩
    exact hwrites.not_written indent ⟨n, hn, isShortInt_eq_false_iff.mpr hlong⟩

/-- A value with every form of literal in it, and with texts that look like marks. -/
def sampleTree : Value :=
  .table [(.text "$ref_1", .tuple [.scalar .null, .scalar (.bool true), .scalar (.int (-120))]),
    (.text "a\n\\ \", \x7b", .list [.table [], .text "\u2028😀\"]/*"])]

theorem isPlain_sampleTree : sampleTree.IsPlain := by
  have htuple : ∀ v ∈ [.scalar .null, .scalar (.bool true), .scalar (.int (-120))], IsPlain v := by
    simp only [List.forall_mem_cons]
    exact ⟨.null, .bool true, .int (-120), nofun⟩
  have hlist : ∀ v ∈ [.table [], .text "\u2028😀\"]/*"], IsPlain v := by
    simp only [List.forall_mem_cons]
    exact ⟨.table nofun .nil nofun, .text _, nofun⟩
  refine .table (by decide +kernel) (by decide +kernel) ?_
  simp only [List.forall_mem_cons]
  exact ⟨.tuple htuple, .list hlist, nofun⟩

theorem written_reads_back_of_sampleTree :
    sampleTree.IsPlain ∧ (∀ n ∈ sampleTree.ints, n.natAbs < 10 ^ 4300) ∧
      ∃ e text, ofValue sampleTree = .ok e ∧ e.written "\t" = .ok text ∧
        (∀ c ∈ text.toList, Text.isVisible c = true) ∧
        Script.value? text = some sampleTree.listed := by
  have hshort : ∀ n ∈ sampleTree.ints, n.natAbs < 10 ^ 4300 := by
    have hints : sampleTree.ints = [-120] := by decide +kernel
    rw [hints, List.forall_mem_singleton]
    exact isShortInt_iff.mp (by decide +kernel)
  obtain ⟨e, he, hwritten, -⟩ := isPlain_sampleTree.written_reads_back "\t"
  obtain ⟨text, htext⟩ := hwritten hshort
  exact ⟨isPlain_sampleTree, hshort, e, text, he, htext⟩

/-- The least integer of 4301 digits is a plain value, but its literal is not written. -/
theorem not_written_reads_back :
    (∃ e, ofValue (.scalar (.int (10 ^ 4300))) = .ok e ∧ e.written "" = .error .tooManyDigits) ∧
      ¬ ∀ v : Value, v.IsPlain → ∀ indent, ∃ e text, ofValue v = .ok e ∧
        e.written indent = .ok text ∧ (∀ c ∈ text.toList, Text.isVisible c = true) ∧
        Script.value? text = some v.listed := by
  have hfails := (Writes.int (10 ^ 4300)).not_written ""
    ⟨_, List.mem_singleton_self _, isShortInt_pow_eq_false⟩
  refine ⟨⟨_, rfl, hfails⟩, fun hall => ?_⟩
  obtain ⟨e, text, he, hwritten, -⟩ := hall (.scalar (.int (10 ^ 4300))) (.int _) ""
  cases he
  cases hfails.symm.trans hwritten

end Value

end SchemaScript
