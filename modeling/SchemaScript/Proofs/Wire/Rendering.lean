import SchemaScript.Proofs.Expr.Reading
import SchemaScript.Proofs.Table
import SchemaScript.Wire.Rendering

/-!
# What records render to

A message renders to data, whatever its form is (`Wire.Shapes.render_isData`): no bytes, sets or
objects stand in the value, so it always has a literal.

Forms lie in each other, so the statement is about a show of inner messages (`Show.GivesData`).  Each
form gives data if the messages in it do, and the depth of forms is the induction.
-/

namespace SchemaScript.Wire

open Outcome

/-! ## Tables -/

/-- The pair can stand in a table of data. -/
def IsDataEntry (p : Value × Value) : Prop :=
  p.1.isShort = true ∧ p.2.IsData

theorem IsDataEntry.text (key : String) {v : Value} (h : v.IsData) : IsDataEntry (.text key, v) :=
  ⟨rfl, h⟩

theorem isData_table {entries : List (Value × Value)} (h : ∀ e ∈ entries, IsDataEntry e) :
    (Value.table entries).IsData :=
  .table (fun e he => (h e he).1) fun e he => (h e he).2

theorem isData_tableOf {pairs : List (Value × Value)} (h : ∀ p ∈ pairs, IsDataEntry p) :
    (Value.table (Value.tableOf pairs)).IsData := by
  have step : ∀ (entries : List (Value × Value)), (∀ e ∈ entries, IsDataEntry e) →
      ∀ e ∈ pairs.foldl (fun es p => Table.putWhere (·.same p.1) p.1 p.2 es) entries,
        IsDataEntry e := by
    induction pairs with
    | nil => exact fun entries hentries => hentries
    | cons p rest ih =>
      intro entries hentries
      refine ih (fun q hq => h q (List.mem_cons_of_mem _ hq)) _ fun e he => ?_
      obtain ⟨hkey, hvalue⟩ := h p List.mem_cons_self
      rcases Table.mem_putWhere he with ⟨hnew, hfirst | hfirst⟩ | he
      · exact ⟨hfirst ▸ hkey, hnew ▸ hvalue⟩
      · obtain ⟨e', he', hsame⟩ := List.mem_map.mp hfirst
        exact ⟨hsame ▸ (hentries e' he').1, hnew ▸ hvalue⟩
      · exact hentries e he
  exact isData_table (step [] nofun)

theorem isData_doubleValue (d : Double) : (doubleValue d).IsData := by
  unfold doubleValue
  split
  · exact .text _
  · split
    · exact .text _
    · exact .double d

theorem isData_singleValue (s : Single) : (singleValue s).IsData := by
  unfold singleValue
  split
  · exact .text _
  · split
    · exact .text _
    · exact .double _

theorem isData_enumValue {shape : EnumShape} {n : Int} {v : Value}
    (h : enumValue shape n = .ok v) : v.IsData := by
  unfold enumValue at h
  split at h
  · cases h; exact .null
  · split at h
    · cases h; exact .text _
    · split at h
      · cases h
      · cases h; exact .int n

theorem isData_plainValue {shapes : Shapes} {f : FieldShape} {d : Datum} {v : Value}
    (h : plainValue shapes f d = .ok v) : v.IsData := by
  cases d with
  | int n =>
    cases h
    split
    · exact .text _
    · exact .int n
  | bool b => cases h; exact .bool b
  | double d => cases h; exact isData_doubleValue d
  | single s => cases h; exact isData_singleValue s
  | text s => cases h; exact .text s
  | bytes content => cases h; exact .text _
  | enum n => exact isData_enumValue h
  | message _ _ => cases h; exact isData_table nofun

theorem isShort_of_tableKey {d : Datum} {key : Value} (h : tableKey d = .ok key) :
    key.isShort = true := by
  unfold tableKey at h
  split at h
  · cases h; rfl
  · cases h; rfl
  · split at h
    · next hshort => cases h; exact hshort
    · cases h
  · cases h

/-! ## Shows of inner messages -/

/-- A show gives nothing but data. -/
def Show.GivesData (inner : Show) : Prop :=
  ∀ form shape fields v, inner form shape fields = .ok v → v.IsData

section

variable {inner : Show} {shapes : Shapes} {f : FieldShape} {v : Value}

theorem Show.GivesData.datum (hi : inner.GivesData) {d : Datum}
    (h : inner.datum shapes f d = .ok v) : v.IsData := by
  unfold Show.datum at h
  split at h
  · exact hi _ _ _ v h
  · exact isData_plainValue h

theorem Show.GivesData.dynamic (hi : inner.GivesData) {d : Datum}
    (h : inner.dynamic shapes f d = .ok v) : v.IsData := by
  cases d with
  | message _ _ => exact hi _ _ _ v h
  | _ => cases h

theorem isData_list_of_mapM {α : Type} {items : List α} {show? : α → Except Error Value}
    (hshow : ∀ a u, show? a = .ok u → u.IsData) (h : (items.mapM show?).map .list = .ok v) :
    v.IsData := by
  obtain ⟨vs, hvs, rfl⟩ := map_eq_ok_iff.mp h
  refine .list fun u hu => ?_
  obtain ⟨a, _, ha⟩ := exists_of_mem_mapM hvs hu
  exact hshow a u ha

theorem Show.GivesData.entryValue (hi : inner.GivesData) {d : Datum}
    (h : entryValue inner shapes f d = .ok v) : v.IsData := by
  unfold Wire.entryValue at h
  split at h
  · exact hi.datum h
  · cases h; exact .null

theorem Show.GivesData.mapValue (hi : inner.GivesData) {entries : List (Datum × Datum)}
    (h : mapValue inner shapes f entries = .ok v) : v.IsData := by
  unfold Wire.mapValue at h
  obtain ⟨pairs, hpairs, h⟩ := bind_eq_ok_iff.mp h
  cases h
  refine isData_tableOf fun p hp => ?_
  obtain ⟨e, _, he⟩ := exists_of_mem_mapM hpairs hp
  simp only [bind_eq_ok_iff, pure_eq_ok_iff] at he
  obtain ⟨_, _, u, hu, rfl⟩ := he
  exact .text _ (hi.entryValue hu)

theorem Show.GivesData.fieldValue (hi : inner.GivesData) {values : List Datum}
    (h : fieldValue inner shapes f values = .ok v) : v.IsData := by
  unfold Wire.fieldValue at h
  split at h
  · exact hi.mapValue h
  · split at h
    · exact isData_list_of_mapM (fun _ _ => hi.datum) h
    · exact hi.datum h

theorem Show.GivesData.fieldEntries (hi : inner.GivesData) {shape : MessageShape}
    {fields : Record} {entries : List (Value × Value)}
    (h : fieldEntries inner shapes shape fields = .ok entries) :
    ∀ e ∈ entries, IsDataEntry e := by
  intro e he
  obtain ⟨part, _, hpart⟩ := exists_of_mem_mapM h he
  split at hpart
  · cases hpart
  · obtain ⟨u, hu, rfl⟩ := map_eq_ok_iff.mp hpart
    exact .text _ (hi.fieldValue hu)

/-! ## Forms -/

theorem isData_rowValue {ds : List Datum} (h : rowValue shapes f ds = .ok v) : v.IsData := by
  unfold rowValue at h
  split at h
  · cases h
  · cases h
  · split at h
    · cases h; exact .null
    · cases h
  · cases h; exact .text _
  · cases h
  · cases h; exact .bool _
  · cases h
  · cases h
  · split at h
    · cases h; exact .text _
    · cases h

theorem Show.GivesData.wrappedValue (hi : inner.GivesData) {held : Held}
    (h : wrappedValue inner shapes held = .ok v) : v.IsData := by
  cases held with
  | nothing => cases h
  | one f d => exact hi.datum h
  | row f ds => exact isData_rowValue h
  | map f entries => cases h

theorem isData_textOr {s : Option String} (h : textOr s = .ok v) : v.IsData := by
  cases s with
  | none => cases h
  | some s => cases h; exact .text s

theorem isData_timeValue {text? : Int → Int → Option String} {need : Need} {seconds nanos : Held}
    (h : timeValue shapes text? need seconds nanos = .ok v) : v.IsData := by
  unfold timeValue at h
  split at h
  · cases h
  · cases h
  · simp only [bind_eq_ok_iff] at h
    obtain ⟨_, _, _, _, _, _, h⟩ := h
    exact isData_textOr h

theorem isData_maskValue {held : Held} (h : maskValue shapes held = .ok v) : v.IsData := by
  have joined {paths : Except Error (List String)}
      (h : (do let ps ← paths; return Value.text (",".intercalate ps)) = Except.ok v) :
      v.IsData := by
    obtain ⟨ps, _, hps⟩ := bind_eq_ok_iff.mp h
    cases hps
    exact .text _
  unfold maskValue at h
  split at h
  · exact joined h
  · exact joined h
  · exact joined h
  · exact joined h
  · exact joined h
  · exact joined h
  · exact joined h

theorem Show.GivesData.listValue (hi : inner.GivesData) {held : Held}
    (h : listValue inner shapes held = .ok v) : v.IsData := by
  have emptyOr {c : Prop} [Decidable c]
      (h : (if c then .ok (.list []) else .error .missingPart : Except Error Value) = .ok v) :
      v.IsData := by
    split at h
    · cases h; exact .list nofun
    · cases h
  unfold Wire.listValue at h
  split at h
  · cases h
  · exact isData_list_of_mapM (fun _ _ => hi.dynamic) h
  · exact emptyOr h
  · exact emptyOr h
  · exact emptyOr h
  · cases h

theorem Show.GivesData.structValue (hi : inner.GivesData) {held : Held}
    (h : structValue inner shapes held = .ok v) : v.IsData := by
  have emptyOr {c : Prop} [Decidable c]
      (h : (if c then .ok (.table []) else .error .missingPart : Except Error Value) = .ok v) :
      v.IsData := by
    split at h
    · cases h; exact isData_table nofun
    · cases h
  unfold Wire.structValue at h
  split at h
  · cases h
  · obtain ⟨pairs, hpairs, h⟩ := bind_eq_ok_iff.mp h
    cases h
    refine isData_tableOf fun p hp => ?_
    obtain ⟨e, _, he⟩ := exists_of_mem_mapM hpairs hp
    obtain ⟨key, hkey, he⟩ := bind_eq_ok_iff.mp he
    split at he
    · obtain ⟨u, hu, he⟩ := bind_eq_ok_iff.mp he
      cases he
      exact ⟨isShort_of_tableKey hkey, hi.dynamic hu⟩
    · cases he
  · exact emptyOr h
  · exact emptyOr h
  · exact emptyOr h
  · cases h

theorem Show.GivesData.dynamicValue (hi : inner.GivesData) {shape : MessageShape}
    {fields : Record} (h : dynamicValue inner shapes shape fields = .ok v) : v.IsData := by
  unfold Wire.dynamicValue at h
  split at h
  · cases h
  · cases h; exact .null
  · split at h
    · cases h; exact .null
    · split at h
      · split at h
        · exact hi _ _ _ v h
        · cases h
      · split at h
        · exact hi.datum (bind_eq_ok_iff.mp h).choose_spec.2
        · exact hi.datum h

theorem Show.GivesData.packedValue (hi : inner.GivesData) {shape : MessageShape}
    {fields : Record} (h : packedValue inner shapes shape fields = .ok v) : v.IsData := by
  unfold Wire.packedValue at h
  split at h
  · cases h; exact isData_table nofun
  · obtain ⟨url, _, h⟩ := bind_eq_ok_iff.mp h
    split at h
    · cases h
    · obtain ⟨content, _, h⟩ := bind_eq_ok_iff.mp h
      split at h
      · cases h
      · split at h
        · obtain ⟨entries, hentries, h⟩ := bind_eq_ok_iff.mp h
          cases h
          refine isData_tableOf fun p hp => ?_
          rcases List.mem_cons.mp hp with rfl | hp
          · exact .text _ (.text url)
          · exact hi.fieldEntries hentries p hp
        · obtain ⟨u, hu, h⟩ := bind_eq_ok_iff.mp h
          cases h
          refine isData_table fun p hp => ?_
          rw [List.mem_cons, List.mem_singleton] at hp
          rcases hp with rfl | rfl
          · exact .text _ (.text url)
          · exact .text _ (hi _ _ _ u hu)

end

/-! ## Messages -/

theorem Show.GivesData.formValue {inner : Show} (hi : inner.GivesData) (shapes : Shapes) :
    Show.GivesData (formValue inner shapes) := by
  intro form shape fields v h
  have plain (h : ((Wire.fieldEntries inner shapes shape fields).map fun es =>
      Value.table (Value.tableOf es)) = .ok v) : v.IsData := by
    obtain ⟨es, hes, rfl⟩ := map_eq_ok_iff.mp h
    exact isData_tableOf (hi.fieldEntries hes)
  cases form with
  | plain => exact plain h
  | entry => exact plain h
  | wrapper => exact hi.wrappedValue h
  | any => exact hi.packedValue h
  | duration => exact isData_timeValue h
  | timestamp => exact isData_timeValue h
  | fieldMask => exact isData_maskValue h
  | list => exact hi.listValue h
  | struct => exact hi.structValue h
  | dynamic => exact hi.dynamicValue h

end SchemaScript.Wire
