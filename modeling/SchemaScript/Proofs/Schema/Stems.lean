import SchemaScript.Module.Writing
import SchemaScript.Proofs.Schema.Named

/-!
# Stems of enums

The stem that the values of an enum share, and the members that are left of the values without it.

`valueStem_eq` says how the stem of an enum is made of its name: an underscore before each capital,
one underscore dropped at the start, all in capitals, and an underscore at the end.  That the rule
writes the capitals small on the way does not show.

An enum has that stem or none (`Enum.sharedStem_eq`).  The stem and the name of a member are the name
of the value together (`Enum.stem_append_memberName`), so no two members are the same unless two
values are.  `Enum.MembersFit` collects what an enum has of its descriptor.
-/

namespace SchemaScript

open Outcome

/-! ## The stem of a name -/

/-- A name with an underscore before each capital. -/
def separated (name : List Char) : List Char :=
  name.flatMap fun c => if isCapital c then ['_', c] else [c]

theorem upper_toLower {c : Char} (hc : isCapital c = true) : Text.upper c.toLower = Text.upper c := by
  have hcapitals : ∀ n ∈ List.range' 65 26,
      Text.upper (Char.ofNat n).toLower = Text.upper (Char.ofNat n) := by decide +kernel
  have hrange : c.toNat ∈ List.range' 65 26 := by
    have hbounds : 'A'.toNat ≤ c.toNat ∧ c.toNat ≤ 'Z'.toNat := of_decide_eq_true hc
    rw [show 'A'.toNat = 65 from rfl, show 'Z'.toNat = 90 from rfl] at hbounds
    rw [List.mem_range'_1]
    omega
  have hupper := hcapitals c.toNat hrange
  rwa [Char.ofNat_toNat] at hupper

theorem upper_underscored (name : List Char) :
    (underscored name).flatMap Text.upper = (separated name).flatMap Text.upper := by
  rw [underscored, separated, List.flatMap_assoc, List.flatMap_assoc]
  refine List.flatMap_congr fun c _ => ?_
  cases hc : isCapital c with
  | true => simp [upper_toLower hc]
  | false => simp

theorem upper_dropUnderscore (name : List Char) :
    (dropUnderscore (underscored name)).flatMap Text.upper =
      (dropUnderscore (separated name)).flatMap Text.upper := by
  cases name with
  | nil => rfl
  | cons c rest =>
    have hrest := upper_underscored rest
    rw [underscored, separated, List.flatMap_cons, List.flatMap_cons, ← underscored, ← separated]
    cases hc : isCapital c with
    | true => simp [dropUnderscore, upper_toLower hc, hrest]
    | false =>
      by_cases hu : c = '_'
      · subst hu
        simp [dropUnderscore, hrest]
      · simp [dropUnderscore, hu, hrest]

theorem valueStem_eq (enumName : String) :
    valueStem enumName =
      Text.uppercase (String.ofList (dropUnderscore (separated enumName.toList))) ++ "_" := by
  rw [valueStem, Text.uppercase, Text.uppercase, String.toList_ofList, String.toList_ofList,
    upper_dropUnderscore]

example : valueStem "MyHTTP2Enum" = "MY_H_T_T_P2_ENUM_" := by decide +kernel

/-- Names share the stem if there are some and each is the stem, a capital and at least one more
character. -/
theorem sharedPrefix?_eq_some {enumName stem : String} {names : List String}
    (h : sharedPrefix? enumName names = some stem) :
    stem = valueStem enumName ∧ names ≠ [] ∧ ∀ n ∈ names, ∃ c rest,
      n.toList = stem.toList ++ c :: rest ∧ isCapital c = true ∧ rest ≠ [] := by
  simp only [sharedPrefix?] at h
  split at h
  · next hall =>
    have hstem := Option.some.inj h
    rw [hstem] at hall
    refine ⟨hstem.symm, hall.1, fun n hn => ?_⟩
    have hn := List.all_eq_true.mp hall.2 n hn
    cases hafter : afterStem? stem n with
    | none =>
      rw [hafter] at hn
      cases hn
    | some after =>
      rw [hafter] at hn
      unfold afterStem? at hafter
      split at hafter
      · next hprefix =>
        obtain ⟨t, ht⟩ := hprefix
        rw [← ht, ← String.length_toList, List.drop_left] at hafter
        cases hafter
        change isStrippedName after = true at hn
        unfold isStrippedName at hn
        split at hn
        · next c d rest =>
          exact ⟨c, d :: rest, ht.symm, (Bool.and_eq_true_iff.mp hn).1, List.cons_ne_nil _ _⟩
        · cases hn
      · cases hafter
  · cases h

/-! ## Values and members -/

/-- The members that an enum is written with: their names and numbers. -/
def Enum.members (e : Enum) : List (String × Int) :=
  e.values.map fun v => (e.memberName v, v.number)

theorem EnumDescriptor.of_stem? {d : EnumDescriptor} {h : FileHeader} {path : List Nat}
    {vs : List EnumValue} {stem : Option String} (hstem : d.stem? h path vs = .ok stem) :
    stem = sharedPrefix? d.name (d.values.map EnumValueDescriptor.name) := by
  unfold stem? at hstem
  split at hstem
  · cases hstem
  · obtain ⟨_, _, hpure⟩ := bind_eq_ok_iff.mp hstem
    exact (pure_eq_ok_iff.mp hpure).symm

namespace Enum

variable {s : Scope} {member : Member} {i : Nat} {d : EnumDescriptor} {e : Enum}

theorem values_of_declare (h : Enum.declare s member i d = .ok e) :
    List.Forall₂ (fun w v => v.name = w.name ∧ v.number = w.number) d.values e.values := by
  refine forall₂_eachFrom (fun j w _ v hv => ?_) (Enum.declare_values h)
  simp only [EnumValue.declare, bind_eq_ok_iff, pure_eq_ok_iff] at hv
  obtain ⟨_, _, rfl⟩ := hv
  exact ⟨rfl, rfl⟩

theorem sharedStem_eq (h : Enum.declare s member i d = .ok e) :
    e.sharedStem = sharedPrefix? d.name (e.values.map EnumValue.name) := by
  obtain ⟨_, _, _, path, vs, hstem⟩ := Enum.of_declare h
  have hnames : e.values.map EnumValue.name = d.values.map EnumValueDescriptor.name := by
    have hvalues := (values_of_declare h).imp fun w v hwv => hwv.1.symm
    rw [← List.forall₂_eq_eq_eq, List.forall₂_map_left_iff, List.forall₂_map_right_iff]
    exact hvalues.flip.imp fun v w h => h.symm
  rw [EnumDescriptor.of_stem? hstem, hnames]

/-- What the names of the values are if they share a stem. -/
theorem names_of_sharedStem (h : Enum.declare s member i d = .ok e) {stem : String}
    (hstem : e.sharedStem = some stem) :
    stem = valueStem d.name ∧ e.values ≠ [] ∧ ∀ v ∈ e.values, ∃ c rest,
      v.name.toList = stem.toList ++ c :: rest ∧ isCapital c = true ∧ rest ≠ [] := by
  rw [sharedStem_eq h] at hstem
  obtain ⟨heq, hne, hnames⟩ := sharedPrefix?_eq_some hstem
  refine ⟨heq, fun hvalues => hne (by rw [hvalues]; rfl), fun v hv => ?_⟩
  exact hnames v.name (List.mem_map.mpr ⟨v, hv, rfl⟩)

/-- The name of a member is what the name of its value has after the stem. -/
theorem toList_memberName (h : Enum.declare s member i d = .ok e) {stem : String}
    (hstem : e.sharedStem = some stem) {v : EnumValue} (hv : v ∈ e.values) :
    ∃ c rest, (e.memberName v).toList = c :: rest ∧ isCapital c = true ∧ rest ≠ [] ∧
      v.name.toList = stem.toList ++ (e.memberName v).toList := by
  obtain ⟨c, rest, hname, hc, hrest⟩ := (names_of_sharedStem h hstem).2.2 v hv
  have hmember : (e.memberName v).toList = c :: rest := by
    rw [memberName, hstem, String.toList_ofList, hname, ← String.length_toList, List.drop_left]
  exact ⟨c, rest, hmember, hc, hrest, by rw [hmember, hname]⟩

theorem stem_append_memberName (h : Enum.declare s member i d = .ok e) {v : EnumValue}
    (hv : v ∈ e.values) : e.sharedStem.getD "" ++ e.memberName v = v.name := by
  cases hstem : e.sharedStem with
  | none => rw [memberName, hstem, Option.getD_none, String.empty_append]
  | some stem =>
    obtain ⟨_, _, _, _, _, hname⟩ := toList_memberName h hstem hv
    rw [Option.getD_some, ← String.toList_inj, String.toList_append, hname]

end Enum

/-- What an enum has of its descriptor.  Each value is a member whose name follows the stem in the
name of the value, so the members are distinct if the values are.  The stem, if there is one, is
made of the name of the enum, and it is missing exactly if the members have the names of the
values. -/
structure Enum.MembersFit (d : EnumDescriptor) (e : Enum) : Prop where
  members : List.Forall₂ (fun w m => e.sharedStem.getD "" ++ m.1 = w.name ∧ m.2 = w.number)
    d.values e.members
  distinct : (e.members.map Prod.fst).Nodup ↔ (d.values.map EnumValueDescriptor.name).Nodup
  stem : ∀ stem ∈ e.sharedStem,
    stem = Text.uppercase (String.ofList (dropUnderscore (separated d.name.toList))) ++ "_" ∧
      ∀ m ∈ e.members, ∃ c rest, m.1.toList = c :: rest ∧ isCapital c = true ∧ rest ≠ []
  stripped : e.sharedStem.isSome ↔
    e.members.map Prod.fst ≠ d.values.map EnumValueDescriptor.name

namespace Enum

variable {s : Scope} {member : Member} {i : Nat} {d : EnumDescriptor} {e : Enum}

theorem members_of_declare (h : Enum.declare s member i d = .ok e) :
    List.Forall₂ (fun w m => e.sharedStem.getD "" ++ m.1 = w.name ∧ m.2 = w.number)
      d.values e.members := by
  rw [members, List.forall₂_map_right_iff]
  refine Related.imp_mem (values_of_declare h) fun w _ v hv hwv => ?_
  exact ⟨(stem_append_memberName h hv).trans hwv.1, hwv.2⟩

theorem membersFit (h : Enum.declare s member i d = .ok e) : e.MembersFit d := by
  have hmembers := members_of_declare h
  have hnames : (e.members.map Prod.fst).map (e.sharedStem.getD "" ++ ·) =
      d.values.map EnumValueDescriptor.name := by
    rw [List.map_map, ← List.forall₂_eq_eq_eq, List.forall₂_map_left_iff,
      List.forall₂_map_right_iff]
    exact hmembers.flip.imp fun m w hwm => hwm.1
  have hinjective : Function.Injective (e.sharedStem.getD "" ++ ·) := fun a b hab => by
    have hchars := congrArg String.toList hab
    simp only [String.toList_append] at hchars
    exact String.toList_inj.mp (List.append_cancel_left hchars)
  refine ⟨hmembers, ?_, fun stem hstem => ⟨?_, fun m hm => ?_⟩, ?_⟩
  · rw [← hnames, List.nodup_map_iff hinjective]
  · rw [(names_of_sharedStem h hstem).1, valueStem_eq]
  · obtain ⟨v, hv, rfl⟩ := List.mem_map.mp hm
    obtain ⟨c, rest, hname, hc, hrest, _⟩ := toList_memberName h hstem hv
    exact ⟨c, rest, hname, hc, hrest⟩
  · rw [← hnames]
    cases hstem : e.sharedStem with
    | none => simp
    | some stem =>
      obtain ⟨hname, hvalues, _⟩ := names_of_sharedStem h hstem
      refine iff_of_true rfl fun hsame => ?_
      cases hcases : e.values with
      | nil => exact hvalues hcases
      | cons v rest =>
        rw [members, hcases, Option.getD_some, List.map_cons, List.map_cons, List.map_cons] at hsame
        have hlength := congrArg String.length (List.cons.inj hsame).1
        rw [String.length_append, hname, valueStem, String.length_append] at hlength
        simp at hlength

end Enum

end SchemaScript
