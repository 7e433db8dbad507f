import SchemaScript.Proofs.Outcome
import SchemaScript.Proofs.Related
import SchemaScript.Proofs.Schema.OptionBytes
import SchemaScript.Proofs.TextTable

/-!
# Custom options by their names

Which custom options a field has, in terms of the extensions that its options hold.

The options are rendered as a table, and the names in brackets are picked from it
(`CustomOptions.exists_of_read`), so the custom options depend on nothing but what is held under the
numbers of fields with such names (`CustomOptions.read_eq_of_lookup`).

An extension has its full name in brackets for a name in JSON, and is picked if it is held.  Nothing
keeps the name of a standard option from standing in brackets too, so that it can be picked as well.
Where no standard option has such a name, the custom options are those of the extensions that are
held (`CustomOptions.read_tellExtensions`).
-/

namespace SchemaScript

open Wire Outcome

/-! ## Names in brackets -/

namespace CustomOptions

theorem bracketed?_eq_some_iff {s name : String} :
    bracketed? s = some name ↔ s = "[" ++ name ++ "]" := by
  have htext : ("[" ++ name ++ "]").toList = '[' :: (name.toList ++ [']']) := by
    rw [String.toList_append, String.toList_append]
    rfl
  constructor
  · intro h
    unfold bracketed? at h
    split at h
    · next rest hs =>
      split at h
      · next hlast =>
        cases h
        obtain ⟨front, rfl⟩ := List.getLast?_eq_some_iff.mp hlast
        rw [← String.toList_inj, htext, hs, String.toList_ofList, List.dropLast_concat]
      · cases h
    · cases h
  · rintro rfl
    rw [bracketed?, htext]
    show (if (name.toList ++ [']']).getLast? = some ']' then
      some (String.ofList (name.toList ++ [']']).dropLast) else none) = some name
    rw [List.getLast?_concat, if_pos rfl, List.dropLast_concat, String.ofList_toList]

/-! ## Reading -/

variable {c : CustomOptions} {o o' : FieldOptions} {d d' : Content} {v : Value}

/-- The pairs as custom options, if there are any. -/
def ofPairs (pairs : List (String × Value)) : Option (List (Value × Value)) :=
  if pairs.isEmpty then none else some (Value.textEntries (Table.ofList pairs).entries)

/-- How messages in the options are shown. -/
def inner (c : CustomOptions) : Show :=
  renderWithin c.shapes (maxForms - 1)

/-- A field with values is shown under a name in JSON as a value. -/
def Shows (c : CustomOptions) (e : FieldShape × List Datum) (p : String × Value) : Prop :=
  e.1.jsonName = some p.1 ∧ fieldValue c.inner c.shapes e.1 e.2 = .ok p.2

theorem exists_of_fieldEntries {es : List (Value × Value)}
    (h : fieldEntries c.inner c.shapes c.options d.fields = .ok es) :
    ∃ pairs, List.Forall₂ c.Shows (shownFields c.options d.fields) pairs ∧
      es = Value.textEntries pairs := by
  have hrelated := mapM_eq_ok_iff.mp h
  clear h
  generalize shownFields c.options d.fields = shown at hrelated ⊢
  induction hrelated with
  | nil => exact ⟨[], .nil, rfl⟩
  | cons he _ ih =>
    obtain ⟨pairs, hpairs, rfl⟩ := ih
    split at he
    · cases he
    · next name hname =>
      obtain ⟨value, hvalue, rfl⟩ := map_eq_ok_iff.mp he
      exact ⟨(name, value) :: pairs, .cons ⟨hname, hvalue⟩ hpairs, rfl⟩

/-- Options that are rendered are the table of their shown fields. -/
theorem exists_of_render (hform : c.options.form = .plain)
    (h : c.shapes.render c.options d = .ok v) :
    ∃ pairs, List.Forall₂ c.Shows (shownFields c.options d.fields) pairs ∧
      v = .table (Value.tableOf (Value.textEntries pairs)) := by
  have hrender : c.shapes.render c.options d =
      (fieldEntries c.inner c.shapes c.options d.fields).map
        fun es => .table (Value.tableOf es) := by
    rw [Shapes.render, hform]
    rfl
  rw [hrender, map_eq_ok_iff] at h
  obtain ⟨es, hes, rfl⟩ := h
  obtain ⟨pairs, hpairs, rfl⟩ := exists_of_fieldEntries hes
  exact ⟨pairs, hpairs, rfl⟩

theorem mapM_ofEntry (pairs : List (String × Value)) :
    (Value.textEntries pairs).mapM ofEntry =
      .ok (pairs.map fun p => (bracketed? p.1).map fun name => (Value.text name, p.2)) := by
  induction pairs with
  | nil => rfl
  | cons p rest ih =>
    show ((Value.text p.1, p.2) :: Value.textEntries rest).mapM ofEntry = _
    rw [List.mapM_cons, ih]
    rfl

theorem filterMap_textEntries (pairs : List (String × Value)) :
    (pairs.map fun p => (bracketed? p.1).map fun name => (Value.text name, p.2)).filterMap id =
      Value.textEntries (pairs.filterMap (Table.renamed bracketed?)) := by
  rw [Value.textEntries, List.map_filterMap, List.filterMap_map]
  congr 1
  funext p
  rw [Table.renamed, Option.map_map]
  rfl

theorem ofPairs_eq (pairs : List (String × Value)) :
    (if (Value.textEntries (Table.ofList pairs).entries).isEmpty then none
      else some (Value.tableOf (Value.textEntries (Table.ofList pairs).entries))) =
      ofPairs pairs := by
  have hempty : (Value.textEntries (Table.ofList pairs).entries).isEmpty = pairs.isEmpty := by
    cases pairs with
    | nil => rfl
    | cons p rest =>
      have hmem : p.1 ∈ (Table.ofList (p :: rest)).keys :=
        Table.mem_keys_ofList_iff.mpr List.mem_cons_self
      rw [Value.textEntries, List.isEmpty_map]
      cases hentries : (Table.ofList (p :: rest)).entries with
      | nil =>
        rw [Table.keys, hentries] at hmem
        cases hmem
      | cons _ _ => rfl
  rw [hempty, Value.tableOf_textEntries,
    Table.entries_ofList (Table.keys_ofList_nodup pairs)]
  rfl

/-- The custom options are those of the shown fields with names in brackets. -/
theorem exists_of_read (hform : c.options.form = .plain) (hd : c.content? o = some d)
    (hv : c.shapes.render c.options d = .ok v) :
    ∃ pairs, List.Forall₂ c.Shows (shownFields c.options d.fields) pairs ∧
      c.read o = .ok (ofPairs (pairs.filterMap (Table.renamed bracketed?))) := by
  obtain ⟨pairs, hpairs, rfl⟩ := exists_of_render hform hv
  refine ⟨pairs, hpairs, ?_⟩
  have hnames : ∀ j k name, bracketed? j = some name → bracketed? k = some name → j = k := by
    intro j k name hj hk
    rw [bracketed?_eq_some_iff.mp hj, bracketed?_eq_some_iff.mp hk]
  rw [Value.tableOf_textEntries] at hv
  have hread : c.read o = .ok (
      let custom := ((Table.ofList pairs).entries.map fun p =>
        (bracketed? p.1).map fun name => (Value.text name, p.2)).filterMap id
      if custom.isEmpty then none else some (Value.tableOf custom)) := by
    rw [content?] at hd
    rw [read, hd]
    show (c.shapes.render c.options d >>= _) = _
    rw [hv]
    show ((Value.textEntries (Table.ofList pairs).entries).mapM ofEntry >>= _) = _
    rw [mapM_ofEntry]
    rfl
  rw [hread, filterMap_textEntries, Table.filterMap_entries_ofList hnames]
  exact congrArg _ (ofPairs_eq _)

/-! ## What is picked -/

/-- Whether a field has a name in brackets. -/
def isPicked (f : FieldShape) : Bool :=
  (f.jsonName.bind bracketed?).isSome

/-- A shown field with a name in brackets is picked as a value. -/
def Picks (c : CustomOptions) (e : FieldShape × List Datum) (p : String × Value) : Prop :=
  e.1.jsonName.bind bracketed? = some p.1 ∧
    fieldValue c.inner c.shapes e.1 e.2 = .ok p.2

theorem forall₂_picks {shown : List (FieldShape × List Datum)} {pairs : List (String × Value)}
    (h : List.Forall₂ c.Shows shown pairs) :
    List.Forall₂ c.Picks (shown.filter fun e => isPicked e.1)
      (pairs.filterMap (Table.renamed bracketed?)) := by
  induction h with
  | nil => exact .nil
  | @cons e p shown pairs he _ ih =>
    obtain ⟨hname, hvalue⟩ := he
    have hpicked : isPicked e.1 = (bracketed? p.1).isSome := by
      rw [isPicked, hname, Option.bind_some]
    rw [List.filter_cons, hpicked]
    cases hp : bracketed? p.1 with
    | none => rwa [List.filterMap_cons_none (Table.renamed_of_none hp p.2)]
    | some name =>
      rw [List.filterMap_cons_some (Table.renamed_of_some hp p.2)]
      exact .cons ⟨by rw [hname, Option.bind_some, hp], hvalue⟩ ih

theorem picks_unique (c : CustomOptions) : Relator.RightUnique c.Picks :=
  fun _ _ _ h h' =>
    Prod.ext (Option.some.inj (h.1.symm.trans h'.1)) (Except.ok.inj (h.2.symm.trans h'.2))

/-- The shown fields with names in brackets, by their numbers. -/
theorem filter_shownFields (shape : MessageShape) (r : Record) :
    (shownFields shape r).filter (fun e => isPicked e.1) =
      shownFields shape (r.filter fun e => (shape.field? e.1).any isPicked) := by
  rw [shownFields, shownFields, List.filter_filterMap, List.filterMap_filter]
  congr 1
  funext e
  cases shape.field? e.1 with
  | none => rfl
  | some f =>
    by_cases hpicked : isPicked f = true <;> by_cases hshown : isShown f e.2 = true <;>
      simp [Option.filter, hpicked, hshown]

/-- The custom options depend only on what is held under numbers of fields with names in
brackets. -/
theorem read_eq_of_lookup (hform : c.options.form = .plain) (hset : c.options.isSet = false)
    {v' : Value} (hd : c.content? o = some d) (hv : c.shapes.render c.options d = .ok v)
    (hd' : c.content? o' = some d') (hv' : c.shapes.render c.options d' = .ok v')
    (h : ∀ n f, c.options.field? n = some f → isPicked f = true →
      d.fields.lookup n = d'.fields.lookup n) : c.read o = c.read o' := by
  obtain ⟨pairs, hpairs, hread⟩ := exists_of_read hform hd hv
  obtain ⟨pairs', hpairs', hread'⟩ := exists_of_read hform hd' hv'
  have hrecords : (d.fields.filter fun e => (c.options.field? e.1).any isPicked) =
      d'.fields.filter fun e => (c.options.field? e.1).any isPicked := by
    refine Record.filter_eq_of_lookup_eq (sorted_of_content? hset hd) (sorted_of_content? hset hd')
      (q := fun n => (c.options.field? n).any isPicked) fun n hn => ?_
    cases hf : c.options.field? n with
    | none => rw [hf] at hn; cases hn
    | some f => rw [hf] at hn; exact h n f hf hn
  have hpicks := forall₂_picks hpairs
  have hpicks' := forall₂_picks hpairs'
  rw [filter_shownFields, hrecords, ← filter_shownFields] at hpicks
  have hsame := List.right_unique_forall₂' c.picks_unique hpicks hpicks'
  rw [hread, hread', hsame]

/-! ## Extensions -/

variable {files : List FileDescriptor} {f : FieldShape} {n : Nat}

/-- A schema declares an extension of the options message with a number and a full name. -/
def Extends (files : List FileDescriptor) (c : CustomOptions) (n : Nat) (name : String) : Prop :=
  ∃ p ∈ extensionsOf files, p.named p.item.name = name ∧
    c.options.field? n =
      some (fieldShape (DeclaredNames.ofFiles files) p ("[" ++ name ++ "]") true false)

/-- No standard option has a name in brackets. -/
def NamesApart (c : CustomOptions) : Prop :=
  ∀ f ∈ c.options.fields, f.isExtension = false → isPicked f = false

/-- The options message is one that the files declare. -/
theorem exists_of_ofFiles (h : ofFiles files = .ok (some c)) :
    ∃ p ∈ messagesOf files, c.options =
      messageShape (DeclaredNames.ofFiles files)
        (extensionShapes (DeclaredNames.ofFiles files) files) p := by
  unfold ofFiles at h
  dsimp only at h
  split at h
  · cases h
  · next options hoptions =>
    split at h
    · cases h
      obtain ⟨before, after, hsplit, _⟩ := List.lookup_eq_some_iff.mp hoptions
      have hmem : (messageName, options) ∈ (shapesOf files).messages := by
        rw [hsplit]
        exact List.mem_append_right _ List.mem_cons_self
      obtain ⟨p, hp, heq⟩ := List.mem_map.mp hmem
      exact ⟨p, hp, (Prod.mk.inj heq).2.symm⟩
    · cases h

theorem exists_extends (h : ofFiles files = .ok (some c)) (hf : c.options.field? n = some f)
    (hext : f.isExtension = true) : ∃ name, Extends files c n name := by
  obtain ⟨p, _, hoptions⟩ := exists_of_ofFiles h
  have hmem : f ∈ c.options.fields := List.mem_of_find?_eq_some hf
  rw [hoptions] at hmem
  rcases List.mem_append.mp hmem with hown | hmem
  · obtain ⟨_, _, rfl⟩ := List.mem_map.mp hown
    cases hext
  · obtain ⟨e, he, rfl⟩ := List.mem_map.mp hmem
    obtain ⟨q, hq, rfl⟩ := List.mem_map.mp (List.mem_of_mem_filter he)
    exact ⟨q.named q.item.name, q, hq, rfl, hf⟩

/-- What the shape of an extension says. -/
structure IsExtension (f : FieldShape) (name : String) : Prop where
  isExtension : f.isExtension = true
  presence : f.presence = true
  oneof : f.oneof = none
  jsonName : ∀ j, f.jsonName = some j → j = "[" ++ name ++ "]"

theorem Extends.exists_field? {name : String} (h : Extends files c n name) :
    ∃ f, c.options.field? n = some f ∧ IsExtension f name := by
  obtain ⟨p, _, _, hf⟩ := h
  refine ⟨_, hf, rfl, rfl, rfl, fun j hj => ?_⟩
  have hname : (if p.item.hasTextJsonName then some ("[" ++ name ++ "]") else none) = some j := hj
  split at hname
  · exact (Option.some.inj hname).symm
  · cases hname

theorem oneof_of_isExtension (h : ofFiles files = .ok (some c))
    (hf : c.options.field? n = some f) (hext : f.isExtension = true) :
    (c.options.field? n).bind FieldShape.oneof = none := by
  obtain ⟨name, hname⟩ := exists_extends h hf hext
  obtain ⟨g, hg, hshape⟩ := hname.exists_field?
  rw [hg, Option.bind_some, hshape.oneof]

/-- Custom options are those of the extensions that a content holds, by their full names. -/
structure TellExtensions (files : List FileDescriptor) (c : CustomOptions) (d : Content)
    (custom : Option (List (Value × Value))) : Prop where
  none_iff : custom = none ↔ ∀ n name, Extends files c n name → d.fields.isSet n = false
  mem_keys_iff : ∀ es, custom = some es → ∀ key, key ∈ es.map Prod.fst ↔
    ∃ n name, Extends files c n name ∧ d.fields.isSet n = true ∧ key = .text name

/-- The names of what is picked are the full names of the extensions that are held. -/
theorem mem_picks_iff (h : ofFiles files = .ok (some c)) (happart : c.NamesApart)
    (hset : c.options.isSet = false) (hd : c.content? o = some d)
    {pairs : List (String × Value)}
    (hpairs : List.Forall₂ c.Shows (shownFields c.options d.fields) pairs) (name : String) :
    name ∈ (pairs.filterMap (Table.renamed bracketed?)).map Prod.fst ↔
      ∃ n, Extends files c n name ∧ d.fields.isSet n = true := by
  have hpicks := forall₂_picks hpairs
  have hsorted := sorted_of_content? hset hd
  constructor
  · intro hname
    obtain ⟨p, hp, rfl⟩ := List.mem_map.mp hname
    obtain ⟨e, he, hbracketed, _⟩ := Related.exists_left hpicks hp
    obtain ⟨he, hpicked⟩ := List.mem_filter.mp he
    obtain ⟨entry, hentry, heq⟩ := List.mem_filterMap.mp he
    obtain ⟨f, hfilter, rfl⟩ := Option.map_eq_some_iff.mp heq
    obtain ⟨hf, _⟩ := Option.filter_eq_some_iff.mp hfilter
    have hext : f.isExtension = true := by
      by_contra hown
      have hnot := happart f (List.mem_of_find?_eq_some hf) (eq_false_of_ne_true hown)
      rw [hnot] at hpicked
      cases hpicked
    obtain ⟨name, hextends⟩ := exists_extends h hf hext
    obtain ⟨g, hg, hshape⟩ := hextends.exists_field?
    cases hf.symm.trans hg
    obtain ⟨j, hj, hbracketed⟩ := Option.bind_eq_some_iff.mp hbracketed
    have hsame : bracketed? j = some name := bracketed?_eq_some_iff.mpr (hshape.jsonName j hj)
    cases hsame.symm.trans hbracketed
    refine ⟨entry.1, hextends, ?_⟩
    rw [Record.isSet, (hsorted.mem_iff entry).mp hentry, Option.isSome_some]
  · rintro ⟨n, hextends, hheld⟩
    obtain ⟨f, hf, hshape⟩ := hextends.exists_field?
    obtain ⟨values, hvalues⟩ := Option.isSome_iff_exists.mp hheld
    have hentry : (n, values) ∈ d.fields := (hsorted.mem_iff (n, values)).mpr hvalues
    have hshown : (f, values) ∈ shownFields c.options d.fields := by
      refine List.mem_filterMap.mpr ⟨(n, values), hentry, ?_⟩
      have hpresent : isShown f values = true := by rw [isShown, hshape.presence, Bool.true_or]
      rw [hf, Option.filter_some, if_pos hpresent, Option.map_some]
    obtain ⟨p, hp, hjson, _⟩ := Related.exists_right hpairs hshown
    have hbracketed : bracketed? p.1 = some name :=
      bracketed?_eq_some_iff.mpr (hshape.jsonName p.1 hjson)
    exact List.mem_map.mpr ⟨(name, p.2),
      List.mem_filterMap.mpr ⟨p, hp, Table.renamed_of_some hbracketed p.2⟩, rfl⟩

theorem ofPairs_eq_none_iff {pairs : List (String × Value)} : ofPairs pairs = none ↔ pairs = [] := by
  cases pairs <;> simp [ofPairs]

theorem mem_keys_of_ofPairs {pairs : List (String × Value)} {es : List (Value × Value)}
    (h : ofPairs pairs = some es) (key : Value) :
    key ∈ es.map Prod.fst ↔ ∃ name ∈ pairs.map Prod.fst, key = .text name := by
  unfold ofPairs at h
  split at h
  · cases h
  · cases h
    rw [Value.keys_textEntries, List.mem_map]
    refine exists_congr fun name => ?_
    rw [← Table.keys, Table.mem_keys_ofList_iff]
    exact and_congr_right fun _ => eq_comm

/-- Where no standard option has a name in brackets, options that are read and rendered give the
extensions that they hold. -/
theorem read_tellExtensions (h : ofFiles files = .ok (some c)) (happart : c.NamesApart)
    (hform : c.options.form = .plain) (hset : c.options.isSet = false)
    (hd : c.content? o = some d) (hv : c.shapes.render c.options d = .ok v) :
    ∃ custom, c.read o = .ok custom ∧ TellExtensions files c d custom := by
  obtain ⟨pairs, hpairs, hread⟩ := exists_of_read hform hd hv
  have hnames := mem_picks_iff h happart hset hd hpairs
  refine ⟨_, hread, ?_, fun es hes key => ?_⟩
  · rw [ofPairs_eq_none_iff]
    constructor
    · intro hnil n name hextends
      by_contra hheld
      have hmem := (hnames name).mpr ⟨n, hextends, eq_true_of_ne_false hheld⟩
      rw [hnil] at hmem
      cases hmem
    · intro hnone
      refine List.eq_nil_iff_forall_not_mem.mpr fun p hp => ?_
      obtain ⟨n, hextends, hheld⟩ := (hnames p.1).mp (List.mem_map_of_mem hp)
      rw [hnone n p.1 hextends] at hheld
      cases hheld
  · rw [mem_keys_of_ofPairs hes]
    constructor
    · rintro ⟨name, hmem, rfl⟩
      obtain ⟨n, hextends, hheld⟩ := (hnames name).mp hmem
      exact ⟨n, name, hextends, hheld, rfl⟩
    · rintro ⟨n, name, hextends, hheld, rfl⟩
      exact ⟨name, (hnames name).mpr ⟨n, hextends, hheld⟩, rfl⟩

end CustomOptions

end SchemaScript
