import SchemaScript.Proofs.Schema.Exports

/-!
# Names of exports

When two declarations of a file are exported under the same name.

A declaration stands at a *path*: the names of the messages around it, the outermost first, and last
its own.  `FileDescriptor.exportedPaths` reads the paths of all exported declarations off the
descriptor of a file.  The full name of a declaration is its path joined by dots, after the package
(`fullNameAt`).  The name of its export is its path joined by underscores, with a dollar sign after
the first name if that is a reserved word (`exportName`).

A dot occurs in no name, so different paths give different full names.  An underscore can occur in a
name, so different paths can give the same export: `A.B` and `A_B` are both exported as `A_B`
(`exportedNames_clash`).  There is no other way to such a clash (`exportName_eq_iff`), so the names
of the exports are distinct exactly if no two paths clash.  A reserved word is never exported, since
it has no underscore and no dollar sign in it.
-/

namespace SchemaScript

open Outcome

/-! ## Names in a schema -/

/-- Whether a name of a schema can start with a character. -/
def isNameStart (c : Char) : Bool :=
  c.isAlpha || c == '_'

/-- Whether a text is a name of a schema: letters, digits and underscores, without a digit first. -/
def isSchemaName (name : String) : Bool :=
  match name.toList with
  | [] => false
  | c :: rest => isNameStart c && rest.all fun d => isNameStart d || d.isDigit

theorem not_mem_of_isSchemaName {name : String} (h : isSchemaName name = true) {c : Char}
    (hstart : isNameStart c = false) (hdigit : c.isDigit = false) : c ∉ name.toList := by
  intro hc
  unfold isSchemaName at h
  split at h
  · cases h
  · next first rest hchars =>
    rw [hchars] at hc
    rw [Bool.and_eq_true, List.all_eq_true] at h
    rcases List.mem_cons.mp hc with rfl | hc
    · rw [hstart] at h
      cases h.1
    · have hrest := h.2 c hc
      rw [hstart, hdigit] at hrest
      cases hrest

/-! ## Paths of declarations -/

/-- The full name of the declaration at a path. -/
def fullNameAt (package : String) (path : List String) : String :=
  Scope.joinName package (".".intercalate path)

/-- The name by which the declaration at a path is exported. -/
def exportName : List String → String
  | [] => ""
  | top :: inner => "_".intercalate (safeIdentifier top :: inner)

mutual

/-- A message and the visible messages in it, each with its path, by the path of what is around. -/
def MessageDescriptor.visibleFrom (around : List String) :
    MessageDescriptor → List (List String × MessageDescriptor)
  | ⟨name, fields, oneofs, messages, enums, extensions, isMapEntry, isMessageSet, features⟩ =>
    (around ++ [name],
      ⟨name, fields, oneofs, messages, enums, extensions, isMapEntry, isMessageSet, features⟩) ::
        MessageDescriptor.visibleNestedFrom (around ++ [name]) messages

/-- The visible ones among messages, and the visible messages in them, each with its path. -/
def MessageDescriptor.visibleNestedFrom (around : List String) :
    List MessageDescriptor → List (List String × MessageDescriptor)
  | [] => []
  | d :: rest =>
    (if d.isMapEntry then [] else d.visibleFrom around) ++
      MessageDescriptor.visibleNestedFrom around rest

end

namespace FileDescriptor

/-- The messages that code is generated for, each with its path. -/
def visibleMessages (d : FileDescriptor) : List (List String × MessageDescriptor) :=
  d.messages.flatMap (·.visibleFrom [])

/-- The paths of the enums in a message at a path. -/
def enumPaths (m : List String × MessageDescriptor) : List (List String) :=
  m.2.enums.map fun e => m.1 ++ [e.name]

/-- The paths of what the module of a file exports, those of enums first. -/
def exportedPaths (d : FileDescriptor) : List (List String) :=
  d.enums.map (fun e => [e.name]) ++ d.visibleMessages.flatMap enumPaths ++
    d.visibleMessages.map Prod.fst

end FileDescriptor

/-- What a file exports, the enums first. -/
def File.exports (f : File) : List Declared :=
  f.allEnums.map .enum ++ f.allMessages.map .message

theorem File.exportedNames_eq (f : File) : f.exportedNames = f.exports.map (·.symbol.name) := by
  rw [exportedNames, exports, List.map_append, List.map_map, List.map_map]
  rfl

theorem MessageDescriptor.visibleFrom_eq (around : List String) (d : MessageDescriptor) :
    d.visibleFrom around = (around ++ [d.name], d) ::
      d.messages.flatMap fun n => if n.isMapEntry then [] else n.visibleFrom (around ++ [d.name]) := by
  have hnested (outer : List String) (ds : List MessageDescriptor) : visibleNestedFrom outer ds =
      ds.flatMap fun n => if n.isMapEntry then [] else n.visibleFrom outer := by
    induction ds with
    | nil => rfl
    | cons d rest ih => rw [visibleNestedFrom, ih, List.flatMap_cons]
  cases d
  rw [visibleFrom, hnested]

/-! ## Declarations at their paths -/

/-- A scope is in the message at a path, or at the top of a file if the path is empty. -/
def Scope.StandsAt (s : Scope) (path : List String) : Prop :=
  s.parent = if path = [] then none
    else some (fullNameAt s.file.package path, ⟨s.file.importPath, exportName path⟩)

theorem fullNameAt_concat (package : String) {path : List String} (h : path ≠ []) (name : String) :
    fullNameAt package (path ++ [name]) = fullNameAt package path ++ "." ++ name := by
  have hjoined : ".".intercalate (path ++ [name]) = ".".intercalate path ++ "." ++ name := by
    rw [String.intercalate_append_of_ne_nil h (List.cons_ne_nil _ _), String.intercalate_singleton]
  rw [fullNameAt, fullNameAt, hjoined, Scope.joinName, Scope.joinName]
  split
  · rfl
  · simp only [String.append_assoc]

theorem exportName_concat {path : List String} (h : path ≠ []) (name : String) :
    exportName (path ++ [name]) = exportName path ++ "_" ++ name := by
  cases path with
  | nil => exact absurd rfl h
  | cons top inner =>
    rw [List.cons_append, exportName, exportName, ← List.cons_append,
      String.intercalate_append_of_ne_nil (List.cons_ne_nil _ _) (List.cons_ne_nil _ _),
      String.intercalate_singleton]

namespace Scope.StandsAt

variable {s : Scope} {path : List String}

theorem ofFile (h : FileHeader) : (Scope.ofFile h).StandsAt [] := rfl

theorem fullName (h : s.StandsAt path) (name : String) :
    s.fullName name = fullNameAt s.file.package (path ++ [name]) := by
  unfold Scope.fullName
  rw [h]
  by_cases hpath : path = []
  · rw [if_pos hpath, hpath]
    rfl
  · rw [if_neg hpath, fullNameAt_concat _ hpath]

theorem symbol (h : s.StandsAt path) (name : String) :
    s.symbol name = ⟨s.file.importPath, exportName (path ++ [name])⟩ := by
  unfold Scope.symbol
  rw [h]
  by_cases hpath : path = []
  · rw [if_pos hpath, hpath]
    rfl
  · rw [if_neg hpath, exportName_concat hpath]

theorem inside (h : s.StandsAt path) (place : List Nat) (name : String) :
    (s.inside place name).StandsAt (path ++ [name]) := by
  unfold StandsAt Scope.inside
  rw [if_neg (by simp), h.fullName, h.symbol]

end Scope.StandsAt

/-- What is seen of each visible message is seen of all of them in order. -/
theorem Message.declare_visible {α : Type} {header : FileHeader} {view : Message → List α}
    {source : List String × MessageDescriptor → List α}
    (hview : ∀ (s : Scope) (member : Member) (i : Nat) (d : MessageDescriptor) (n : Message)
      (path : List String), s.file = header → s.StandsAt path →
        Message.declare s member i d = .ok n → view n = source (path ++ [d.name], d))
    {s : Scope} {member : Member} {i : Nat} {d : MessageDescriptor} {m : Message}
    {path : List String} (h : Message.declare s member i d = .ok m) (hfile : s.file = header)
    (hs : s.StandsAt path) : m.withNested.flatMap view = (d.visibleFrom path).flatMap source := by
  induction d using MessageDescriptor.induct generalizing s member i m path with
  | step d ih =>
    obtain ⟨_, _, _, inner, rfl, _, hmessages, _⟩ := Message.of_declare h
    have hnested : m.messages.flatMap (fun n =>
          (if n.isMapEntry then [] else n.withNested).flatMap view) =
        d.messages.flatMap fun dn =>
          (if dn.isMapEntry then [] else dn.visibleFrom (path ++ [d.name])).flatMap source := by
      refine flatMap_eachFrom (fun j dn hdn n hn => ?_) hmessages
      rw [Message.isMapEntry_declare hn]
      split
      · rfl
      · exact ih dn hdn hn hfile (hs.inside _ _)
    rw [withNested_eq, MessageDescriptor.visibleFrom_eq, List.flatMap_cons, List.flatMap_cons,
      hview s member i d m path hfile hs h, List.flatMap_assoc, List.flatMap_assoc, hnested]

/-- Enums that are declared in a scope have the full names and the symbol names of their paths. -/
theorem Scope.StandsAt.enumNames {s : Scope} {path : List String} (hs : s.StandsAt path)
    {member : Member} {i : Nat} {ds : List EnumDescriptor} {es : List Enum}
    (h : eachFrom (Enum.declare s member) i ds = .ok es) :
    es.map (fun e => (e.fullName, e.symbol.name)) = ds.map fun d =>
      (fullNameAt s.file.package (path ++ [d.name]), exportName (path ++ [d.name])) := by
  rw [List.map_eq_flatMap, List.map_eq_flatMap]
  refine flatMap_eachFrom (fun j d _ e he => ?_) h
  obtain ⟨_, hname, hsymbol, _⟩ := Enum.of_declare he
  rw [hname, hsymbol, hs.fullName, hs.symbol]

section

variable {rule : PathRule} {toGenerate : List String} {index : Nat} {d : FileDescriptor} {f : File}

/-- What is seen of each visible message of a file is seen of all of them in order. -/
theorem File.declare_visible {α : Type} {view : Message → List α}
    {source : List String × MessageDescriptor → List α}
    (hview : ∀ (s : Scope) (member : Member) (i : Nat) (dn : MessageDescriptor) (n : Message)
      (path : List String), s.file = f.header → s.StandsAt path →
        Message.declare s member i dn = .ok n → view n = source (path ++ [dn.name], dn))
    (h : File.declare rule toGenerate index d = .ok f) :
    f.allMessages.flatMap view = d.visibleMessages.flatMap source := by
  obtain ⟨_, _, hmessages, _⟩ := File.of_declare h
  rw [allMessages, FileDescriptor.visibleMessages, List.flatMap_assoc, List.flatMap_assoc]
  exact flatMap_eachFrom (fun j dn _ n hn =>
    Message.declare_visible hview hn rfl (Scope.StandsAt.ofFile f.header)) hmessages

theorem File.declare_package (h : File.declare rule toGenerate index d = .ok f) :
    f.header.package = d.package := by
  rw [(File.of_declare h).1]
  rfl

theorem File.declare_messageNames (h : File.declare rule toGenerate index d = .ok f) :
    f.allMessages.map (fun n => (n.fullName, n.symbol.name)) =
      d.visibleMessages.map fun m => (fullNameAt d.package m.1, exportName m.1) := by
  rw [List.map_eq_flatMap, List.map_eq_flatMap]
  refine declare_visible (fun s member i dn n path hfile hs hn => ?_) h
  obtain ⟨_, hname, hsymbol, _⟩ := Message.of_declare hn
  rw [hname, hsymbol, hs.fullName, hs.symbol, hfile, declare_package h]

theorem File.declare_enumNames (h : File.declare rule toGenerate index d = .ok f) :
    f.allEnums.map (fun e => (e.fullName, e.symbol.name)) =
      (d.enums.map (fun e => [e.name]) ++ d.visibleMessages.flatMap FileDescriptor.enumPaths).map
        fun p => (fullNameAt d.package p, exportName p) := by
  have htop : f.enums.map (fun e => (e.fullName, e.symbol.name)) =
      d.enums.map fun e => (fullNameAt d.package [e.name], exportName [e.name]) := by
    obtain ⟨_, _, _, henums⟩ := File.of_declare h
    rw [(Scope.StandsAt.ofFile f.header).enumNames henums, ← declare_package h]
    rfl
  have hinner : f.allMessages.flatMap (fun n => n.enums.map fun e => (e.fullName, e.symbol.name)) =
      d.visibleMessages.flatMap fun m => (FileDescriptor.enumPaths m).map fun p =>
        (fullNameAt d.package p, exportName p) := by
    refine declare_visible (fun s member i dn n path hfile hs hn => ?_) h
    obtain ⟨_, _, _, inner, rfl, _, _, henums⟩ := Message.of_declare hn
    rw [(hs.inside _ dn.name).enumNames henums, Scope.file_inside, hfile, declare_package h,
      FileDescriptor.enumPaths, List.map_map]
    rfl
  rw [allEnums, List.map_append, List.map_append, htop, List.map_flatMap, hinner, List.map_map,
    List.map_flatMap]
  rfl

/-- The exports of a file have the full names and the symbol names of their paths. -/
theorem File.declare_exports (h : File.declare rule toGenerate index d = .ok f) :
    f.exports.map (fun x => (x.fullName, x.symbol.name)) =
      d.exportedPaths.map fun p => (fullNameAt d.package p, exportName p) := by
  have hmessages : (f.allMessages.map Declared.message).map (fun x => (x.fullName, x.symbol.name)) =
      (d.visibleMessages.map Prod.fst).map fun p => (fullNameAt d.package p, exportName p) := by
    rw [List.map_map, List.map_map]
    exact declare_messageNames h
  have henums : (f.allEnums.map Declared.enum).map (fun x => (x.fullName, x.symbol.name)) =
      (d.enums.map (fun e => [e.name]) ++ d.visibleMessages.flatMap FileDescriptor.enumPaths).map
        fun p => (fullNameAt d.package p, exportName p) := by
    rw [List.map_map]
    exact declare_enumNames h
  rw [exports, FileDescriptor.exportedPaths, List.map_append, henums, hmessages, ← List.map_append]

end

/-! ## Clashes -/

/-- Whether the outermost name on a path is a reserved word. -/
def startsReserved (path : List String) : Bool :=
  path.head?.any fun top => decide (top ∈ reservedWords)

/-- Two paths are the same text when they are joined by underscores, and the outermost names of both
or of neither are reserved words. -/
def Clash (p q : List String) : Prop :=
  "_".intercalate p = "_".intercalate q ∧ startsReserved p = startsReserved q

instance : DecidableRel Clash := fun p q => by unfold Clash; infer_instance

/-- What follows the outermost name on a path that is joined by underscores. -/
def joinedRest (inner : List String) : List Char :=
  inner.flatMap fun name => '_' :: name.toList

theorem toList_joined (top : String) (inner : List String) :
    ("_".intercalate (top :: inner)).toList = top.toList ++ joinedRest inner := by
  induction inner generalizing top with
  | nil => simp [joinedRest]
  | cons name rest ih =>
    rw [String.intercalate_cons_of_ne_nil (List.cons_ne_nil _ _), String.toList_append,
      String.toList_append, ih]
    simp [joinedRest]

/-- Texts that go on with the same character where they end are cut at its first place. -/
theorem append_inj_of_not_mem {stop : Char} {a b x y : List Char} (ha : stop ∉ a) (hb : stop ∉ b)
    (hx : ∀ c ∈ x.head?, c = stop) (hy : ∀ c ∈ y.head?, c = stop) (h : a ++ x = b ++ y) :
    a = b ∧ x = y := by
  have hcut {s t : List Char} (hs : stop ∉ s) (ht : ∀ c ∈ t.head?, c = stop) :
      (s ++ t).takeWhile (· != stop) = s := by
    have hall : ∀ c ∈ s, (c != stop) = true := fun c hc =>
      bne_iff_ne.mpr fun heq => hs (heq ▸ hc)
    have hnone : t.takeWhile (· != stop) = [] := by
      cases t with
      | nil => rfl
      | cons c rest => simp [ht c rfl]
    rw [List.takeWhile_append_of_pos hall, hnone, List.append_nil]
  have hab : a = b := by rw [← hcut ha hx, h, hcut hb hy]
  exact ⟨hab, List.append_cancel_left (hab ▸ h)⟩

theorem head?_joinedRest (inner : List String) : ∀ c ∈ (joinedRest inner).head?, c = '_' := by
  cases inner with
  | nil => nofun
  | cons name rest =>
    intro c hc
    simpa [joinedRest, eq_comm] using hc

theorem not_mem_reservedWords {c : Char} (hc : c = '_' ∨ c = '$') {word : String}
    (h : word ∈ reservedWords) : c ∉ word.toList := by
  have hall : ∀ word ∈ reservedWords, '_' ∉ word.toList ∧ '$' ∉ word.toList := by decide +kernel
  rcases hc with rfl | rfl
  · exact (hall word h).1
  · exact (hall word h).2

theorem exportName_of_reserved {top : String} (h : top ∈ reservedWords) (inner : List String) :
    (exportName (top :: inner)).toList = top.toList ++ '$' :: joinedRest inner := by
  rw [exportName, safeIdentifier, if_pos h, toList_joined, String.toList_append, List.append_assoc]
  rfl

theorem exportName_of_not_reserved {top : String} (h : top ∉ reservedWords)
    (inner : List String) : exportName (top :: inner) = "_".intercalate (top :: inner) := by
  rw [exportName, safeIdentifier, if_neg h]

/-- No name on a path has a dollar sign in it. -/
def Undollared (path : List String) : Prop :=
  ∀ name ∈ path, '$' ∉ name.toList

theorem Undollared.joined {path : List String} (h : Undollared path) :
    '$' ∉ ("_".intercalate path).toList := by
  cases path with
  | nil => simp
  | cons top inner =>
    rw [toList_joined]
    intro hc
    rcases List.mem_append.mp hc with hc | hc
    · exact h top List.mem_cons_self hc
    · obtain ⟨name, hname, hc⟩ := List.mem_flatMap.mp hc
      rcases List.mem_cons.mp hc with hc | hc
      · cases hc
      · exact h name (List.mem_cons_of_mem _ hname) hc

/-- Paths have the same export exactly if they clash. -/
theorem exportName_eq_iff {p q : List String} (hp : Undollared p) (hq : Undollared q)
    (hpn : p ≠ []) (hqn : q ≠ []) : exportName p = exportName q ↔ Clash p q := by
  obtain ⟨top, inner, rfl⟩ := List.exists_cons_of_ne_nil hpn
  obtain ⟨top', inner', rfl⟩ := List.exists_cons_of_ne_nil hqn
  -- only the export of a path that starts with a reserved word has a dollar sign
  have hmixed {a b : String} {as bs : List String} (ha : a ∈ reservedWords)
      (hb : b ∉ reservedWords) (hbs : Undollared (b :: bs)) :
      exportName (a :: as) ≠ exportName (b :: bs) := by
    intro h
    have hdollar : '$' ∈ (exportName (a :: as)).toList := by
      rw [exportName_of_reserved ha]
      simp
    rw [h, exportName_of_not_reserved hb] at hdollar
    exact hbs.joined hdollar
  by_cases htop : top ∈ reservedWords <;> by_cases htop' : top' ∈ reservedWords
  · have hstarts : startsReserved (top :: inner) = startsReserved (top' :: inner') := by
      simp [startsReserved, htop, htop']
    simp only [Clash, hstarts, and_true, ← String.toList_inj, toList_joined,
      exportName_of_reserved htop, exportName_of_reserved htop']
    constructor
    · intro h
      obtain ⟨htops, hrest⟩ := append_inj_of_not_mem (not_mem_reservedWords (.inr rfl) htop)
        (not_mem_reservedWords (.inr rfl) htop') (by simp) (by simp) h
      rw [htops, (List.cons.inj hrest).2]
    · intro h
      obtain ⟨htops, hrest⟩ := append_inj_of_not_mem (not_mem_reservedWords (.inl rfl) htop)
        (not_mem_reservedWords (.inl rfl) htop') (head?_joinedRest _) (head?_joinedRest _) h
      rw [htops, hrest]
  · have hstarts : startsReserved (top :: inner) ≠ startsReserved (top' :: inner') := by
      simp [startsReserved, htop, htop']
    exact iff_of_false (hmixed htop htop' hq) fun h => hstarts h.2
  · have hstarts : startsReserved (top :: inner) ≠ startsReserved (top' :: inner') := by
      simp [startsReserved, htop, htop']
    exact iff_of_false (fun h => hmixed htop' htop hp h.symm) fun h => hstarts h.2
  · have hstarts : startsReserved (top :: inner) = startsReserved (top' :: inner') := by
      simp [startsReserved, htop, htop']
    rw [exportName_of_not_reserved htop, exportName_of_not_reserved htop', Clash,
      and_iff_left hstarts]

/-- No export is a reserved word. -/
theorem exportName_not_reserved (path : List String) : exportName path ∉ reservedWords := by
  intro h
  cases path with
  | nil => exact absurd h (by decide +kernel)
  | cons top inner =>
    by_cases htop : top ∈ reservedWords
    · refine not_mem_reservedWords (.inr rfl) h ?_
      rw [exportName_of_reserved htop]
      simp
    · rw [exportName_of_not_reserved htop] at h
      cases inner with
      | nil => exact htop (by simpa using h)
      | cons name rest =>
        refine not_mem_reservedWords (.inl rfl) h ?_
        rw [toList_joined]
        simp [joinedRest]

/-! ## Exports of a file -/

theorem MessageDescriptor.visibleFrom_ne_nil {around : List String} {d : MessageDescriptor}
    {m : List String × MessageDescriptor} (h : m ∈ d.visibleFrom around) : m.1 ≠ [] := by
  induction d using MessageDescriptor.induct generalizing around with
  | step d ih =>
    rw [visibleFrom_eq, List.mem_cons, List.mem_flatMap] at h
    rcases h with rfl | ⟨n, hn, hm⟩
    · simp
    · split at hm
      · cases hm
      · exact ih n hn hm

theorem FileDescriptor.exportedPaths_ne_nil {d : FileDescriptor} {p : List String}
    (h : p ∈ d.exportedPaths) : p ≠ [] := by
  simp only [exportedPaths, enumPaths, List.mem_append, List.mem_map, List.mem_flatMap] at h
  rcases h with (⟨e, _, rfl⟩ | ⟨m, _, e, _, rfl⟩) | ⟨m, hm, rfl⟩
  · simp
  · simp
  · obtain ⟨dm, _, hm⟩ := List.mem_flatMap.mp hm
    exact MessageDescriptor.visibleFrom_ne_nil hm

/-- The exports of a file stand at its exported paths, in order.  If all names on these are names of
a schema, the exports have distinct names exactly if no two of the paths clash.  A reserved word is
never exported. -/
theorem exportedNames_nodup_iff {rule : PathRule} {toGenerate : List String} {index : Nat}
    {d : FileDescriptor} {f : File} (h : File.declare rule toGenerate index d = .ok f)
    (hnames : ∀ p ∈ d.exportedPaths, ∀ name ∈ p, isSchemaName name = true) :
    f.exports.map Declared.fullName = d.exportedPaths.map (fullNameAt d.package) ∧
      (f.exportedNames.Nodup ↔ d.exportedPaths.Pairwise fun p q => ¬ Clash p q) ∧
      ∀ name ∈ f.exportedNames, name ∉ reservedWords := by
  have hexports := File.declare_exports h
  have hfull := congrArg (List.map Prod.fst) hexports
  have hsymbols := congrArg (List.map Prod.snd) hexports
  simp only [List.map_map] at hfull hsymbols
  have hexported : f.exportedNames = d.exportedPaths.map exportName := by
    rw [File.exportedNames_eq]
    exact hsymbols
  have hundollared : ∀ p ∈ d.exportedPaths, Undollared p := fun p hp name hname =>
    not_mem_of_isSchemaName (hnames p hp name hname) (by decide) (by decide)
  refine ⟨hfull, ?_, ?_⟩
  · rw [hexported, List.Nodup, List.pairwise_map]
    refine List.Pairwise.iff_of_mem fun {p q} hp hq => not_congr ?_
    exact exportName_eq_iff (hundollared p hp) (hundollared q hq)
      (FileDescriptor.exportedPaths_ne_nil hp) (FileDescriptor.exportedPaths_ne_nil hq)
  · intro name hname
    rw [hexported] at hname
    obtain ⟨p, _, rfl⟩ := List.mem_map.mp hname
    exact exportName_not_reserved p

/-! ## Distinct and equal names -/

/-- What a file declares on its own. -/
def FileDescriptor.declared (d : FileDescriptor) : Option File :=
  (File.declare defaultPathRule [] 0 d).toOption

theorem FileDescriptor.declare_of_declared {d : FileDescriptor} {f : File}
    (h : d.declared = some f) : File.declare defaultPathRule [] 0 d = .ok f :=
  Outcome.toOption_eq_some_iff.mp h

/-- A file where a reserved word keeps two names apart that are the same with underscores. -/
def reservedFile : FileDescriptor :=
  Schema.sampleFile "words.proto" "p" []
    [Schema.sampleMessage "import" false []
      [Schema.sampleMessage "B" false [] [Schema.sampleMessage "C_D" false [] []],
        Schema.sampleMessage "PairsEntry" true [] []],
      Schema.sampleMessage "import_B" false [] [Schema.sampleMessage "C" false [] []]]
    [⟨"enum", [⟨"ENUM_A", 0⟩], .none⟩]

/-- The names of the exports of a file are distinct since no two of its paths clash. -/
theorem exportedNames_nodup_of_reserved :
    ∃ f, File.declare defaultPathRule [] 0 reservedFile = .ok f ∧
      f.exportedNames =
        ["enum$", "import$", "import$_B", "import$_B_C_D", "import_B", "import_B_C"] ∧
      f.exportedNames.Nodup := by
  have hdeclared : reservedFile.declared.isSome = true := by decide +kernel
  obtain ⟨f, hf⟩ := Option.isSome_iff_exists.mp hdeclared
  have hd := FileDescriptor.declare_of_declared hf
  refine ⟨f, hd, ?_, (exportedNames_nodup_iff hd (by decide +kernel)).2.1.mpr (by decide +kernel)⟩
  have hnames : reservedFile.declared.map File.exportedNames = some
      ["enum$", "import$", "import$_B", "import$_B_C_D", "import_B", "import_B_C"] := by
    decide +kernel
  rw [hf] at hnames
  exact Option.some.inj hnames

/-- A file that declares `A`, in it `B`, and `A_B`. -/
def clashFile : FileDescriptor :=
  Schema.sampleFile "clash.proto" "p" []
    [Schema.sampleMessage "A" false [] [Schema.sampleMessage "B" false [] []],
      Schema.sampleMessage "A_B" false [] []] []

/-- Different full names of schema names do not keep the names of exports apart. -/
theorem exportedNames_clash :
    ∃ f, File.declare defaultPathRule [] 0 clashFile = .ok f ∧
      (∀ p ∈ clashFile.exportedPaths, ∀ name ∈ p, isSchemaName name = true) ∧
      (f.exports.map Declared.fullName).Nodup ∧
      f.exportedNames = ["A", "A_B", "A_B"] ∧ ¬ f.exportedNames.Nodup := by
  have hdeclared : (clashFile.declared.map fun f =>
      (f.exports.map Declared.fullName, f.exportedNames)) =
        some (["p.A", "p.A.B", "p.A_B"], ["A", "A_B", "A_B"]) := by
    decide +kernel
  obtain ⟨f, hf, hnames⟩ := Option.map_eq_some_iff.mp hdeclared
  obtain ⟨hfull, hexported⟩ := Prod.mk.inj hnames
  refine ⟨f, FileDescriptor.declare_of_declared hf, by decide +kernel, ?_, hexported, ?_⟩
  · rw [hfull]
    decide
  · rw [hexported]
    decide

end SchemaScript
