import SchemaScript.Proofs.Generation
import SchemaScript.Proofs.ImportPath.Ways
import SchemaScript.Proofs.Module.Closure
import SchemaScript.Proofs.Text.Joined

/-!
# Module specifiers

What the specifier of a generated module means in the module that imports it.

A specifier is resolved against the directory of the importer: the two are joined, and the result is
normalized (`ImportPath.resolved`).  For paths that are normal themselves this gives the imported
path again, wherever the generator is run (`ImportPath.specifierFrom_resolves`).  So no two modules
have the same specifier in one importer, and the module that is meant is the one that a run writes.

A specifier ends with the name of the imported module, with one exception.  Where the path of the
module is also a directory on the path of the importer, as for `a.proto` next to `a/b.proto`, the
way from the importer goes up only.  The specifier then ends with dots, which name a directory
(`ImportPath.lastComponent_specifierFrom`).
-/

namespace SchemaScript

open Place (IsName)

/-! ## Components -/

namespace ImportPath

theorem components_append (as bs : List Char) :
    components (as ++ '/' :: bs) = components as ++ components bs := by
  rw [components, List.splitOn_append_cons_self, List.map_append]
  rfl

/-- Joined names are the components of the path. -/
theorem components_intercalate {cs : List String} (hne : cs ≠ []) (h : ∀ c ∈ cs, '/' ∉ c.toList) :
    components ("/".intercalate cs).toList = cs := by
  have hchars : ("/".intercalate cs).toList = ['/'].intercalate (cs.map String.toList) :=
    String.toList_intercalate
  have hmap : cs.map String.toList ≠ [] := mt List.map_eq_nil_iff.mp hne
  rw [components, hchars, List.splitOn_intercalate _ (List.forall_mem_map.mpr h) hmap, List.map_map]
  simp [Function.comp_def]

theorem components_subset {path : List Char} {c : String} (h : c ∈ components path) :
    c.toList ⊆ path := by
  obtain ⟨piece, hpiece, rfl⟩ := List.mem_map.mp h
  rw [String.toList_ofList]
  exact Text.subset_of_mem_splitOn hpiece

theorem directory_append (as : List Char) {bs : List Char} (h : '/' ∉ bs) :
    directory (as ++ '/' :: bs) = as ++ ['/'] := by
  have hall : ∀ c ∈ bs.reverse, (c != '/') = true := by
    intro c hc
    have hne : c ≠ '/' := fun heq => h (heq ▸ List.mem_reverse.mp hc)
    simpa using hne
  rw [directory, List.reverse_append, List.reverse_cons, List.append_assoc,
    List.dropWhile_append_of_pos hall]
  simp

/-! ## Normal paths -/

/-- A path is made of `./` and the given names, of which there is one at least. -/
structure HasNames (p : ImportPath) (names : List String) : Prop where
  ne_nil : names ≠ []
  isName : ∀ n ∈ names, IsName n
  path : p.path = "./" ++ "/".intercalate names

/-- A path that consists of `./` and one or more names. -/
def IsNormal (p : ImportPath) : Prop :=
  ∃ names, p.HasNames names

variable {p q importer : ImportPath} {names : List String}

namespace HasNames

theorem path_eq (h : p.HasNames names) : p.path = "/".intercalate ("." :: names) := by
  rw [h.path, String.intercalate_cons_of_ne_nil h.ne_nil]
  rfl

theorem no_slash (h : p.HasNames names) : ∀ c ∈ "." :: names, '/' ∉ c.toList :=
  List.forall_mem_cons.mpr ⟨by decide, fun n hn => (h.isName n hn).no_slash⟩

theorem components_eq (h : p.HasNames names) : components p.path.toList = "." :: names := by
  rw [h.path_eq, components_intercalate (List.cons_ne_nil _ _) h.no_slash]

theorem isRelative (h : p.HasNames names) : p.isRelative = true := by
  rw [ImportPath.isRelative, h.path, String.toList_append, List.isPrefixOf_iff_prefix]
  exact List.prefix_append _ _

theorem place_eq (h : p.HasNames names) (cwd : Place) :
    cwd.follow (components p.path.toList) = ⟨cwd.up, cwd.names ++ names⟩ := by
  rw [h.components_eq, Place.follow_cons_dot, Place.follow_names h.isName]

/-- No component of a way to the place holds a slash. -/
theorem no_slash_way (h : p.HasNames names) (here : List String) :
    ∀ c ∈ (Place.mk 0 here).componentsFrom ⟨0, names⟩, '/' ∉ c.toList := by
  intro c hc
  rcases Place.mem_componentsFrom hc with rfl | hc
  · decide
  · exact (h.isName c hc).no_slash

/-- A path is that of its directory and its last name. -/
theorem toList_eq (h : p.HasNames names) :
    p.path.toList = ("/".intercalate ("." :: names.dropLast)).toList ++
      '/' :: (names.getLast h.ne_nil).toList := by
  have hsplit : "." :: names = ("." :: names.dropLast) ++ [names.getLast h.ne_nil] := by
    rw [List.cons_append, List.dropLast_append_getLast]
  rw [h.path_eq, hsplit,
    String.intercalate_append_of_ne_nil (List.cons_ne_nil _ _) (List.cons_ne_nil _ _),
    String.intercalate_singleton, String.toList_append, String.toList_append, List.append_assoc]
  rfl

theorem directory_eq (h : p.HasNames names) :
    directory p.path.toList = ("/".intercalate ("." :: names.dropLast)).toList ++ ['/'] := by
  rw [h.toList_eq]
  exact directory_append _ (h.isName _ (List.getLast_mem h.ne_nil)).no_slash

/-- The components of a path that starts with the directory of a module. -/
theorem components_directory (h : p.HasNames names) (rest : List Char) :
    components (directory p.path.toList ++ rest) = "." :: names.dropLast ++ components rest := by
  have hslash : ∀ c ∈ "." :: names.dropLast, '/' ∉ c.toList := by
    intro c hc
    refine h.no_slash c ?_
    rcases List.mem_cons.mp hc with rfl | hc
    · exact List.mem_cons_self
    · exact List.mem_cons_of_mem _ (List.mem_of_mem_dropLast hc)
  rw [h.directory_eq, List.append_assoc, List.singleton_append, components_append,
    components_intercalate (List.cons_ne_nil _ _) hslash]

theorem follow_directory (h : p.HasNames names) (cwd : Place) (rest : List Char) :
    cwd.follow (components (directory p.path.toList ++ rest)) =
      (Place.mk cwd.up (cwd.names ++ names.dropLast)).follow (components rest) := by
  have hnames : ∀ n ∈ names.dropLast, IsName n :=
    fun n hn => h.isName n (List.mem_of_mem_dropLast hn)
  rw [h.components_directory, List.cons_append, Place.follow_cons_dot, Place.follow_append,
    Place.follow_names hnames]

/-- The place of the directory of a module. -/
theorem directoryPlace_eq (h : p.HasNames names) (cwd : Place) :
    cwd.follow (components (directory p.path.toList)) =
      ⟨cwd.up, cwd.names ++ names.dropLast⟩ := by
  have hfollow := h.follow_directory cwd []
  rw [List.append_nil] at hfollow
  exact hfollow

end HasNames

/-! ## Specifiers as texts of ways -/

/-- A way as a text, `.` if it is none. -/
def wayText : List String → String
  | [] => "."
  | parts => "/".intercalate parts

/-- The specifier that is written for a way. -/
def specifierOf (way : List String) : String :=
  if "../".toList.isPrefixOf (wayText way).toList then wayText way else "./" ++ wayText way

/-- The specifier by which a module imports the module of a path when the generator is run in a
directory. -/
def specifierAt (cwd : Place) (p importer : ImportPath) : String :=
  if p.isRelative then
    specifierOf ((cwd.follow (components (directory importer.path.toList))).componentsFrom
      (cwd.follow (components p.path.toList)))
  else
    p.path

/-- Specifiers are written as if the generator was run at the root of the output. -/
theorem specifierAt_root (p importer : ImportPath) :
    specifierAt Place.root p importer = p.specifierFrom importer := rfl

/-- The way from the directory of the importer to a module. -/
theorem HasNames.specifierAt_eq {there here : List String} (hp : p.HasNames there)
    (hq : importer.HasNames here) (cwd : Place) :
    specifierAt cwd p importer =
      specifierOf ((Place.mk 0 here.dropLast).componentsFrom ⟨0, there⟩) := by
  rw [specifierAt, if_pos hp.isRelative, hq.directoryPlace_eq, hp.place_eq,
    Place.componentsFrom_below]

theorem specifierOf_starts (way : List String) :
    "./".toList <+: (specifierOf way).toList ∨ "../".toList <+: (specifierOf way).toList := by
  unfold specifierOf
  split
  · next h => exact .inr (List.isPrefixOf_iff_prefix.mp h)
  · rw [String.toList_append]
    exact .inl (List.prefix_append _ _)

section

variable {way : List String}

theorem wayText_of_ne_nil (h : way ≠ []) : wayText way = "/".intercalate way := by
  cases way with
  | nil => exact absurd rfl h
  | cons part parts => rfl

theorem components_wayText (h : ∀ c ∈ way, '/' ∉ c.toList) :
    components (wayText way).toList = if way = [] then ["."] else way := by
  split
  · next hnil => rw [hnil]; decide
  · next hne => rw [wayText_of_ne_nil hne, components_intercalate hne h]

/-- A specifier has the components of its way, maybe behind a single dot. -/
theorem components_specifierOf (way : List String) :
    components (specifierOf way).toList = components (wayText way).toList ∨
      components (specifierOf way).toList = "." :: components (wayText way).toList := by
  unfold specifierOf
  split
  · exact .inl rfl
  · rw [String.toList_append]
    exact .inr (components_append ['.'] (wayText way).toList)

/-- Whoever follows a specifier goes the way it is written for. -/
theorem follow_specifierOf (h : ∀ c ∈ way, '/' ∉ c.toList) (p : Place) :
    p.follow (components (specifierOf way).toList) = p.follow way := by
  have hway : p.follow (components (wayText way).toList) = p.follow way := by
    rw [components_wayText h]
    split
    · next hnil => rw [hnil]; rfl
    · rfl
  rcases components_specifierOf way with hcomponents | hcomponents
  · rw [hcomponents, hway]
  · rw [hcomponents, Place.follow_cons_dot, hway]

/-- A specifier ends like its way, and with a dot where there is none. -/
theorem getLast?_components_specifierOf (h : ∀ c ∈ way, '/' ∉ c.toList) :
    (components (specifierOf way).toList).getLast? = some (way.getLast?.getD ".") := by
  have hway : (components (wayText way).toList).getLast? = some (way.getLast?.getD ".") := by
    rw [components_wayText h]
    split
    · next hnil => rw [hnil]; rfl
    · next hne => rw [List.getLast?_eq_some_getLast hne]; rfl
  rcases components_specifierOf way with hcomponents | hcomponents
  · rw [hcomponents, hway]
  · rw [hcomponents, List.getLast?_cons, hway]
    rfl

end

/-! ## Characters of specifiers -/

theorem mem_wayText {way : List String} {c : Char} (h : c ∈ (wayText way).toList) :
    c = '.' ∨ c = '/' ∨ ∃ part ∈ way, c ∈ part.toList := by
  by_cases hne : way = []
  · rw [hne] at h
    exact .inl (by simpa [wayText] using h)
  · have hchars : (wayText way).toList = ['/'].intercalate (way.map String.toList) := by
      rw [wayText_of_ne_nil hne, String.toList_intercalate]
      rfl
    have hparts : ∀ a ∈ ['/'].intercalate (way.map String.toList),
        a = '/' ∨ ∃ part ∈ way, a ∈ part.toList := by
      refine Text.forall_mem_intercalate (by simp) fun chars hchars a ha => .inr ?_
      obtain ⟨part, hpart, rfl⟩ := List.mem_map.mp hchars
      exact ⟨part, hpart, ha⟩
    exact .inr (hparts c (hchars ▸ h))

theorem mem_specifierOf {way : List String} {c : Char} (h : c ∈ (specifierOf way).toList) :
    c = '.' ∨ c = '/' ∨ ∃ part ∈ way, c ∈ part.toList := by
  unfold specifierOf at h
  split at h
  · exact mem_wayText h
  · rw [String.toList_append, List.mem_append] at h
    rcases h with h | h
    · have hmarks : c = '.' ∨ c = '/' := by simpa using h
      exact hmarks.imp_right .inl
    · exact mem_wayText h

/-- A specifier is made of characters of its path, dots and slashes. -/
theorem mem_specifierFrom {c : Char} (h : c ∈ (p.specifierFrom importer).toList) :
    c ∈ p.path.toList ∨ c = '.' ∨ c = '/' := by
  rw [← specifierAt_root] at h
  unfold specifierAt at h
  split at h
  · rcases mem_specifierOf h with rfl | rfl | ⟨part, hpart, hc⟩
    · exact .inr (.inl rfl)
    · exact .inr (.inr rfl)
    · rcases Place.mem_componentsFrom hpart with rfl | hname
      · exact .inr (.inl (by simpa using hc))
      · rcases Place.mem_names_follow hname with hroot | hcomponent
        · cases hroot
        · exact .inl (components_subset hcomponent hc)
  · exact .inl h

/-! ## Resolution -/

/-- The path of a place: two dots for each step up, then the names below.  The root is one dot. -/
def placeText (p : Place) : String :=
  wayText (List.replicate p.up ".." ++ p.names)

/-- A relative path without single dots, empty components and components that are taken back. -/
def normalized (path : String) : String :=
  placeText (Place.root.follow (components path.toList))

/-- The text of a specifier behind the directory of the importer. -/
def joined (importer : ImportPath) (specifier : String) : String :=
  String.ofList (directory importer.path.toList) ++ specifier

/-- The path of the module that a relative specifier names in an importer. -/
def resolved (importer : ImportPath) (specifier : String) : ImportPath :=
  ⟨"./" ++ normalized (importer.joined specifier)⟩

/-- Normalized, a specifier that stands behind the directory of its importer is the path below the
root. -/
theorem HasNames.normalized_joined {there here : List String} (hp : p.HasNames there)
    (hq : importer.HasNames here) :
    normalized (importer.joined (p.specifierFrom importer)) = "/".intercalate there := by
  rw [normalized, joined, String.toList_append, String.toList_ofList, hq.follow_directory,
    ← specifierAt_root, hp.specifierAt_eq hq, follow_specifierOf (hp.no_slash_way _)]
  have hreached : (Place.mk 0 here.dropLast).follow _ = ⟨0, there⟩ :=
    Place.follow_componentsFrom hp.isName
  exact (congrArg placeText hreached).trans (wayText_of_ne_nil hp.ne_nil)

theorem resolved_specifierFrom (hp : p.IsNormal) (hq : importer.IsNormal) :
    importer.resolved (p.specifierFrom importer) = p := by
  obtain ⟨there, hp⟩ := hp
  obtain ⟨here, hq⟩ := hq
  rw [resolved, hp.normalized_joined hq, ← hp.path]

/-- In a run with the default paths a module is written under its path below the root. -/
theorem name_of_generate {toGenerate : List String} {ds : List FileDescriptor} {s : Schema}
    {pool : Option (List FileDescriptor)} {parameters : Parameters} {notices : List Notice}
    {gs : List Generated} (hs : Schema.resolve defaultPathRule toGenerate ds = .ok s)
    (hrun : generate s pool parameters = (notices, .ok (.written gs))) :
    List.Forall₂ (fun f g => f.header.importPath.path = "./" ++ fileStem f.header.name ∧
      g.name = fileStem f.header.name ++ ".ts") s.toGenerate gs := by
  obtain ⟨fs, h⟩ := Schema.resolve_ok hs
  obtain ⟨config, customOptions, -, -, hall⟩ := generate_ok hrun
  refine Related.imp_mem (Job.generateAll_ok hall) fun f hf g _ ⟨d, hwrite, hg⟩ => ?_
  obtain ⟨m, hm⟩ := Job.writeModule_ok (Job.allows_all _ _) hwrite
  obtain ⟨df, -, hname, hpath⟩ := h.exists_descriptor (h.toGenerate_subset hf)
  rw [hg, hm.name, hpath, ← hname]
  exact ⟨rfl, rfl⟩

/-- The specifier of a generated module is relative and resolves to the module again, wherever the
generator is run.  So it is the specifier of no other module in the same importer, and what it
resolves to is the name that the module is written under. -/
theorem specifierFrom_resolves (hp : p.IsNormal) (hq : q.IsNormal) :
    ("./".toList <+: (p.specifierFrom q).toList ∨ "../".toList <+: (p.specifierFrom q).toList) ∧
      "./" ++ normalized (q.joined (p.specifierFrom q)) = p.path ∧
      (∀ cwd : Place, specifierAt cwd p q = p.specifierFrom q) ∧
      (∀ p' : ImportPath, p'.IsNormal → p'.specifierFrom q = p.specifierFrom q → p' = p) ∧
      ∀ {toGenerate : List String} {ds : List FileDescriptor} {s : Schema}
        {pool : Option (List FileDescriptor)} {parameters : Parameters} {notices : List Notice}
        {gs : List Generated}, Schema.resolve defaultPathRule toGenerate ds = .ok s →
        generate s pool parameters = (notices, .ok (.written gs)) →
        List.Forall₂ (fun f g => f.header.importPath = p →
          g.name = normalized (q.joined (p.specifierFrom q)) ++ ".ts" ∧
            ∀ stem, f.header.name = stem ++ ".proto" → g.name = stem ++ ".ts") s.toGenerate gs := by
  have hresolved : "./" ++ normalized (q.joined (p.specifierFrom q)) = p.path :=
    congrArg path (resolved_specifierFrom hp hq)
  have hapart (p' : ImportPath) (hp' : p'.IsNormal) (heq : p'.specifierFrom q = p.specifierFrom q) :
      p' = p := by
    rw [← resolved_specifierFrom hp' hq, heq, resolved_specifierFrom hp hq]
  obtain ⟨there, hthere⟩ := hp
  obtain ⟨here, hhere⟩ := hq
  have hroot := hthere.specifierAt_eq hhere Place.root
  refine ⟨?_, hresolved, fun cwd => ?_, hapart, fun hs hrun => ?_⟩
  · rw [← specifierAt_root, hroot]
    exact specifierOf_starts _
  · rw [hthere.specifierAt_eq hhere cwd, ← hroot, specifierAt_root]
  · -- The path of a file to generate is `./` and its name without the ending, so it is resolved too.
    refine (name_of_generate hs hrun).imp fun f g ⟨hpath, hname⟩ hp => ?_
    rw [hp, ← hresolved, String.append_right_inj] at hpath
    rw [hname, hpath]
    exact ⟨rfl, fun stem hstem => by rw [hstem, fileStem_append]⟩

/-- A module that is imported from a directory below, in the run that writes it. -/
theorem specifierFrom_resolves_of_sample :
    IsNormal ⟨"./dir/main"⟩ ∧ IsNormal ⟨"./dir/sub/other"⟩ ∧
      specifierFrom ⟨"./dir/main"⟩ ⟨"./dir/sub/other"⟩ = "../main" ∧
      "./" ++ normalized (joined ⟨"./dir/sub/other"⟩ "../main") = "./dir/main" ∧
      ∃ notices gs, generate Schema.sampleSchema none ⟨[("type_enums", "qualified")]⟩ =
          (notices, .ok (.written gs)) ∧
        List.Forall₂ (fun _ g => g.name = normalized (joined ⟨"./dir/sub/other"⟩ "../main") ++ ".ts")
          Schema.sampleSchema.toGenerate gs := by
  have hp : IsNormal ⟨"./dir/main"⟩ :=
    ⟨["dir", "main"], by decide, by decide +kernel, by decide +kernel⟩
  have hq : IsNormal ⟨"./dir/sub/other"⟩ :=
    ⟨["dir", "sub", "other"], by decide, by decide +kernel, by decide +kernel⟩
  have hspecifier : specifierFrom ⟨"./dir/main"⟩ ⟨"./dir/sub/other"⟩ = "../main" := by
    decide +kernel
  have hwritten : Outcome.isWritten
      (generate Schema.sampleSchema none ⟨[("type_enums", "qualified")]⟩) = true := by
    decide +kernel
  have hpaths : ∀ f ∈ Schema.sampleSchema.toGenerate, f.header.importPath = ⟨"./dir/main"⟩ := by
    decide +kernel
  obtain ⟨notices, gs, hrun⟩ := Outcome.exists_of_isWritten hwritten
  obtain ⟨-, hresolved, -, -, hnames⟩ := specifierFrom_resolves hp hq
  rw [hspecifier] at hresolved
  refine ⟨hp, hq, hspecifier, hresolved, notices, gs, hrun, ?_⟩
  refine Related.imp_mem (hnames Schema.resolve_sample hrun) fun f hf g _ hname => ?_
  rw [← hspecifier]
  exact (hname (hpaths f hf)).1

/-! ## The last component -/

/-- What stands behind the last slash of a path. -/
def lastComponent (path : String) : String :=
  (components path.toList).getLast?.getD ""

/-- The path of a module is a directory on the path of another. -/
def IsAbove (p q : ImportPath) : Prop :=
  ∃ rest, q.path = p.path ++ "/" ++ rest

section

variable {there here : List String}

theorem HasNames.lastComponent_eq (h : p.HasNames names) :
    lastComponent p.path = names.getLast h.ne_nil := by
  rw [lastComponent, h.components_eq, List.getLast?_cons, List.getLast?_eq_some_getLast h.ne_nil]
  rfl

/-- A path stands above another just if its names lead to the directory of the other or to a
directory above that. -/
theorem HasNames.isAbove_iff (hp : p.HasNames there) (hq : q.HasNames here) :
    p.IsAbove q ↔ there <+: here.dropLast := by
  constructor
  · rintro ⟨rest, hrest⟩
    have hcomponents : components q.path.toList =
        components p.path.toList ++ components rest.toList := by
      rw [hrest, String.toList_append, String.toList_append, List.append_assoc]
      exact components_append _ _
    rw [hp.components_eq, hq.components_eq, List.cons_append, List.cons_inj_right] at hcomponents
    have hne : components rest.toList ≠ [] :=
      mt List.map_eq_nil_iff.mp (List.splitOn_ne_nil '/' rest.toList)
    rw [hcomponents, List.dropLast_append_of_ne_nil hne]
    exact List.prefix_append _ _
  · rintro ⟨between, hbetween⟩
    have hsplit : "." :: here = ("." :: there) ++ (between ++ [here.getLast hq.ne_nil]) := by
      rw [← List.append_assoc, List.cons_append, hbetween, List.cons_append,
        List.dropLast_append_getLast]
    refine ⟨"/".intercalate (between ++ [here.getLast hq.ne_nil]), ?_⟩
    rw [hq.path_eq, hp.path_eq, hsplit, String.intercalate_append_of_ne_nil
      (List.cons_ne_nil _ _) (List.append_ne_nil_of_right_ne_nil _ (List.cons_ne_nil _ _))]

theorem HasNames.directory_eq_iff (hp : p.HasNames there) (hq : q.HasNames here) :
    directory q.path.toList = p.path.toList ++ ['/'] ↔ there = here.dropLast := by
  constructor
  · intro h
    have hcomponents := hq.components_directory []
    rw [List.append_nil, h, components_append, hp.components_eq, List.append_left_inj,
      List.cons_inj_right] at hcomponents
    exact hcomponents
  · rintro rfl
    rw [hq.directory_eq, hp.path_eq]

/-- A specifier ends with the last name of the module, unless the path of the module is a directory
on the path of the importer.  Then it ends with a dot, if the importer stands in that directory, or
with two dots. -/
theorem lastComponent_specifierFrom (hp : p.IsNormal) (hq : q.IsNormal) :
    (lastComponent (p.specifierFrom q) = lastComponent p.path ↔ ¬ p.IsAbove q) ∧
      (p.IsAbove q → lastComponent (p.specifierFrom q) =
        if directory q.path.toList = p.path.toList ++ ['/'] then "." else "..") := by
  obtain ⟨there, hthere⟩ := hp
  obtain ⟨here, hhere⟩ := hq
  have hlast : lastComponent (p.specifierFrom q) =
      if there <+: here.dropLast then (if there = here.dropLast then "." else "..")
      else there.getLast hthere.ne_nil := by
    rw [lastComponent, ← specifierAt_root, hthere.specifierAt_eq hhere,
      getLast?_components_specifierOf (hthere.no_slash_way _), Place.getLast?_componentsFrom]
    split
    · split <;> rfl
    · rw [List.getLast?_eq_some_getLast hthere.ne_nil]
      rfl
  have hname : IsName (there.getLast hthere.ne_nil) := hthere.isName _ (List.getLast_mem _)
  rw [hlast, hthere.lastComponent_eq, hthere.isAbove_iff hhere]
  by_cases habove : there <+: here.dropLast
  · rw [if_pos habove]
    refine ⟨iff_of_false ?_ (not_not_intro habove), fun _ => ?_⟩
    · split
      · exact hname.ne_dot.symm
      · exact hname.ne_dots.symm
    · simp only [hthere.directory_eq_iff hhere]
  · rw [if_neg habove]
    exact ⟨iff_of_true rfl habove, fun h => absurd h habove⟩

/-- The module of `a.proto` seen from that of `a/b/c.proto`, and the other way round. -/
theorem lastComponent_specifierFrom_above :
    IsNormal ⟨"./a"⟩ ∧ IsNormal ⟨"./a/b/c"⟩ ∧ IsAbove ⟨"./a"⟩ ⟨"./a/b/c"⟩ ∧
      lastComponent (specifierFrom ⟨"./a"⟩ ⟨"./a/b/c"⟩) = ".." ∧
      lastComponent (specifierFrom ⟨"./a/b/c"⟩ ⟨"./a"⟩) = "c" := by
  have hp : HasNames ⟨"./a"⟩ ["a"] := ⟨by decide, by decide +kernel, by decide +kernel⟩
  have hq : HasNames ⟨"./a/b/c"⟩ ["a", "b", "c"] :=
    ⟨by decide, by decide +kernel, by decide +kernel⟩
  have habove : IsAbove ⟨"./a"⟩ ⟨"./a/b/c"⟩ := (hp.isAbove_iff hq).mpr (by decide)
  have hbelow : ¬ IsAbove ⟨"./a/b/c"⟩ ⟨"./a"⟩ := mt (hq.isAbove_iff hp).mp (by decide)
  refine ⟨⟨_, hp⟩, ⟨_, hq⟩, habove, ?_, ?_⟩
  · rw [(lastComponent_specifierFrom ⟨_, hp⟩ ⟨_, hq⟩).2 habove]
    decide +kernel
  · rw [(lastComponent_specifierFrom ⟨_, hq⟩ ⟨_, hp⟩).1.mpr hbelow]
    decide +kernel

/-- Not every specifier ends with the name of the module: that of `./a` in `./a/b` is `./.`. -/
theorem not_lastComponent_specifierFrom :
    ¬ ∀ p q : ImportPath, p.IsNormal → q.IsNormal → p ≠ q →
      lastComponent (p.specifierFrom q) = lastComponent p.path := by
  intro h
  have hp : IsNormal ⟨"./a"⟩ := ⟨["a"], by decide, by decide +kernel, by decide +kernel⟩
  have hq : IsNormal ⟨"./a/b"⟩ := ⟨["a", "b"], by decide, by decide +kernel, by decide +kernel⟩
  exact absurd (h ⟨"./a"⟩ ⟨"./a/b"⟩ hp hq (by decide)) (by decide +kernel)

end

end ImportPath

end SchemaScript
