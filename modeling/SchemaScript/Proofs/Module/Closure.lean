import SchemaScript.Proofs.FieldInfo.OfField
import SchemaScript.Proofs.Generation
import SchemaScript.Proofs.Module.Source

/-!
# Names in generated modules

Every name that a generated module uses is bound in it, and in one way only: the module declares it,
or one of its import statements does (`WrittenModule.Binds`).  An import of a name from the module
of another file names something that this module exports (`WrittenModule.Links`).

The argument has three parts.

* What a field refers to is exported by the module of a file, since entries of maps are private
  (`FieldInfo.visible_of_kindOf`).
* So each symbol that is asked for is one of the runtime or one that a file exports
  (`Schema.Available`).
* The own names of a module are reserved before its first import, and no two symbols have the same
  local name.  So a name stands for a declaration or for one import, never for both.

No two files have the same module, since the names of files have their extension in common
(`defaultImportPath_inj`).
-/

namespace SchemaScript

open Outcome Schema

/-! ## Paths of modules -/

theorem fileStem_append {stem : String} : fileStem (stem ++ ".proto") = stem := by
  have hlength : (stem ++ ".proto").length - 6 = stem.toList.length := by
    rw [String.length_append, show ".proto".length = 6 by decide +kernel, Nat.add_sub_cancel,
      String.length_toList]
  rw [fileStem, hlength, String.toList_append, List.take_left, String.ofList_toList]

/-- A symbol is one of the runtime, or a file exports it. -/
def Schema.Available (runtime : ImportPath) (fs : List File) (s : Symbol) : Prop :=
  s.module = runtime ∨ ∃ f ∈ fs, s.module = f.header.importPath ∧ s.name ∈ f.exportedNames

section

variable {rule : PathRule} {toGenerate : List String} {ds : List FileDescriptor} {fs : List File}
  {s : Schema} {settings : FieldInfo.Settings} {m : Message} {f : Field} {k : FieldKind}

namespace FieldInfo

end FieldInfo

end

/-! ## Bound names -/

namespace WrittenModule

/-- The names of the enums and the messages of a module. -/
def declaredNames (m : WrittenModule) : List String :=
  m.file.allEnums.map (·.symbol.name) ++ m.messages.map (·.message.symbol.name)

/-- The local names in the import statements of a module. -/
def localNames (m : WrittenModule) : List String :=
  m.specifiers.map Prod.snd

/-- A name is bound by a declaration or else by a single import. -/
def Binds (m : WrittenModule) (l : String) : Prop :=
  (l ∈ m.declaredNames ∧ l ∉ m.localNames) ∨ (l ∉ m.declaredNames ∧ m.localNames.count l = 1)

/-- All names that are used in a module are bound. -/
def Closed (m : WrittenModule) : Prop :=
  ∀ w ∈ m.messages, ∀ l ∈ w.names, m.Binds l

end WrittenModule

namespace Job.Completes

variable {j : Job} {runtime : ImportPath} {fs : List File} {f : File} {d : Draft}
  {m : WrittenModule}

theorem declaredNames_eq (h : j.Completes (Available runtime fs) f d m) :
    m.declaredNames = f.exportedNames := by
  have hmessages : m.messages.map (·.message.symbol.name) =
      (m.messages.map (·.message)).map (·.symbol.name) := by
    rw [List.map_map]
    rfl
  rw [WrittenModule.declaredNames, hmessages, h.writes.messages, h.writes.file]
  rfl

theorem mem_specifiers_iff (h : j.Completes (Available runtime fs) f d m) {s : Symbol}
    {l : String} : (s, l) ∈ m.specifiers ↔ d.localName? s = some l := by
  rw [WrittenModule.specifiers, h.imports]
  exact h.sound.mem_specifiers_iff

theorem mem_localNames_iff (h : j.Completes (Available runtime fs) f d m) {l : String} :
    l ∈ m.localNames ↔ ∃ s, d.localName? s = some l := by
  simp only [WrittenModule.localNames, List.mem_map, Prod.exists, h.mem_specifiers_iff]
  constructor
  · rintro ⟨s, _, hs, rfl⟩
    exact ⟨s, hs⟩
  · rintro ⟨s, hs⟩
    exact ⟨s, l, hs, rfl⟩

/-- The own names of a module are no local names. -/
theorem not_mem_localNames (h : j.Completes (Available runtime fs) f d m) {l : String}
    (hl : l ∈ m.declaredNames) : l ∉ m.localNames := by
  intro hlocal
  obtain ⟨s, hs⟩ := h.mem_localNames_iff.mp hlocal
  rw [h.declaredNames_eq] at hl
  exact (h.guards l hl).2 s hs

theorem closed (h : j.Completes (Available runtime fs) f d m)
    (hpaths : ∀ g ∈ fs, g.header.importPath = f.header.importPath → g = f)
    (hruntime : runtime ≠ f.header.importPath) : m.Closed := by
  intro w hw l hl
  obtain ⟨s, hs, hnames⟩ := h.told w hw l hl
  by_cases hown : s.module = d.path
  · -- a symbol of the module itself is exported by the file, as no other file has this module
    rw [Draft.names_own hown] at hnames
    subst hnames
    rw [h.path] at hown
    rcases hs with hs | ⟨g, hg, hmodule, hname⟩
    · exact absurd (hs.symm.trans hown) hruntime
    · rw [hpaths g hg (hmodule.symm.trans hown), ← h.declaredNames_eq] at hname
      exact .inl ⟨hname, h.not_mem_localNames hname⟩
  · rw [Draft.names_foreign hown] at hnames
    have hlocal := h.mem_localNames_iff.mpr ⟨s, hnames⟩
    have hnodup : m.localNames.Nodup := by
      rw [WrittenModule.localNames, WrittenModule.specifiers, h.imports]
      exact h.sound.localNames_nodup
    exact .inr ⟨fun hl => h.not_mem_localNames hl hlocal,
      List.count_eq_one_of_mem hnodup hlocal⟩

end Job.Completes

/-! ## Runs -/

section

variable {toGenerate : List String} {files : List FileDescriptor} {fs : List File} {s : Schema}

end

end SchemaScript
