import SchemaScript.Proofs.Module.Source
import SchemaScript.Proofs.Schema.Visible
import SchemaScript.Proofs.Text.Lines

/-!
# Export statements

Which lines of a module export something.

A line exports something if it starts with the word `export` and a blank.  In the lines of an enum
or of a message only one does, the one that declares it: comments start with a slash or a blank, the
members of an enum are moved to the right, and what a name brings along stands behind the first word
of its line.  So the exporting lines of a module are the declarations of the enums of its file and
after them those of its messages (`WrittenModule.filter_isExport`).

Together with what is collected from a file this tells that the module exports each declaration of
the file once (`Schema.writeModule_exports`).
-/

namespace SchemaScript

/-! ## Exporting lines -/

/-- Whether a line exports something. -/
def isExport (line : String) : Bool :=
  "export ".toList.isPrefixOf line.toList

/-- The line that declares an enum. -/
def enumDeclaration (e : Enum) : String :=
  Text.indent 0 ("export enum " ++ e.symbol.name ++ " \x7b")

theorem isExport_of_head? {line : String} (h : ∀ c ∈ line.toList.head?, c ≠ 'e') :
    isExport line = false := by
  cases hline : line.toList with
  | nil => rw [isExport, hline]; rfl
  | cons c rest =>
    have hc : ('e' == c) = false := by
      have hne := h c (by rw [hline]; rfl)
      simpa using hne.symm
    rw [isExport, hline]
    exact Bool.and_eq_false_iff.mpr (.inl hc)

/-- A line that starts with a stretch of its own is no export if that stretch starts otherwise. -/
theorem isExport_indent_zero {p : String} (hp : Text.isLine p = true)
    (hne : p ≠ "") (hhead : p.toList.head? ≠ some 'e') (s : String) :
    isExport (Text.indent 0 (p ++ s)) = false := by
  obtain ⟨rest, hrest⟩ := Text.indent_zero_append hp hne s
  refine isExport_of_head? fun c hc => ?_
  rw [hrest, String.toList_append] at hc
  cases hchars : p.toList with
  | nil => exact absurd (String.toList_eq_nil_iff.mp hchars) hne
  | cons a as =>
    rw [hchars] at hc hhead
    rintro rfl
    exact hhead hc

theorem isExport_indent {width : Nat} (hwidth : 0 < width) (s : String) :
    isExport (Text.indent width s) = false := by
  refine isExport_of_head? fun c hc => ?_
  rcases Text.head?_indent hwidth s c hc with rfl | rfl <;> decide

/-- A line exports something if the stretch that it starts with does. -/
theorem isExport_indent_of_export {p : String} (hp : Text.isLine p = true)
    (hexport : isExport p = true) (s : String) : isExport (Text.indent 0 (p ++ s)) = true := by
  have hne : p ≠ "" := by
    rintro rfl
    exact absurd hexport (by decide)
  obtain ⟨rest, hrest⟩ := Text.indent_zero_append hp hne s
  rw [isExport, List.isPrefixOf_iff_prefix] at hexport ⊢
  rw [hrest, String.toList_append]
  exact hexport.trans (List.prefix_append _ _)

/-! ## Parts of a module -/

theorem filter_isExport_docText (location : Location) (origin : String) :
    ((docText location origin).map (Text.indent 0)).filter isExport = [] := by
  have hline {p : String} (hp : p = "/**" ∨ p = " *") (s : String) :
      isExport (Text.indent 0 (p ++ s)) = false := by
    rcases hp with rfl | rfl
    · exact isExport_indent_zero (by decide) (by decide) (by decide) s
    · exact isExport_indent_zero (by decide) (by decide) (by decide) s
  have hdoc (line : String) : isExport (Text.indent 0 (docLine line)) = false := by
    unfold docLine
    split
    · exact hline (.inr rfl) ""
    · rw [show " * " = " *" ++ " " from rfl, String.append_assoc]
      exact hline (.inr rfl) _
  rw [List.filter_eq_nil_iff]
  intro line hmem
  obtain ⟨text, htext, rfl⟩ := List.mem_map.mp hmem
  rw [Bool.not_eq_true]
  simp only [docText, List.mem_append, List.mem_singleton, List.mem_map] at htext
  rcases htext with (rfl | ⟨l, _, rfl⟩) | rfl
  · exact hline (.inl rfl) ""
  · exact hdoc l
  · exact hline (.inr rfl) "/"

theorem filter_isExport_enumLines (e : Enum) :
    (enumLines e).filter isExport = [enumDeclaration e] := by
  have hvalues : ((e.values.flatMap (enumValueLines e)).map (Text.indent 4)).filter isExport = [] := by
    rw [List.filter_eq_nil_iff]
    intro line hmem
    obtain ⟨text, _, rfl⟩ := List.mem_map.mp hmem
    rw [isExport_indent (by decide)]
    decide
  have hdeclared : isExport (enumDeclaration e) = true := by
    rw [enumDeclaration, String.append_assoc]
    exact isExport_indent_of_export (by decide) (by decide) _
  have hfirst : [""].filter isExport = [] := by decide
  have hlast : ["\x7d"].filter isExport = [] := by decide
  have hline : [enumDeclaration e].filter isExport = [enumDeclaration e] := by simp [hdeclared]
  rw [enumLines, List.filter_append, List.filter_append, List.filter_append, List.filter_append,
    filter_isExport_docText, hvalues, hfirst, hlast, ← enumDeclaration, hline, List.nil_append,
    List.nil_append, List.append_nil, List.append_nil]

theorem WrittenMessage.filter_isExport_lines (w : WrittenMessage) :
    w.lines.filter isExport = [Text.indent 0 w.declaration] := by
  have hdeclared : isExport (Text.indent 0 w.declaration) = true := by
    unfold declaration
    simp only [String.append_assoc]
    exact isExport_indent_of_export (by decide) (by decide) _
  have hfirst : [""].filter isExport = [] := by decide
  have hline : [Text.indent 0 w.declaration].filter isExport = [Text.indent 0 w.declaration] := by
    simp [hdeclared]
  rw [WrittenMessage.lines, List.filter_append, List.filter_append, filter_isExport_docText, hfirst,
    hline, List.nil_append, List.nil_append]

theorem filter_isExport_headerLines (f : File) : (headerLines f).filter isExport = [] := by
  have hnamed : isExport (Text.indent 0
      ("// @generated by protoc-gen-protots from " ++ f.header.name)) = false :=
    isExport_indent_zero (by decide) (by decide) (by decide) _
  have hplain : isExport (Text.indent 0 "// tslint:disable") = false := by decide
  rw [headerLines, List.filter_cons_of_neg (by simp [hnamed]),
    List.filter_cons_of_neg (by simp [hplain]), List.filter_nil]

theorem isExport_importStatement (importer module : ImportPath) (names : Table String String) :
    isExport (Draft.importStatement importer module names) = false := by
  refine isExport_of_head? fun c hc => ?_
  simp only [Draft.importStatement, String.toList_append] at hc
  rintro rfl
  cases hc

/-- The exporting lines of a module are the declarations of its enums and then of its messages. -/
theorem WrittenModule.filter_isExport (m : WrittenModule) :
    m.lines.filter isExport = m.file.allEnums.map enumDeclaration ++
      m.messages.map fun w => Text.indent 0 w.declaration := by
  have himports : (m.imports.entries.map fun e =>
      Draft.importStatement m.file.header.importPath e.1 e.2).filter isExport = [] := by
    rw [List.filter_eq_nil_iff]
    intro line hline
    obtain ⟨e, _, rfl⟩ := List.mem_map.mp hline
    rw [isExport_importStatement]
    decide
  rw [WrittenModule.lines, List.filter_append, List.filter_append, List.filter_append,
    filter_isExport_headerLines, himports, List.filter_flatMap, List.filter_flatMap,
    List.map_eq_flatMap, List.map_eq_flatMap]
  simp only [filter_isExport_enumLines, WrittenMessage.filter_isExport_lines, List.nil_append]

/-! ## Modules of a schema -/

namespace Schema

variable {rule : PathRule} {toGenerate : List String} {ds : List FileDescriptor} {s : Schema}

/-- Every file of a resolved schema is collected once, and a module that is written for it, whatever
the job, exports just what is collected, each declaration once and under its name. -/
theorem writeModule_exports (hs : resolve rule toGenerate ds = .ok s) :
    ∃ fs, s.Resolves rule toGenerate ds fs ∧ ∀ f ∈ fs, f.CollectsOnce ∧
      ∀ (j : Job) d, j.writeModule f (Job.draftFor f) = (.ok (), d) →
        ∃ ws : List WrittenMessage, ws.map (·.message) = f.allMessages ∧
          d.allLines.filter isExport = f.allEnums.map enumDeclaration ++
            ws.map fun w => Text.indent 0 w.declaration := by
  obtain ⟨fs, hfs⟩ := resolve_ok hs
  refine ⟨fs, hfs, fun f hf => ⟨?_, fun j d hd => ?_⟩⟩
  · obtain ⟨i, a, _, ha⟩ := Outcome.exists_of_mem_eachFrom hfs.declared hf
    exact File.collectsOnce ha
  · obtain ⟨m, hm⟩ := Job.writeModule_ok (j.allows_all _) hd
    refine ⟨m.messages, hm.writes.messages, ?_⟩
    rw [hm.lines, m.filter_isExport, hm.writes.file]

/-- Of the two messages of a file one is the entry of a map, and its module exports the other. -/
theorem writeModule_exports_of_sample :
    ∃ f ∈ sampleSchema.toGenerate, f.CollectsOnce ∧ f.declared.length = 2 ∧
      ∃ d, Job.writeModule ⟨.default, sampleSchema, none⟩ f (Job.draftFor f) = (.ok (), d) ∧
        (d.allLines.filter isExport).length = 1 := by
  have hfacts : sampleSchema.toGenerate.map (fun f =>
      ((Job.writeModule ⟨.default, sampleSchema, none⟩ f (Job.draftFor f)).1.isOk,
        f.declared.length, f.allEnums.length, f.allMessages.length)) = [(true, 2, 0, 1)] := by
    decide +kernel
  obtain ⟨f, hf, hfact⟩ := List.map_eq_singleton_iff.mp hfacts
  simp only [Prod.mk.injEq] at hfact
  obtain ⟨hok, hdeclared, henums, hmessages⟩ := hfact
  have hmem : f ∈ sampleSchema.toGenerate := by rw [hf]; exact List.mem_singleton_self f
  obtain ⟨fs, hfs, hall⟩ := writeModule_exports resolve_sample
  obtain ⟨hcollects, hwrites⟩ := hall f (hfs.toGenerate_subset hmem)
  obtain ⟨_, d, hrun⟩ := Edit.exists_of_isOk hok
  obtain ⟨ws, hws, hlines⟩ := hwrites _ d hrun
  have hlength := congrArg List.length hws
  rw [List.length_map, hmessages] at hlength
  refine ⟨f, hmem, hcollects, hdeclared, d, hrun, ?_⟩
  rw [hlines, List.length_append, List.length_map, List.length_map, henums, hlength]

end Schema

end SchemaScript
