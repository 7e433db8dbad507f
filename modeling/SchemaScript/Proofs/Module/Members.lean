import SchemaScript.Proofs.FieldInfo.EnumType
import SchemaScript.Proofs.Module.Source
import SchemaScript.Proofs.Number.Layout
import SchemaScript.Proofs.Schema.Stems
import SchemaScript.Proofs.Text.Lines

/-!
# Members of enums

What is left of a written enum without its documentation comments.

A documentation comment goes from a line that opens it to the next line that closes it, and
`uncommented` drops these lines and all between.  A comment that the generator writes is closed by
its last line and by no line before (`uncommented_docText`), whatever the schema has in it.  What is
left of an enum is the line that opens it, one line for each of its members and the closing brace
(`writeEnum_members`), provided that the names of its values are single lines.
-/

namespace SchemaScript

open Edit (Prints)

/-! ## Leaving out comments -/

/-- Whether a line opens a documentation comment. -/
def opensComment (line : String) : Bool :=
  line.toList.dropWhile (· == ' ') == "/**".toList

/-- Whether a line closes a documentation comment. -/
def closesComment (line : String) : Bool :=
  line.toList.dropWhile (· == ' ') == "*/".toList

/-- Lines without their documentation comments.  The flag tells whether one is open. -/
def uncommented : Bool → List String → List String
  | _, [] => []
  | true, line :: rest => uncommented (!closesComment line) rest
  | false, line :: rest =>
    if opensComment line then uncommented true rest else line :: uncommented false rest

theorem dropWhile_blanks (width : Nat) (s : String) :
    (Text.blanks width ++ s).toList.dropWhile (· == ' ') = s.toList.dropWhile (· == ' ') := by
  rw [String.toList_append, Text.blanks, String.toList_ofList]
  induction width with
  | zero => rfl
  | succ width ih => simp [List.replicate_succ, ih]

/-- A line that ends otherwise opens no comment. -/
theorem opensComment_of_getLast? {line : String} (h : line.toList.getLast? ≠ some '*') :
    opensComment line = false := by
  rw [opensComment, beq_eq_false_iff_ne]
  intro hline
  have hsplit := List.takeWhile_append_dropWhile (p := (· == ' ')) (l := line.toList)
  rw [hline] at hsplit
  rw [← hsplit] at h
  exact h (by simp)

theorem uncommented_cons {line : String} (h : opensComment line = false) (rest : List String) :
    uncommented false (line :: rest) = line :: uncommented false rest := by
  rw [uncommented, h]
  rfl

theorem uncommented_opened {line : String} (h : opensComment line = true) (rest : List String) :
    uncommented false (line :: rest) = uncommented true rest := by
  rw [uncommented, h]
  rfl

theorem uncommented_inside {line : String} (h : closesComment line = false) (rest : List String) :
    uncommented true (line :: rest) = uncommented true rest := by
  rw [uncommented, h]
  rfl

theorem uncommented_closed {line : String} (h : closesComment line = true) (rest : List String) :
    uncommented true (line :: rest) = uncommented false rest := by
  rw [uncommented, h]
  rfl

theorem closesComment_docLine (width : Nat) (line : String) :
    closesComment (Text.indent width (docLine line)) = false := by
  have hstar (s : String) : closesComment (Text.blanks width ++ " * " ++ s) = false := by
    rw [closesComment, String.append_assoc, dropWhile_blanks, String.toList_append]
    rfl
  unfold docLine
  split
  · rw [Text.indent_of_no_end (by decide) (by decide), closesComment,
      dropWhile_blanks]
    rfl
  · obtain ⟨rest, hrest⟩ := Text.indent_append (p := " * ") (by decide) (by decide)
      width (Text.commentText line)
    rw [hrest, hstar]

/-- A documentation comment is left out to its last line. -/
theorem uncommented_docText (location : Location) (origin : String) (width : Nat)
    (rest : List String) :
    uncommented false ((docText location origin).map (Text.indent width) ++ rest) =
      uncommented false rest := by
  have hopens : opensComment (Text.indent width "/**") = true := by
    rw [Text.indent_of_no_end (by decide) (by decide), opensComment,
      dropWhile_blanks]
    rfl
  have hcloses : closesComment (Text.indent width " */") = true := by
    rw [Text.indent_of_no_end (by decide) (by decide), closesComment,
      dropWhile_blanks]
    rfl
  have hinside (lines : List String) :
      uncommented true ((lines.map docLine).map (Text.indent width) ++
        Text.indent width " */" :: rest) = uncommented false rest := by
    induction lines with
    | nil => exact uncommented_closed hcloses rest
    | cons line lines ih =>
      rw [List.map_cons, List.map_cons, List.cons_append,
        uncommented_inside (closesComment_docLine width line), ih]
  rw [docText, List.map_append, List.map_append, List.append_assoc, List.append_assoc,
    List.map_singleton, List.map_singleton, List.singleton_append, List.singleton_append,
    uncommented_opened hopens, hinside]

/-! ## Enums -/

/-- The line of a member of an enum. -/
def memberLine (width : Nat) (m : String × Int) : String :=
  Text.blanks width ++ m.1 ++ " = " ++ intText m.2 ++ ","

/-- The name of a member has only characters of the name of its value. -/
theorem Enum.memberName_subset (e : Enum) (v : EnumValue) :
    (e.memberName v).toList ⊆ v.name.toList := by
  unfold memberName
  split
  · rw [String.toList_ofList]
    exact List.drop_subset _ _
  · exact List.Subset.refl _

theorem indent_member (e : Enum) {v : EnumValue} (hv : Text.isLine v.name = true) (width : Nat) :
    Text.indent width (e.memberName v ++ " = " ++ intText v.number ++ ",") =
      memberLine width (e.memberName v, v.number) := by
  have hname : Text.isLine (e.memberName v) = true :=
    Text.isLine_iff.mpr fun c hc => Text.isLine_iff.mp hv c (e.memberName_subset v hc)
  have hline : Text.isLine (e.memberName v ++ " = " ++ intText v.number ++ ",") = true := by
    rw [Text.isLine_append, Text.isLine_append, Text.isLine_append, hname,
      (isFullLine_intText _).single]
    rfl
  have hne : e.memberName v ++ " = " ++ intText v.number ++ "," ≠ "" := by simp
  rw [Text.indent_of_no_end hline hne, memberLine]
  simp only [String.append_assoc]

theorem opensComment_memberLine (width : Nat) (m : String × Int) :
    opensComment (memberLine width m) = false := by
  refine opensComment_of_getLast? ?_
  rw [memberLine, String.toList_append, show ",".toList = [','] from rfl, List.getLast?_concat]
  decide

theorem uncommented_values (e : Enum) {values : List EnumValue}
    (hvalues : ∀ v ∈ values, Text.isLine v.name = true) (width : Nat)
    (rest : List String) :
    uncommented false ((values.flatMap (enumValueLines e)).map (Text.indent width) ++ rest) =
      values.map (fun v => memberLine width (e.memberName v, v.number)) ++
        uncommented false rest := by
  induction values with
  | nil => rfl
  | cons v values ih =>
    rw [List.flatMap_cons, enumValueLines, List.map_append, List.map_append, List.append_assoc,
      List.append_assoc, uncommented_docText, List.map_singleton,
      indent_member e (hvalues v List.mem_cons_self), List.singleton_append,
      uncommented_cons (opensComment_memberLine _ _),
      ih fun w hw => hvalues w (List.mem_cons_of_mem _ hw)]
    rfl

/-- The lines of an enum at an indentation, without comments. -/
def Enum.plainLines (e : Enum) (level : Nat) : List String :=
  ["", Text.indent level ("export enum " ++ e.symbol.name ++ " \x7b")] ++
    e.members.map (memberLine (level + 4)) ++ [Text.indent level "\x7d"]

/-- An enum is written without fail, and without comments it is its members in order. -/
theorem writeEnum_members (e : Enum)
    (hvalues : ∀ v ∈ e.values, Text.isLine v.name = true) (d : Draft) :
    ∃ lines, writeEnum e d = (.ok (), { d with lines := d.lines ++ lines }) ∧
      uncommented false lines = e.plainLines d.level := by
  have hblank : opensComment (Text.indent d.level "") = false :=
    opensComment_of_getLast? (by simp [Text.indent, Text.lines, Text.splitLines])
  have hopening : opensComment
      (Text.indent d.level ("export enum " ++ e.symbol.name ++ " \x7b")) = false := by
    obtain ⟨rest, hrest⟩ := Text.indent_append (p := "export enum ") (by decide)
      (by decide) d.level (e.symbol.name ++ " \x7b")
    rw [String.append_assoc, hrest, opensComment, String.append_assoc, dropWhile_blanks,
      String.toList_append]
    rfl
  have hclosing : opensComment (Text.indent d.level "\x7d") = false := by
    rw [Text.indent_of_no_end (by decide) (by decide), opensComment,
      dropWhile_blanks]
    rfl
  refine ⟨_, writeEnum_printsAt e d, ?_⟩
  rw [uncommented_cons hblank, uncommented_docText, uncommented_cons hopening,
    uncommented_values e hvalues, uncommented_cons hclosing, Enum.plainLines, Enum.members,
    List.map_map]
  rfl

/-! ## Enums of a schema -/

namespace Schema

variable {rule : PathRule} {toGenerate : List String} {ds : List FileDescriptor} {fs : List File}
  {s : Schema}

theorem Resolves.exists_enumDescriptor (h : s.Resolves rule toGenerate ds fs) {e : Enum}
    (he : .enum e ∈ fs.flatMap File.declared) :
    ∃ d ∈ ds, ∃ ed, (e.fullName, ed) ∈ d.namedEnums ∧ e.MembersFit ed := by
  obtain ⟨f, hf, he⟩ := List.mem_flatMap.mp he
  obtain ⟨j, d, hd, hfile⟩ := Outcome.exists_of_mem_eachFrom h.declared hf
  obtain ⟨⟨n, ed⟩, hmem, hname, _, _, _, hmade⟩ :=
    Related.exists_left (File.declare_namedEnums hfile) (File.mem_declaredEnums.mpr he)
  exact ⟨d, hd, ed, by rwa [hname], Enum.membersFit hmade⟩

/-- The members of each enum of a schema and the literals of the fields that refer to it agree on
the stem: the members are the values without it, and each literal has it. -/
theorem members_agree (hs : resolve rule toGenerate ds = .ok s) :
    ∃ fs, s.Resolves rule toGenerate ds fs ∧
      (∀ e, .enum e ∈ fs.flatMap File.declared →
        (∃ d ∈ ds, ∃ ed, (e.fullName, ed) ∈ d.namedEnums ∧ e.MembersFit ed) ∧
        ((∀ v ∈ e.values, Text.isLine v.name = true) →
          ∀ draft, ∃ lines,
            writeEnum e draft = (.ok (), { draft with lines := draft.lines ++ lines }) ∧
            uncommented false lines = e.plainLines draft.level)) ∧
      ∀ f ∈ fs, ∀ (j : Job) draft, j.schema = s →
        j.writeModule f (Job.draftFor f) = (.ok (), draft) →
        ∃ module, j.Writes f module ∧ draft.content = module.text ∧
          ∀ w ∈ module.messages, List.Forall₂ (fun field literal => ∀ e,
            s.valueEnum? field = some e → .enum e ∈ fs.flatMap File.declared ∧
              ∃ elements, literal.enumArray? = some elements ∧
                elements[2]? = e.sharedStem.map Expr.text) w.message.fields w.fields := by
  obtain ⟨fs, hfs⟩ := resolve_ok hs
  refine ⟨fs, hfs, fun e he => ⟨hfs.exists_enumDescriptor he, writeEnum_members e⟩, ?_⟩
  rintro f hf j draft rfl hwrite
  obtain ⟨module, hm⟩ := Job.writeModule_ok (j.allows_all _) hwrite
  refine ⟨module, hm.writes, hm.content, fun w hw => ?_⟩
  have hmem : w.message ∈ f.allMessages := by
    rw [← hm.writes.messages]
    exact List.mem_map.mpr ⟨w, hw, rfl⟩
  have hdeclared : .message w.message ∈ fs.flatMap File.declared :=
    List.mem_flatMap.mpr ⟨f, hf, File.mem_declared_of_allMessages hmem⟩
  refine Related.imp_mem (hm.writes.literals w hw) fun field hfield literal _ hliteral e he => ?_
  obtain ⟨i, d₁, d₂, hi, hl⟩ := hliteral
  exact FieldInfo.literal_enumArray hfs hdeclared hfield he hi hl

/-- The values of an enum share a stem, which its members go without and a literal in the module of
another file has. -/
theorem members_agree_of_sample :
    ∃ fs e, sampleSchema.Resolves defaultPathRule ["dir/main.proto"] [sampleBase, sampleMain] fs ∧
      .enum e ∈ fs.flatMap File.declared ∧ e.members = [("RED", 0), ("BLUE", 1)] ∧
      (∃ lines, writeEnum e (.new "" ⟨""⟩) = (.ok (), { Draft.new "" ⟨""⟩ with lines := lines }) ∧
        uncommented false lines = e.plainLines 0) ∧
      ∃ f ∈ fs, ∃ module, Job.Writes ⟨.default, sampleSchema, none⟩ f module ∧
        ∃ w ∈ module.messages, ∃ literal ∈ w.fields, ∃ elements,
          literal.enumArray? = some elements ∧ elements[2]? = some (.text "COLOR_") := by
  obtain ⟨fs, hfs, henums, hmodules⟩ := members_agree resolve_sample
  have hregistered : (sampleSchema.registry.enums.get? "p.Color").map (fun e =>
      (e.members, e.values.all fun v => Text.isLine v.name)) =
      some ([("RED", 0), ("BLUE", 1)], true) := by decide +kernel
  obtain ⟨e, he, hfacts⟩ := Option.map_eq_some_iff.mp hregistered
  obtain ⟨hmembers, hvalues⟩ := Prod.mk.inj hfacts
  have hmem : .enum e ∈ fs.flatMap File.declared := by
    rw [hfs.registry] at he
    exact ((Registry.covers_ofFiles fs).only _ (.enum e) he).1
  obtain ⟨lines, hlines, hplain⟩ :=
    (henums e hmem).2 (List.all_eq_true.mp hvalues) (.new "" ⟨""⟩)
  refine ⟨fs, e, hfs, hmem, hmembers, ⟨lines, hlines, hplain⟩, ?_⟩
  have hwritten : sampleSchema.toGenerate.map (fun f =>
      ((Job.writeModule ⟨.default, sampleSchema, none⟩ f (Job.draftFor f)).1.isOk,
        f.allMessages.map fun m => m.fields.map fun field =>
          (sampleSchema.valueEnum? field).map Enum.sharedStem)) =
      [(true, [[some (some "COLOR_"), none, none, none]])] := by decide +kernel
  obtain ⟨f, hf, hfact⟩ := List.map_eq_singleton_iff.mp hwritten
  obtain ⟨hok, hfields⟩ := Prod.mk.inj hfact
  have hfile : f ∈ fs := hfs.toGenerate_subset (by rw [hf]; exact List.mem_singleton_self f)
  obtain ⟨_, d, hrun⟩ := Edit.exists_of_isOk hok
  obtain ⟨module, hwrites, _, hliterals⟩ := hmodules f hfile _ d rfl hrun
  obtain ⟨m, hm, hstems⟩ := List.map_eq_singleton_iff.mp hfields
  obtain ⟨field, rest, hsplit, hstem, _⟩ := List.map_eq_cons_iff.mp hstems
  obtain ⟨color, hcolor, hcolorStem⟩ := Option.map_eq_some_iff.mp hstem
  have hmessages := hwrites.messages
  rw [hm] at hmessages
  obtain ⟨w, hw, rfl⟩ := List.map_eq_singleton_iff.mp hmessages
  have hwmem : w ∈ module.messages := by rw [hw]; exact List.mem_singleton_self w
  obtain ⟨literal, hliteral, harray⟩ := Related.exists_right (hliterals w hwmem)
    (show field ∈ w.message.fields by rw [hsplit]; exact List.mem_cons_self)
  obtain ⟨_, elements, helements, hthird⟩ := harray color hcolor
  refine ⟨f, hfile, module, hwrites, w, hwmem, literal, hliteral, elements, helements, ?_⟩
  rw [hthird, hcolorStem]
  rfl

end Schema

end SchemaScript
