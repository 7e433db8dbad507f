import SchemaScript.Module.Writing
import SchemaScript.Proofs.FieldInfo.Names
import SchemaScript.Proofs.Related
import SchemaScript.Proofs.Schema.Exports

/-!
# The text of a module

What the module for a file looks like, apart from how it was written.

A `WrittenModule` has the imports of a module and its messages, each with the local name of the
runtime class that it is made with and with the literals for its fields.  The enums are those that
the file exports.  `WrittenModule.text` is the text that all this makes.

`Job.writeModule_ok` says that the module for a file is such a text, whenever it is written.  Along
the way it takes the names of what the file exports before anything else (`Draft.Guards`), adds no
imports but allowed ones, and asks for allowed names only.
-/

namespace SchemaScript

open Edit (Prints Asks)
open Draft (Told)

/-! ## Lines -/

/-- The lines of a documentation comment. -/
def docText (location : Location) (origin : String) : List String :=
  ["/**"] ++ (docLines location origin).map docLine ++ [" */"]

/-- The lines of a value of an enum. -/
def enumValueLines (e : Enum) (v : EnumValue) : List String :=
  docText v.location ("protobuf enum value: " ++ v.name ++ " = " ++ intText v.number ++ ";") ++
    [e.memberName v ++ " = " ++ intText v.number ++ ","]

/-- The lines of an enum. -/
def enumLines (e : Enum) : List String :=
  [""] ++ (docText e.location ("protobuf enum " ++ e.fullName)).map (Text.indent 0) ++
    [Text.indent 0 ("export enum " ++ e.symbol.name ++ " \x7b")] ++
    (e.values.flatMap (enumValueLines e)).map (Text.indent 4) ++ ["\x7d"]

/-- The lines before the import statements. -/
def headerLines (f : File) : List String :=
  [Text.indent 0 ("// @generated by protoc-gen-protots from " ++ f.header.name),
    Text.indent 0 "// tslint:disable"]

/-- A message as it stands in a module. -/
structure WrittenMessage where
  message : Message
  /-- The local name of the runtime class that the message is made with. -/
  runtimeClass : String
  /-- The literals for the fields. -/
  fields : List Expr

namespace WrittenMessage

/-- The declaration of a message. -/
def declaration (m : WrittenMessage) : String :=
  "export const " ++ m.message.symbol.name ++ " = new " ++ m.runtimeClass ++ "(" ++
    Text.quoted m.message.fullName ++ ", " ++ (Expr.array m.fields true).print "" ++ ");"

/-- The lines of a message. -/
def lines (m : WrittenMessage) : List String :=
  [""] ++ (docText m.message.location ("protobuf message " ++ m.message.fullName)).map
    (Text.indent 0) ++ [Text.indent 0 m.declaration]

/-- The names that a message asks its module for. -/
def names (m : WrittenMessage) : List String :=
  m.runtimeClass :: m.fields.flatMap Expr.names

end WrittenMessage

/-- A module as it was written for a file. -/
structure WrittenModule where
  file : File
  /-- The local names of the imported symbols, by module and exported name. -/
  imports : Table ImportPath (Table String String)
  messages : List WrittenMessage

namespace WrittenModule

/-- The lines of a module. -/
def lines (m : WrittenModule) : List String :=
  headerLines m.file ++
    m.imports.entries.map (fun e => Draft.importStatement m.file.header.importPath e.1 e.2) ++
    (m.file.allEnums.flatMap enumLines ++ m.messages.flatMap WrittenMessage.lines)

/-- The text of a module. -/
def text (m : WrittenModule) : String :=
  "\n".intercalate m.lines ++ "\n"

/-- The imported symbols with their local names. -/
def specifiers (m : WrittenModule) : List (Symbol × String) :=
  Draft.specifiersOf m.imports

end WrittenModule

/-! ## Writing lines -/

theorem writeLines_prints (lines : List String) :
    (writeLines lines).Prints fun level => lines.map (Text.indent level) := by
  have h := Prints.each (fun line => Prints.write [line]) lines
  simp only [String.join_cons, String.join_nil, String.append_empty] at h
  have hmap : (fun level => lines.map (Text.indent level)) =
      fun level => lines.flatMap fun line => [Text.indent level line] := by
    funext level
    rw [List.map_eq_flatMap]
  rw [hmap]
  exact h

theorem writeDoc_prints (location : Location) (origin : String) :
    (writeDoc location origin).Prints fun level =>
      (docText location origin).map (Text.indent level) :=
  writeLines_prints _

theorem writeEnumValue_prints (e : Enum) (v : EnumValue) :
    (writeEnumValue e v).Prints fun level => (enumValueLines e v).map (Text.indent level) := by
  have h := (writeDoc_prints v.location
    ("protobuf enum value: " ++ v.name ++ " = " ++ intText v.number ++ ";")).bind
    (Prints.write [e.memberName v, " = ", intText v.number, ","])
  intro d
  refine (h d).trans ?_
  simp [enumValueLines, String.join_cons, String.append_assoc]

/-- An enum is written as its lines, at whatever indentation. -/
theorem writeEnum_printsAt (e : Enum) :
    (writeEnum e).Prints fun level =>
      Text.indent level "" :: ((docText e.location ("protobuf enum " ++ e.fullName)).map
          (Text.indent level) ++
        Text.indent level ("export enum " ++ e.symbol.name ++ " \x7b") ::
        ((e.values.flatMap (enumValueLines e)).map (Text.indent (level + 4)) ++
          [Text.indent level "\x7d"])) := by
  have h := (Prints.write []).bind <|
    (writeDoc_prints e.location ("protobuf enum " ++ e.fullName)).bind <|
    (Prints.write ["export enum ", e.symbol.name, " \x7b"]).bind <|
    ((Prints.each (writeEnumValue_prints e) e.values).indented 4).bind (Prints.write ["\x7d"])
  intro d
  refine (h d).trans ?_
  simp [String.join_cons, String.append_assoc, List.map_flatMap]

theorem writeEnum_prints (e : Enum) (d : Draft) (hd : d.level = 0) :
    writeEnum e d = (.ok (), { d with lines := d.lines ++ enumLines e }) := by
  have hempty : Text.indent 0 "" = "" := by decide +kernel
  have hclosing : Text.indent 0 "\x7d" = "\x7d" := by decide +kernel
  refine (writeEnum_printsAt e d).trans ?_
  rw [hd]
  simp [enumLines, hempty, hclosing]

/-! ## Writing messages -/

/-- An expression is written as the literal for a field. -/
def Job.IsLiteral (j : Job) (f : Field) (e : Expr) : Prop :=
  ∃ i d d', FieldInfo.ofField j.settings j.schema f = .ok i ∧ j.writer.literal i d = (.ok e, d')

/-- What may be asked for while the module for a file is written. -/
structure Job.Allows (j : Job) (allowed : Symbol → Prop) (messages : List Message) : Prop where
  runtimeClass : allowed ⟨j.config.runtime, "MessageType"⟩
  fields : ∀ m ∈ messages, ∀ f ∈ m.fields, ∀ i,
    FieldInfo.ofField j.settings j.schema f = .ok i → j.writer.Allows allowed i.kind

namespace Job

variable {j : Job} {allowed : Symbol → Prop} {d d' : Draft}

/-- Anything may be asked for where nothing is known of the schema. -/
theorem allows_all (j : Job) (messages : List Message) : j.Allows (fun _ => True) messages :=
  ⟨trivial, fun _ _ _ _ _ _ => ⟨fun _ => trivial, fun _ _ _ _ => trivial⟩⟩

theorem describeFields_asks (settings : FieldInfo.Settings) (s : Schema) (fields : List Field)
    (d : Draft) :
    Asks allowed (fun is => is.flatMap fun _ => []) (describeFields settings s fields) d := by
  refine Asks.collect (fun f _ d => ?_) d
  refine (Asks.outcome _).bind fun i d₁ _ _ => ?_
  refine (Asks.each (fun n _ d => .tell n) d₁).bind fun _ d₂ _ _ => ?_
  exact .pure nofun

theorem forall₂_collect {α β : Type} {f : α → Edit β} {items : List α} {bs : List β}
    (h : Edit.collect f items d = (.ok bs, d')) :
    List.Forall₂ (fun a b => ∃ d₁ d₂, f a d₁ = (.ok b, d₂)) items bs := by
  induction items generalizing d bs with
  | nil => cases h; exact .nil
  | cons a rest ih =>
    simp only [Edit.collect, Edit.bind_eq_ok_iff, Edit.pure_eq_ok_iff] at h
    obtain ⟨b, d₁, ha, bs', d₂, hrest, rfl, rfl⟩ := h
    exact .cons ⟨d, d₁, ha⟩ (ih hrest)

theorem forall₂_describeFields {settings : FieldInfo.Settings} {s : Schema} {fields : List Field}
    {is : List FieldInfo} (h : describeFields settings s fields d = (.ok is, d')) :
    List.Forall₂ (fun f i => FieldInfo.ofField settings s f = .ok i) fields is := by
  refine (forall₂_collect h).imp fun f i ⟨d₁, d₂, hfi⟩ => ?_
  simp only [Edit.bind_eq_ok_iff, Edit.pure_eq_ok_iff, Edit.ofExcept_eq_ok_iff] at hfi
  obtain ⟨i', _, ⟨hi', _⟩, _, _, _, rfl, _⟩ := hfi
  exact hi'

theorem fieldLiteral_ok {f : Field} {i : FieldInfo} {e : Expr}
    (h : j.fieldLiteral f i d = (.ok e, d')) : ∃ d₁ d₂, j.writer.literal i d₁ = (.ok e, d₂) := by
  obtain ⟨_, d₁, _, h⟩ := Edit.bind_eq_ok_iff.mp h
  split at h
  · exact ⟨d₁, d', h⟩
  · cases h

theorem fieldLiteral_asks {i : FieldInfo} (hi : j.writer.Allows allowed i.kind) (f : Field)
    (d : Draft) : Asks allowed Expr.names (j.fieldLiteral f i) d := by
  unfold fieldLiteral
  refine (FieldInfo.Writer.checkKind_asks i.kind i.name d).bind fun _ d₁ _ _ => ?_
  split
  · exact FieldInfo.Writer.literal_asks hi d₁
  · exact .fail _

/-- The line with the declaration of a message. -/
theorem writeDeclaration_ok {m : Message} {fields : List Expr} {s : Symbol} (hs : allowed s)
    (h : Edit.write [.text "export const ", .text m.symbol.name, .text " = new ", .symbol s,
      .text "(", .text (Text.quoted m.fullName), .text ", ", .expr (.array fields true),
      .text ");"] d = (.ok (), d')) :
    ∃ l, d.Grows allowed [Text.indent d.level (WrittenMessage.declaration ⟨m, l, fields⟩)] d' ∧
      Told allowed d' l := by
  obtain ⟨line, c, hspell, rfl⟩ := Draft.write_eq_ok_iff.mp h
  have hrequest : d.Grows allowed [] (d.request s).2 := .request d hs
  have htold := Draft.told_request d hs
  rcases hs' : d.request s with ⟨l, c'⟩
  rw [hs'] at hrequest htold
  change d.Grows allowed [] c' at hrequest
  change Told allowed c' l at htold
  cases hprint : (Expr.array fields true).written "" with
  | error cause => simp [Draft.spell, hs', hprint, Except.map] at hspell
  | ok text =>
    simp only [Draft.spell, hs', hprint, Except.map, Prod.mk.injEq, Except.ok.injEq] at hspell
    obtain ⟨hline, rfl⟩ := hspell
    have htext : text = (Expr.array fields true).print "" := by
      unfold Expr.written at hprint
      split at hprint
      · exact (Except.ok.inj hprint).symm
      · cases hprint
    have hdeclaration : line = WrittenMessage.declaration ⟨m, l, fields⟩ := by
      unfold WrittenMessage.declaration
      subst htext
      rw [← hline]
      simp only [String.append_assoc, String.append_empty]
    have hadd : c'.Grows allowed [Text.indent c'.level line]
      { c' with lines := c'.lines ++ [Text.indent c'.level line] } := .addLines c' _
    rw [hrequest.level, hdeclaration] at hadd
    rw [hrequest.level, hdeclaration]
    exact ⟨l, hrequest.trans hadd, htold.leads hadd.leads⟩

/-- A message is written as its declaration, for which only allowed names are asked for. -/
theorem writeMessage_ok {messages : List Message} (hj : j.Allows allowed messages) {m : Message}
    (hm : m ∈ messages) (hd : d.level = 0) (h : j.writeMessage m d = (.ok (), d')) :
    ∃ w : WrittenMessage, w.message = m ∧ List.Forall₂ j.IsLiteral m.fields w.fields ∧
      d.Grows allowed w.lines d' ∧ ∀ l ∈ w.names, Told allowed d' l := by
  simp only [writeMessage, Edit.bind_eq_ok_iff] at h
  obtain ⟨_, d₁, hblank, _, d₂, hdoc, infos, d₃, hinfos, fields, d₄, hfields, hline⟩ := h
  have hblank' : d.Grows allowed [""] d₁ := by
    have hgrows : d.Grows allowed [Text.indent d.level (String.join [])] d₁ :=
      (Prints.write []).grows hblank
    rwa [hd, show Text.indent 0 (String.join []) = "" by decide +kernel] at hgrows
  have hdoc' : d₁.Grows allowed _ d₂ := (writeDoc_prints m.location _).grows hdoc
  rw [hblank'.level, hd] at hdoc'
  have hdescribed := forall₂_describeFields hinfos
  have hinfos' : d₂.Grows allowed [] d₃ := ((describeFields_asks _ _ _ d₂).of_ok hinfos).1
  have hasks : Asks allowed (fun es => es.flatMap Expr.names)
      (Edit.collect (fun e => j.fieldLiteral e.1 e.2) (m.fields.zip infos)) d₃ := by
    refine Asks.collect (fun e he d => ?_) d₃
    have hi := List.forall₂_zip hdescribed he
    exact fieldLiteral_asks (hj.fields m hm e.1 (List.of_mem_zip he).1 e.2 hi) e.1 d
  obtain ⟨hfields', htold⟩ := hasks.of_ok hfields
  have hliterals : List.Forall₂ j.IsLiteral m.fields fields := by
    refine (Related.of_zip hdescribed (forall₂_collect hfields)).imp fun f e h => ?_
    obtain ⟨i, hi, _, _, he⟩ := h
    obtain ⟨d₁, d₂, hliteral⟩ := fieldLiteral_ok he
    exact ⟨i, d₁, d₂, hi, hliteral⟩
  obtain ⟨runtimeClass, hline', hclass⟩ := writeDeclaration_ok hj.runtimeClass hline
  have hgrows := ((hblank'.trans hdoc').trans_silent (hinfos'.trans_silent hfields'))
  rw [hgrows.level, hd] at hline'
  refine ⟨⟨m, runtimeClass, fields⟩, rfl, hliterals, hgrows.trans hline', fun l hl => ?_⟩
  rcases List.mem_cons.mp hl with rfl | hl
  · exact hclass
  · exact (htold l hl).leads hline'.leads

/-- Messages in a row are written as their declarations. -/
theorem writeMessages_ok {all : List Message} (hj : j.Allows allowed all) {messages : List Message}
    (hall : messages ⊆ all) (hd : d.level = 0)
    (h : Edit.each j.writeMessage messages d = (.ok (), d')) :
    ∃ ws : List WrittenMessage, ws.map (·.message) = messages ∧
      (∀ w ∈ ws, List.Forall₂ j.IsLiteral w.message.fields w.fields) ∧
      d.Grows allowed (ws.flatMap WrittenMessage.lines) d' ∧
      ∀ w ∈ ws, ∀ l ∈ w.names, Told allowed d' l := by
  induction messages generalizing d with
  | nil =>
    obtain ⟨_, rfl⟩ := Edit.pure_eq_ok_iff.mp h
    exact ⟨[], rfl, nofun, .refl d, nofun⟩
  | cons m rest ih =>
    simp only [Edit.each, Edit.bind_eq_ok_iff] at h
    obtain ⟨_, d₁, hm, hrest⟩ := h
    obtain ⟨w, rfl, hliterals, hgrows, htold⟩ := writeMessage_ok hj (hall List.mem_cons_self) hd hm
    obtain ⟨ws, hws, hliterals', hgrows', htold'⟩ :=
      ih (fun n hn => hall (List.mem_cons_of_mem _ hn)) (hgrows.level.trans hd) hrest
    refine ⟨w :: ws, by rw [List.map_cons, hws], List.forall_mem_cons.mpr ⟨hliterals, hliterals'⟩,
      hgrows.trans hgrows', fun v hv l hl => ?_⟩
    rcases List.mem_cons.mp hv with rfl | hv
    · exact (htold l hl).leads hgrows'.leads
    · exact htold' v hv l hl

/-! ## Writing modules -/

theorem reserveAll_apply (names : List String) (d : Draft) :
    Edit.each Edit.reserve names d = (.ok (), { d with taken := names.reverse ++ d.taken }) := by
  induction names generalizing d with
  | nil => rfl
  | cons n rest ih =>
    refine (ih (d.reserve n)).trans ?_
    simp [Draft.reserve]

theorem writeEnums_apply (enums : List Enum) (d : Draft) (hd : d.level = 0) :
    Edit.each writeEnum enums d =
      (.ok (), { d with lines := d.lines ++ enums.flatMap enumLines }) := by
  induction enums generalizing d with
  | nil => simp [Edit.each, Edit.pure_apply]
  | cons e rest ih =>
    refine (Edit.bind_of_ok (writeEnum_prints e d hd) _).trans ?_
    refine (ih { d with lines := d.lines ++ enumLines e } hd).trans ?_
    simp

/-- The draft of a module at its first message. -/
def opened (f : File) : Draft :=
  { draftFor f with
    lines := headerLines f ++ f.allEnums.flatMap enumLines
    mark := some (headerLines f).length
    taken := f.exportedNames.reverse }

/-- All that is written before the messages does not depend on anything but the file. -/
theorem writeModule_eq (j : Job) (f : File) :
    j.writeModule f (draftFor f) = (do
      Edit.each j.writeMessage f.allMessages
      let name ← Edit.view Draft.name
      Edit.tell (.completed name f.allEnums.length f.allMessages.length)) (opened f) := by
  refine (Edit.bind_of_ok (reserveAll_apply f.exportedNames _) _).trans ?_
  refine (Edit.bind_of_ok (Prints.write ["// @generated by protoc-gen-protots from ",
    f.header.name] _) _).trans ?_
  refine (Edit.bind_of_ok (Prints.write ["// tslint:disable"] _) _).trans ?_
  refine (Edit.bind_of_ok (Edit.change_apply Draft.markImports _) _).trans ?_
  refine (Edit.bind_of_ok (writeEnums_apply f.allEnums _ rfl) _).trans ?_
  simp [opened, draftFor, Draft.new, Draft.markImports, headerLines, String.join_cons]

/-- A module has the messages of a file with the literals for their fields. -/
structure Writes (j : Job) (f : File) (module : WrittenModule) : Prop where
  file : module.file = f
  messages : module.messages.map (·.message) = f.allMessages
  literals : ∀ m ∈ module.messages, List.Forall₂ j.IsLiteral m.message.fields m.fields

/-- A draft in which a module is written. -/
structure Completes (j : Job) (allowed : Symbol → Prop) (f : File) (d : Draft)
    (module : WrittenModule) : Prop where
  writes : j.Writes f module
  imports : module.imports = d.imports
  name : d.name = fileStem f.header.name ++ ".ts"
  path : d.path = f.header.importPath
  lines : d.allLines = module.lines
  sound : d.Sound
  guards : d.Guards f.exportedNames
  told : ∀ m ∈ module.messages, ∀ l ∈ m.names, Told allowed d l
  imported : ∀ s l, d.localName? s = some l → allowed s

theorem Completes.content {f : File} {module : WrittenModule} (h : j.Completes allowed f d module) :
    d.content = module.text := by
  rw [Draft.content, h.lines, WrittenModule.text]

/-- Whenever the module for a file is written, it is a text as above.  It imports allowed symbols
only, and the names of its own declarations are no local names in it. -/
theorem writeModule_ok {f : File} (hj : j.Allows allowed f.allMessages)
    (h : j.writeModule f (draftFor f) = (.ok (), d)) :
    ∃ module, j.Completes allowed f d module := by
  rw [writeModule_eq] at h
  obtain ⟨_, d₁, hmessages, h⟩ := Edit.bind_eq_ok_iff.mp h
  obtain ⟨name, d₂, hview, htell⟩ := Edit.bind_eq_ok_iff.mp h
  cases hview
  cases htell
  obtain ⟨ws, hws, hliterals, hgrows, htold⟩ := writeMessages_ok hj (List.Subset.refl _) rfl hmessages
  have hnone (s : Symbol) : (opened f).localName? s = none := by
    rw [Draft.localName?_eq_bind]
    rfl
  have hguards : (opened f).Guards f.exportedNames :=
    Draft.guards_of_no_imports hnone fun n hn => List.mem_reverse.mpr hn
  have hsound : (opened f).Sound :=
    (Draft.sound_new (draftFor f).name (draftFor f).path).congr rfl rfl (List.nil_subset _)
  have hleads := hgrows.leads.tell (.completed d₁.name f.allEnums.length f.allMessages.length)
  refine ⟨⟨f, d₁.imports, ws⟩, ⟨rfl, hws, hliterals⟩, rfl, hleads.name_eq, hleads.path_eq, ?_,
    hleads.sound hsound, hleads.guards hguards, fun w hw l hl => ?_, fun s l hl => ?_⟩
  · have hpath : d₁.path = f.header.importPath := hgrows.leads.path_eq
    have hmark : d₁.mark = some (headerLines f).length := hgrows.mark
    have hlines : d₁.lines = headerLines f ++ (f.allEnums.flatMap enumLines ++
        ws.flatMap WrittenMessage.lines) := by
      rw [hgrows.lines, ← List.append_assoc]
      rfl
    simp only [Draft.allLines, Draft.importStatements, WrittenModule.lines, hmark, hlines, hpath,
      List.take_left, List.drop_left]
  · exact (htold w hw l hl).leads (Draft.Leads.refl.tell _)
  · exact hgrows.imported s l hl (hnone s)

end Job

end SchemaScript
