import SchemaScript.Generation
import SchemaScript.Proofs.FieldInfo.Agreement
import SchemaScript.Proofs.Module.Alike
import SchemaScript.Proofs.Schema.Qualified

/-!
# Modules of qualified files

Spelling out the references of a schema changes nothing that is generated from it.

A field of the qualified files refers to what it referred to before, up to the references in that
(`Resolves.target?_qualified`), so its information is the same.  A literal looks up the names in the
information, which find the same symbols.  So every message is written by the same edits, those that
fail included, and a run has the same outcome (`Schema.generate_qualified`).
-/

namespace SchemaScript.Schema.Resolves

variable {rule : PathRule} {toGenerate : List String} {ds : List FileDescriptor} {fs : List File}
  {s s' : Schema} {config : Config} {options : Option CustomOptions}

section

variable (h : s.Resolves rule toGenerate ds fs)
  (h' : s'.Resolves rule toGenerate (s.qualifiedFiles ds) (fs.map (File.qualified s)))

include h h'

/-- A field has the information that it had before. -/
theorem ofField_qualified (settings : FieldInfo.Settings) {m : Message}
    (hm : .message m ∈ fs.flatMap File.declared) {f : Field} (hf : f ∈ m.fields) :
    FieldInfo.ofField settings s f = FieldInfo.ofField settings s' (f.qualified s) := by
  refine FieldInfo.ofField_alike (h.alike_qualified h' hm hf) fun e e' he he' => ?_
  have htarget := (FieldInfo.target?_of_entry he).1
  have hentry : e' = e.revised s.qualifying := by
    have htarget' := (FieldInfo.target?_of_entry he').1
    rw [h.target?_qualified h' hm hf, htarget] at htarget'
    exact (Declared.message.inj (Option.some.inj htarget')).symm
  rw [hentry, e.fields_revised, List.forall₂_map_right_iff, List.forall₂_same]
  exact fun a ha => h.alike_qualified h' (h.target_mem hm hf htarget) ha

/-- What a literal looks up has the symbol that it had before. -/
theorem symbol_qualified (t : String) :
    (s.registry.declared? t).map Declared.symbol =
      (s'.registry.declared? t).map Declared.symbol := by
  rw [h.registry, h'.registry, (Registry.RevisedBy.ofFiles s.qualifying fs).declared?,
    Option.map_map]
  exact congrFun (congrArg Option.map (funext fun x => (x.symbol_revised s.qualifying).symm)) _

/-- A message is written as before. -/
theorem writeMessage_qualified {m : Message} (hm : .message m ∈ fs.flatMap File.declared) :
    Job.writeMessage ⟨config, s, options⟩ m =
      Job.writeMessage ⟨config, s', options⟩ (m.revised s.qualifying) := by
  let j : Job := ⟨config, s, options⟩
  let j' : Job := ⟨config, s', options⟩
  have hruntime : j.config.runtime = j'.config.runtime := rfl
  refine Edit.equal.writeMessage hruntime (m.fullName_revised _).symm (m.symbol_revised _).symm
    (m.location_revised _).symm ?_
  rw [m.fields_revised, List.forall₂_map_right_iff, List.forall₂_same]
  refine fun f hf => ⟨rfl, h.ofField_qualified h' _ hm hf, fun i => ?_⟩
  have halike : FieldInfo.Writer.Alike j.writer j'.writer i.kind :=
    ⟨rfl, rfl, fun t _ => h.symbol_qualified h' t⟩
  show j.fieldLiteral f i = j'.fieldLiteral (f.qualified s) i
  unfold Job.fieldLiteral
  rw [FieldInfo.Writer.checkKind_alike halike, FieldInfo.Writer.literal_alike halike]
  rfl

/-- The module for a file is written as before. -/
theorem writeModule_qualified {f : File} (hf : f ∈ fs) :
    Job.writeModule ⟨config, s, options⟩ f (Job.draftFor f) =
      Job.writeModule ⟨config, s', options⟩ (f.qualified s) (Job.draftFor (f.qualified s)) := by
  rw [Job.writeModule_eq, Job.writeModule_eq, Job.opened_revised, f.allEnums_revised,
    f.allMessages_revised, List.length_map, List.length_map]
  refine congrFun (Edit.equal.bind (Edit.equal.each ?_) fun _ => rfl) _
  rw [List.forall₂_map_right_iff, List.forall₂_same]
  exact fun m hm => h.writeMessage_qualified h'
    (List.mem_flatMap.mpr ⟨f, hf, File.mem_declared_of_allMessages hm⟩)

theorem generateAll_qualified {gs : List File} (hgs : gs ⊆ fs) :
    Job.generateAll ⟨config, s, options⟩ gs =
      Job.generateAll ⟨config, s', options⟩ (gs.map (File.qualified s)) := by
  induction gs with
  | nil => rfl
  | cons f rest ih =>
    rw [List.cons_subset] at hgs
    simp only [List.map_cons, Job.generateAll, h.writeModule_qualified h' hgs.1, ih hgs.2]
    rfl

end

end SchemaScript.Schema.Resolves

namespace SchemaScript.Schema

/-- The files of a schema with their references spelled out make a schema as well.  Its fields refer
to the declarations at the same places, and generating from it has the same outcome, whatever the
parameters are, as long as custom options are read alike. -/
theorem generate_qualified {rule : PathRule} {toGenerate : List String} {ds : List FileDescriptor}
    {s : Schema} (hs : resolve rule toGenerate ds = .ok s) :
    ∃ fs s', s.Resolves rule toGenerate ds fs ∧
      resolve rule toGenerate (s.qualifiedFiles ds) = .ok s' ∧
      s'.Resolves rule toGenerate (s.qualifiedFiles ds) (fs.map (File.qualified s)) ∧
      (∀ m, .message m ∈ fs.flatMap File.declared → ∀ f ∈ m.fields,
        (s'.target? (f.qualified s)).map Declared.place = (s.target? f).map Declared.place) ∧
      ∀ pool pool' parameters, pool.mapM CustomOptions.ofFiles = pool'.mapM CustomOptions.ofFiles →
        generate s' pool' parameters = generate s pool parameters := by
  obtain ⟨fs, h⟩ := resolve_ok hs
  obtain ⟨s', hs', h'⟩ := h.qualified
  refine ⟨fs, s', h, hs', h', fun m hm f hf => ?_, fun pool pool' parameters hpool => ?_⟩
  · rw [h.target?_qualified h' hm hf, Option.map_map]
    exact congrFun (congrArg Option.map (funext (Declared.place_qualified s))) _
  · simp only [generate, hpool, h.toGenerate_qualified h',
      h.generateAll_qualified h' h.toGenerate_subset]

/-- A file whose references are relative: to a message in a message, where one at the top has the
same name, and to the same message by two components of its name. -/
def sampleRelative : FileDescriptor :=
  sampleFile "relative.proto" "p" []
    [sampleMessage "Leaf" false [] [],
      sampleMessage "Tree" false
        [sampleField "leaf" 1 1 11 (some "Leaf"), sampleField "leaves" 2 3 11 (some "Tree.Leaf"),
          sampleField "size" 3 1 4 none]
        [sampleMessage "Leaf" false [sampleField "up" 1 1 11 (some "Tree")] []]] []

/-- A file that declares a message of the other file anew. -/
def sampleAnew : FileDescriptor :=
  sampleFile "anew.proto" "p.Tree" ["relative.proto"] [sampleMessage "Leaf" false [] []] []

theorem generate_qualified_of_sample :
    ∃ s s', resolve defaultPathRule ["relative.proto"] [sampleRelative, sampleAnew] = .ok s ∧
      (s.qualifiedFiles [sampleRelative, sampleAnew]).map (fun d =>
          (MessageDescriptor.allFieldsWithin d.messages).map FieldDescriptor.typeName) =
        [[some ".p.Tree.Leaf", some ".p.Tree.Leaf", none, some ".p.Tree"], []] ∧
      resolve defaultPathRule ["relative.proto"]
        (s.qualifiedFiles [sampleRelative, sampleAnew]) = .ok s' ∧
      generate s' none ⟨[]⟩ = generate s none ⟨[]⟩ := by
  have hreferences : (resolve defaultPathRule ["relative.proto"]
      [sampleRelative, sampleAnew]).toOption.map (fun s =>
        (s.qualifiedFiles [sampleRelative, sampleAnew]).map (fun d =>
          (MessageDescriptor.allFieldsWithin d.messages).map FieldDescriptor.typeName)) =
      some [[some ".p.Tree.Leaf", some ".p.Tree.Leaf", none, some ".p.Tree"], []] := by
    decide +kernel
  cases hs : resolve defaultPathRule ["relative.proto"] [sampleRelative, sampleAnew] with
  | error cause =>
    rw [hs] at hreferences
    cases hreferences
  | ok s =>
    rw [hs] at hreferences
    obtain ⟨_, s', _, hs', _, _, hsame⟩ := generate_qualified hs
    exact ⟨s, s', rfl, Option.some.inj hreferences, hs', hsame none none ⟨[]⟩ rfl⟩

end SchemaScript.Schema
