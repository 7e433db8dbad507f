import SchemaScript.Proofs.FieldInfo.Agreement
import SchemaScript.Proofs.Generation
import SchemaScript.Proofs.Module.Alike

/-!
# Modules in other requests

The module for a file is the same in all requests that have the file and what it refers to.

One request has the files of another, perhaps in another order, and more of them.  Each may generate
modules for other files as well.  All references are absolute.  Then a module that both answer has
the same name and the same content in both (`generate_independent`).

What is written first, up to the messages, depends on the file alone (`Job.writeModule_eq`).  Each
message is then written by the same edits, since its fields have the same information in both
schemas and refer to like declarations.  An edit of the larger run does what the one of the smaller
run does whenever that one succeeds (`Edit.following`).  Only a success tells that the references
were found, and that is why the two runs are not compared when they fail.
-/

namespace SchemaScript

open Outcome Schema

/-! ## Writing messages -/

/-- A check that succeeds has found what the kind refers to. -/
theorem FieldInfo.Writer.declared_of_checkKind {w : Writer} {referrer : String} {k : FieldKind}
    {d d' : Draft} (h : w.checkKind referrer k d = (.ok (), d')) {t : String}
    (ht : k.typeName? = some t) : ∃ x, w.registry.declared? t = some x := by
  have hreference (h : w.checkReference t referrer d = (.ok (), d')) :
      ∃ x, w.registry.declared? t = some x := by
    cases hx : w.registry.declared? t with
    | some x => exact ⟨x, rfl⟩
    | none =>
      simp only [checkReference, hx] at h
      obtain ⟨_, _, _, h⟩ := Edit.bind_eq_ok_iff.mp h
      exact absurd h Edit.not_fail_eq_ok
  have hvalue {v : FieldKind} (h : w.checkValueKind referrer v d = (.ok (), d'))
      (hv : v.isMap = false) (ht : v.typeName? = some t) :
      ∃ x, w.registry.declared? t = some x := by
    cases v with
    | scalar type long => cases ht
    | enumeration t' stem => cases ht; exact hreference h
    | message t' => cases ht; exact hreference h
    | map key value => cases hv
  cases k with
  | map key value =>
    simp only [checkKind] at h
    split at h
    · exact absurd h Edit.not_fail_eq_ok
    · next hv => exact hvalue h (Bool.eq_false_iff.mpr hv) ht
  | scalar type long => exact hvalue (v := .scalar type long) h rfl ht
  | enumeration t' stem => exact hvalue (v := .enumeration t' stem) h rfl ht
  | message t' => exact hvalue (v := .message t') h rfl ht

namespace Job

/-- A job has the configuration of another one, and finds at least what that one finds. -/
structure Extends (j' j : Job) : Prop where
  config : j.config = j'.config
  customOptions : j.customOptions = j'.customOptions
  found : ∀ t x, j.schema.registry.declared? t = some x →
    ∃ x', j'.schema.registry.declared? t = some x' ∧ x'.unplaced = x.unplaced

variable {j j' : Job} {d d' : Draft}

theorem Extends.settings_eq (h : j'.Extends j) : j.settings = j'.settings := by
  rw [settings, settings, h.config, h.customOptions]

theorem fieldLiteral_follows (h : j'.Extends j) {f f' : Field} (hff' : f.unplaced = f'.unplaced)
    (i : FieldInfo) : Edit.following.Alike (j.fieldLiteral f i) (j'.fieldLiteral f' i) := by
  intro d e d' hd
  obtain ⟨_, d₁, hcheck, _⟩ := Edit.bind_eq_ok_iff.mp hd
  have hconfig := h.config
  have halike : FieldInfo.Writer.Alike j.writer j'.writer i.kind := by
    refine ⟨congrArg Config.runtime hconfig, congrArg Config.inlined hconfig, fun t ht => ?_⟩
    obtain ⟨x, hx⟩ := FieldInfo.Writer.declared_of_checkKind hcheck ht
    obtain ⟨x', hx', hlike⟩ := h.found t x hx
    rw [show j.writer.registry.declared? t = some x from hx,
      show j'.writer.registry.declared? t = some x' from hx', Option.map_some, Option.map_some,
      view_eq_of_forget Declared.unplaced Declared.symbol (Declared.symbol_revised _) hlike]
  have hdescriptor := view_eq_of_forget Field.unplaced Field.descriptor (fun _ => rfl) hff'
  unfold fieldLiteral at hd ⊢
  rw [FieldInfo.Writer.checkKind_alike halike, FieldInfo.Writer.literal_alike halike,
    hdescriptor] at hd
  exact hd

/-- Messages with the same information for their fields are written alike. -/
theorem writeMessage_follows (h : j'.Extends j) {m m' : Message}
    (hmm' : m.unplaced = m'.unplaced)
    (hfields : List.Forall₂ (fun f f' => f.unplaced = f'.unplaced ∧
      FieldInfo.ofField j.settings j.schema f = FieldInfo.ofField j.settings j'.schema f')
      m.fields m'.fields) :
    Edit.following.Alike (j.writeMessage m) (j'.writeMessage m') := by
  refine Edit.following.writeMessage (congrArg Config.runtime h.config)
    (view_eq_of_forget Message.unplaced Message.fullName (Message.fullName_revised _) hmm')
    (view_eq_of_forget Message.unplaced Message.symbol (Message.symbol_revised _) hmm')
    (view_eq_of_forget Message.unplaced Message.location (Message.location_revised _) hmm')
    (hfields.imp fun f f' ⟨hff', hinfo⟩ => ?_)
  exact ⟨view_eq_of_forget Field.unplaced Field.fullName (fun _ => rfl) hff',
    h.settings_eq ▸ hinfo, fieldLiteral_follows h hff'⟩

/-- Modules for like files are written alike if their messages are. -/
theorem writeModule_follows {f f' : File} (hff' : f.unplaced = f'.unplaced)
    (hmessages : List.Forall₂
      (fun m m' => Edit.following.Alike (j.writeMessage m) (j'.writeMessage m'))
      f.allMessages f'.allMessages) (h : j.writeModule f (draftFor f) = (.ok (), d)) :
    j'.writeModule f' (draftFor f') = (.ok (), d) := by
  have hopened : opened f = opened f' :=
    view_eq_of_forget File.unplaced opened (opened_revised _) hff'
  have henums : f.allEnums.length = f'.allEnums.length := by
    have hlength := congrArg (fun g : File => g.allEnums.length) hff'
    simpa only [File.allEnums_revised, List.length_map] using hlength
  rw [writeModule_eq, henums, hmessages.length_eq, hopened] at h
  rw [writeModule_eq]
  exact Edit.following.bind (Edit.following.each hmessages) (fun _ => Edit.following.refl _) _ _ _ h

end Job

/-! ## Runs -/

/-- The module that an answer has for a file. -/
def Schema.moduleFor? (s : Schema) (answer : List Generated) (fileName : String) :
    Option Generated :=
  ((s.toGenerate.zip answer).find? fun p => p.1.header.name = fileName).map Prod.snd

section

variable {rule : PathRule} {toGenerate toGenerate' : List String} {ds ds' : List FileDescriptor}
  {fs fs' : List File} {s s' : Schema}

/-- A file to be generated is among those that are. -/
theorem Schema.Resolves.mem_toGenerate (h : s.Resolves rule toGenerate ds fs) {d : FileDescriptor}
    (hd : d ∈ ds) (hgen : d.name ∈ toGenerate) :
    ∃ index, ∃ f ∈ s.toGenerate, f ∈ fs ∧ f.header.name = d.name ∧
      File.declare rule toGenerate index d = .ok f := by
  obtain ⟨index, f, hf, hmade⟩ := exists_of_mem_of_eachFrom h.declared hd
  have hheader := (File.of_declare hmade).1
  refine ⟨index, f, ?_, hf, by rw [hheader]; rfl, hmade⟩
  rw [h.generated]
  refine List.mem_filter.mpr ⟨hf, ?_⟩
  rw [hheader]
  exact decide_eq_true hgen

/-- An answer has for a file what was written for it. -/
theorem Schema.Resolves.moduleFor?_eq (h : s.Resolves rule toGenerate ds fs)
    (hn : (ds.map FileDescriptor.name).Nodup) {j : Job} {notices : List Notice}
    {gs : List Generated} (hall : j.generateAll s.toGenerate = (notices, .ok gs)) {f : File}
    (hf : f ∈ s.toGenerate) :
    ∃ d, j.writeModule f (Job.draftFor f) = (.ok (), d) ∧
      s.moduleFor? gs f.header.name = some ⟨d.name, d.content⟩ := by
  have hnames : (s.toGenerate.map (·.header.name)).Nodup := by
    rw [h.generated]
    refine List.Nodup.sublist (List.filter_sublist.map _) ?_
    rw [h.fileNames]
    exact hn
  obtain ⟨g, ⟨d, hd, rfl⟩, hfind⟩ := Related.find?_zip (Job.generateAll_ok hall) hnames hf
  exact ⟨d, hd, hfind⟩

/-- The messages of like files are written alike. -/
theorem Job.writeMessages_follow {j j' : Job} (hj : j'.Extends j)
    (h : Within rule toGenerate toGenerate' ds ds' fs fs' j.schema j'.schema) {f f' : File}
    (hf : f ∈ fs) (hf' : f' ∈ fs') (hff' : f.unplaced = f'.unplaced) :
    List.Forall₂ (fun m m' => Edit.following.Alike (j.writeMessage m) (j'.writeMessage m'))
      f.allMessages f'.allMessages := by
  have hmessages : f.allMessages.map Message.unplaced = f'.allMessages.map Message.unplaced :=
    ((f.allMessages_revised .unplaced).symm.trans (congrArg File.allMessages hff')).trans
      (f'.allMessages_revised .unplaced)
  refine Related.imp_mem (Related.of_map_eq hmessages) fun m hm m' hm' hmm' => ?_
  refine writeMessage_follows hj hmm' (FieldInfo.ofField_eq_of_like h ?_ ?_ hmm')
  · exact List.mem_flatMap.mpr ⟨f, hf, File.mem_declared_of_allMessages hm⟩
  · exact List.mem_flatMap.mpr ⟨f', hf', File.mem_declared_of_allMessages hm'⟩

/-- If two requests have a file and all that it needs, and their runs answer modules, then the
modules for the file are the same. -/
theorem generate_independent (hs : resolve rule toGenerate ds = .ok s)
    (hs' : resolve rule toGenerate' ds' = .ok s') (hsub : ds ⊆ ds')
    (hn : (ds.map FileDescriptor.name).Nodup) (hn' : (ds'.map FileDescriptor.name).Nodup)
    (hd : (ds.flatMap FileDescriptor.declaredNames).Nodup)
    (hd' : (ds'.flatMap FileDescriptor.declaredNames).Nodup)
    (habs : FileDescriptor.AbsoluteReferences ds) {d : FileDescriptor} (hmem : d ∈ ds)
    (hgen : d.name ∈ toGenerate) (hgen' : d.name ∈ toGenerate') {parameters : Parameters}
    {notices notices' : List Notice} {gs gs' : List Generated}
    (hrun : generate s none parameters = (notices, .ok (.written gs)))
    (hrun' : generate s' none parameters = (notices', .ok (.written gs'))) :
    ∃ g, s.moduleFor? gs d.name = some g ∧ s'.moduleFor? gs' d.name = some g := by
  obtain ⟨fs, hfs⟩ := resolve_ok hs
  obtain ⟨fs', hfs'⟩ := resolve_ok hs'
  have h : Within rule toGenerate toGenerate' ds ds' fs fs' s s' := ⟨hfs, hfs', hsub, hd, hd', habs⟩
  obtain ⟨config, customOptions, hconfig, hoptions, hall⟩ := generate_ok hrun
  obtain ⟨config', customOptions', hconfig', hoptions', hall'⟩ := generate_ok hrun'
  rw [hconfig] at hconfig'
  cases hconfig'
  cases hoptions
  cases hoptions'
  obtain ⟨index, f, hf, hffs, hname, hmade⟩ := hfs.mem_toGenerate hmem hgen
  obtain ⟨index', f', hf', hffs', hname', hmade'⟩ :=
    hfs'.mem_toGenerate (hsub hmem) hgen'
  have hlike : f.unplaced = f'.unplaced := File.declare_unplaced hmade hmade'
  obtain ⟨draft, hwritten, hfound⟩ := hfs.moduleFor?_eq hn hall hf
  obtain ⟨draft', hwritten', hfound'⟩ := hfs'.moduleFor?_eq hn' hall' hf'
  have hextends : Job.Extends ⟨config, s', none⟩ ⟨config, s, none⟩ :=
    ⟨rfl, rfl, fun t x hx => h.declared?_like hx⟩
  have hsame := Job.writeModule_follows hlike
    (Job.writeMessages_follow hextends h hffs hffs' hlike) hwritten
  have hdraft : draft = draft' := congrArg Prod.snd (hsame.symm.trans hwritten')
  rw [hname] at hfound
  rw [hname'] at hfound'
  exact ⟨_, hfound, hdraft ▸ hfound'⟩

/-- A file that the small schema does without. -/
def sampleOther : FileDescriptor :=
  sampleFile "other.proto" "" [] [sampleMessage "Other" false [] []] []

theorem generate_independent_of_sample :
    ∃ s s' gs gs' notices notices',
      resolve defaultPathRule ["dir/main.proto"] [sampleBase, sampleMain] = .ok s ∧
      resolve defaultPathRule ["other.proto", "dir/main.proto"]
        [sampleOther, sampleBase, sampleMain] = .ok s' ∧
      generate s none ⟨[]⟩ = (notices, .ok (.written gs)) ∧
      generate s' none ⟨[]⟩ = (notices', .ok (.written gs')) ∧
      ∃ g, s.moduleFor? gs "dir/main.proto" = some g ∧
        s'.moduleFor? gs' "dir/main.proto" = some g := by
  have hanswers : Outcome.isWritten (generate sampleSchema none ⟨[]⟩) = true := by decide +kernel
  have hanswers' : (resolve defaultPathRule ["other.proto", "dir/main.proto"]
      [sampleOther, sampleBase, sampleMain]).toOption.map
        (fun s => Outcome.isWritten (generate s none ⟨[]⟩)) = some true := by decide +kernel
  cases hs' : resolve defaultPathRule ["other.proto", "dir/main.proto"]
      [sampleOther, sampleBase, sampleMain] with
  | error cause =>
    rw [hs'] at hanswers'
    cases hanswers'
  | ok s' =>
    rw [hs'] at hanswers'
    obtain ⟨notices, gs, hrun⟩ := Outcome.exists_of_isWritten hanswers
    obtain ⟨notices', gs', hrun'⟩ := Outcome.exists_of_isWritten (Option.some.inj hanswers')
    refine ⟨sampleSchema, s', gs, gs', notices, notices', resolve_sample, rfl, hrun, hrun', ?_⟩
    exact generate_independent (d := sampleMain) resolve_sample hs' (List.subset_cons_self _ _)
      (by decide +kernel) (by decide +kernel) (by decide +kernel) (by decide +kernel)
      (by unfold FileDescriptor.AbsoluteReferences; decide +kernel) (by simp)
      (by decide +kernel) (by decide +kernel) hrun hrun'

end

end SchemaScript
