import TreeMerge.Proofs.Command.FrontEnds

/-!
# What a merge command leaves behind

A run that fails has one of a few causes, and all of them come before its first effect: it has
printed nothing, and the disk is as it was. A run that returns has written the text to the output
file, if there is one, and has printed at most once.

* `MergeRequest.Exit` : the causes of failure;
* `MergeRequest.exit_of_settle`, `MergeRequest.exit_of_texts`, `MergeRequest.exit_of_trees`,
  `MergeRequest.exit_of_outcome` : each step fails for one of them;
* `MergeRequest.Delivered` : what a run that returns leaves behind;
* `runMerge_effects` : one or the other.
-/

namespace TreeMerge

theorem Except.cases_of_bind_eq_error {ε α β : Type} {x : Except ε α} {f : α → Except ε β} {e : ε}
    (h : x.bind f = .error e) : x = .error e ∨ ∃ a, x = .ok a ∧ f a = .error e := by
  cases x with
  | error e' => exact .inl (congrArg Except.error (Except.error.inj h))
  | ok a => exact .inr ⟨a, rfl, h⟩

theorem Except.of_mapError_eq_error {ε ε' α : Type} {x : Except ε α} {f : ε → ε'} {e' : ε'}
    (h : x.mapError f = .error e') : ∃ e, x = .error e ∧ e' = f e := by
  cases x with
  | error e => exact ⟨e, rfl, (Except.error.inj h).symm⟩
  | ok a => cases h

/-- The texts of the versions that there are. -/
def VersionTexts.all (t : VersionTexts) : List Text :=
  [t.baseline, t.modified] ++ t.patched.toList

namespace MergeRequest

/-! ## Causes of failure -/

/-- The files that a command reads. -/
def files (r : MergeRequest) : List Text :=
  [r.baseline, r.modified] ++ (given r.patched).toList ++ (given r.patch).toList

/-- Why a command fails. -/
inductive Exit (w : Workspace) (r : MergeRequest) : CommandError → Prop
  | format (name : Text) (asked : r.format = some name)
      (unknown : OutputFormat.ofName? name = none) : Exit w r (.refused (.unknownFormat name true))
  | inputFormat (name : Text) (asked : r.inputFormat = some name)
      (unknown : InputFormat.ofName? name = none) : Exit w r (.refused (.unknownInputFormat name))
  | policy (name : Text) (asked : r.onUnanchored = some name)
      (unknown : Policy.ofName? name = none) : Exit w r (.refused (.unknownPolicy name))
  | patchedTwice (file : (given r.patched).isSome = true) (diff : (given r.patch).isSome = true) :
      Exit w r (.refused .patchedTwice)
  | language (unknown : given (Language.detect? (w.resolve r.baseline) r.language
      (Config.load w.disk w.directory).1.language) = none) :
      Exit w r (.refused (.unknownLanguage r.baseline))
  | missing (file : Text) (named : file ∈ r.files)
      (absent : w.disk.read (w.resolve file) = .ok none) :
      Exit w r (.refused (.fileNotFound (w.resolve file)))
  | unreadable (file : Text) (named : file ∈ r.files) (fault : DiskFault)
      (refused : w.disk.read (w.resolve file) = .error fault) : Exit w r (.disk fault)
  | patchedMissing (file : given r.patched = none) (diff : given r.patch = none) :
      Exit w r (.refused .patchedMissing)
  | noParser (absent : w.parser = none) : Exit w r (.refused (.noParser true))
  | malformed (texts : VersionTexts)
      (read : ((r.texts w.toSurroundings).on w.disk).result = .ok texts) (version : Version)
      (text : Text) (named : text ∈ texts.all) (cause : FormatFault)
      (refused : Tree.ofDocument? text = .error cause) :
      Exit w r (.refused (.mergeRefused "TreeFormatError" (.treeFormat (some version) cause)))
  /-- A parser that fails without words. -/
  | wordless (parser : Parser) (loaded : w.parser = some parser) (language source : Text)
      (failed : parser.parse language source = .error none) : Exit w r (.fault .wordless)
  /-- A version that is blank, that does not parse, or a diff that is malformed or does not
  apply. -/
  | unavailable (texts : VersionTexts)
      (read : ((r.texts w.toSurroundings).on w.disk).result = .ok texts)
      (language : Option Text) (inputs : MergeInputs)
      (parsed : ((trees w.toSurroundings language texts).on w.disk).result = .ok inputs)
      (missing : inputs.missing ≠ []) :
      Exit w r (.refused (.mergeRefused "UnavailableTreeError" (.unavailable inputs.missing)))
  | unanchored (asked : r.policy (Config.load w.disk w.directory).1 = .ok .error)
      (nodes : List NewSubtree) (lost : nodes ≠ []) :
      Exit w r (.refused (.mergeRefused "UnanchoredInsertionError" (.unanchored nodes)))
  | output (file : Text) (asked : given r.output = some file) (fault : DiskFault)
      (refused : w.disk.checkWrite (w.resolve file) = .error fault) : Exit w r (.disk fault)

variable {r : MergeRequest} {w : Workspace} {e : CommandError}

theorem unknown_of_named {α : Type} {ofName? : Text → Option α} {refusal : Text → Refusal}
    {otherwise : α} {asked : Option Text} {cause : Refusal}
    (h : named ofName? refusal otherwise asked = .error cause) :
    ∃ name, asked = some name ∧ ofName? name = none ∧ cause = refusal name := by
  unfold named at h
  cases asked with
  | none => cases h
  | some name =>
    cases hof : ofName? name with
    | some a => simp [hof] at h
    | none =>
      simp only [hof, Except.error.injEq] at h
      exact ⟨name, rfl, hof, h.symm⟩

theorem exit_of_sourceLanguage {inputFormat : InputFormat} {cause : Refusal}
    (h : r.sourceLanguage (Config.load w.disk w.directory).1 (w.resolve r.baseline) inputFormat =
      .error cause) : r.Exit w (.refused cause) := by
  cases inputFormat with
  | json => cases h
  | source =>
    unfold sourceLanguage at h
    cases hl : given (Language.detect? (w.resolve r.baseline) r.language
        (Config.load w.disk w.directory).1.language) with
    | some l => simp [hl] at h
    | none =>
      simp only [hl, Except.error.injEq] at h
      exact h ▸ .language hl

theorem exit_of_settle {cause : Refusal}
    (h : r.settle (Config.load w.disk w.directory).1 (w.resolve r.baseline) = .error cause) :
    r.Exit w (.refused cause) := by
  unfold settle at h
  -- in the order of the checks: format, input format, policy, both patched versions, language
  rcases Except.cases_of_bind_eq_error h with h | ⟨format, -, h⟩
  · obtain ⟨name, hname, hunknown, rfl⟩ := unknown_of_named h
    exact .format name hname hunknown
  rcases Except.cases_of_bind_eq_error h with h | ⟨inputFormat, -, h⟩
  · obtain ⟨name, hname, hunknown, rfl⟩ := unknown_of_named h
    exact .inputFormat name hname hunknown
  rcases Except.cases_of_bind_eq_error h with h | ⟨policy, -, h⟩
  · obtain ⟨name, hname, hunknown, rfl⟩ := unknown_of_named h
    exact .policy name hname hunknown
  simp only at h
  split at h
  · next hboth =>
    rw [Bool.and_eq_true] at hboth
    exact Except.error.inj h ▸ .patchedTwice hboth.1 hboth.2
  · rcases Except.cases_of_bind_eq_error h with h | ⟨language, -, h⟩
    · exact exit_of_sourceLanguage h
    · cases h

theorem exit_of_file {file : Text} (hfile : file ∈ r.files)
    (h : ((Step.file (w.resolve file)).on w.disk).result = .error e) : r.Exit w e := by
  rw [Step.result_file] at h
  cases hread : w.disk.read (w.resolve file) with
  | error fault =>
    simp only [hread, Except.error.injEq] at h
    exact h ▸ .unreadable file hfile fault hread
  | ok text =>
    cases text with
    | none =>
      simp only [hread, Except.error.injEq] at h
      exact h ▸ .missing file hfile hread
    | some text => simp [hread] at h

theorem exit_of_patchedText {baseline : Text}
    (h : ((r.patchedText w.toSurroundings baseline).on w.disk).result = .error e) :
    r.Exit w e := by
  unfold patchedText at h
  cases hfile : given r.patched with
  | some file =>
    simp only [hfile] at h
    rw [Step.result_bind (Step.silent_file _) fun _ => Step.silent_pure _] at h
    rcases Except.cases_of_bind_eq_error h with h | ⟨text, -, h⟩
    · exact exit_of_file (by simp [files, hfile]) h
    · cases h
  | none =>
    cases hdiff : given r.patch with
    | some file =>
      simp only [hfile, hdiff] at h
      rw [Step.result_bind (Step.silent_file _) fun _ => Step.silent_logged _] at h
      rcases Except.cases_of_bind_eq_error h with h | ⟨diff, -, h⟩
      · exact exit_of_file (by simp [files, hdiff]) h
      · cases h
    | none =>
      simp only [hfile, hdiff] at h
      exact Except.error.inj h ▸ .patchedMissing hfile hdiff

theorem exit_of_texts (h : ((r.texts w.toSurroundings).on w.disk).result = .error e) :
    r.Exit w e := by
  have hpatched (baseline modified : Text) :=
    (r.silent_patchedText w.toSurroundings baseline).bind fun patched =>
      Step.silent_pure (⟨baseline, modified, patched⟩ : VersionTexts)
  rw [texts, Step.result_bind (Step.silent_file _) fun _ =>
    (Step.silent_file _).bind (hpatched _)] at h
  rcases Except.cases_of_bind_eq_error h with h | ⟨baseline, -, h⟩
  · exact exit_of_file (by simp [files]) h
  rw [Step.result_bind (Step.silent_file _) (hpatched _)] at h
  rcases Except.cases_of_bind_eq_error h with h | ⟨modified, -, h⟩
  · exact exit_of_file (by simp [files]) h
  rw [Step.result_bind (r.silent_patchedText _ _) fun _ => Step.silent_pure _] at h
  rcases Except.cases_of_bind_eq_error h with h | ⟨patched, -, h⟩
  · exact exit_of_patchedText h
  · cases h

theorem readTree_error {version : Version} {text : Text} {f : Fault}
    (h : VersionTexts.readTree version text = .error f) :
    ∃ cause, Tree.ofDocument? text = .error cause ∧ f = .treeFormat (some version) cause :=
  Except.of_mapError_eq_error h

theorem readTrees_error {texts : VersionTexts} {f : Fault} (h : texts.readTrees = .error f) :
    ∃ version, ∃ text ∈ texts.all, ∃ cause, Tree.ofDocument? text = .error cause ∧
      f = .treeFormat (some version) cause := by
  unfold VersionTexts.readTrees at h
  rcases Except.cases_of_bind_eq_error h with h | ⟨baseline, -, h⟩
  · exact ⟨_, _, by simp [VersionTexts.all], readTree_error h⟩
  rcases Except.cases_of_bind_eq_error h with h | ⟨modified, -, h⟩
  · exact ⟨_, _, by simp [VersionTexts.all], readTree_error h⟩
  cases hpatched : texts.patched with
  | none =>
    rw [hpatched] at h
    cases h
  | some text =>
    rw [hpatched] at h
    rcases Except.cases_of_bind_eq_error h with h | ⟨patched, -, h⟩
    · exact ⟨_, _, by simp [VersionTexts.all, hpatched], readTree_error h⟩
    · cases h

theorem exit_of_trees {language : Option Text} {texts : VersionTexts}
    (hread : ((r.texts w.toSurroundings).on w.disk).result = .ok texts)
    (h : ((trees w.toSurroundings language texts).on w.disk).result = .error e) : r.Exit w e := by
  unfold trees at h
  cases language with
  | none =>
    rw [Step.result_ofMerge] at h
    obtain ⟨f, hf, rfl⟩ := Except.of_mapError_eq_error h
    obtain ⟨version, text, htext, cause, hrefused, rfl⟩ := readTrees_error hf
    exact .malformed texts hread version text htext cause hrefused
  | some language =>
    cases hparser : w.parser with
    | none =>
      simp only [hparser] at h
      exact Except.error.inj h ▸ .noParser hparser
    | some parser =>
      simp only [hparser, Step.result_ofMerge] at h
      obtain ⟨f, hf, rfl⟩ := Except.of_mapError_eq_error h
      obtain ⟨rfl, source, hfailed⟩ := VersionTexts.parse_error hf
      exact .wordless parser hparser language source hfailed

/-- All that comes before the first effect fails for one of the causes. -/
theorem exit_of_outcome (h : ((r.outcome w.toSurroundings).on w.disk).result = .error e) :
    r.Exit w e := by
  rw [result_outcome] at h
  rcases Except.cases_of_bind_eq_error h with h | ⟨settings, hsettle, h⟩
  · obtain ⟨cause, hsettle, rfl⟩ := Except.of_mapError_eq_error h
    exact exit_of_settle hsettle
  rcases Except.cases_of_bind_eq_error h with h | ⟨texts, hread, h⟩
  · exact exit_of_texts h
  rcases Except.cases_of_bind_eq_error h with h | ⟨inputs, hparsed, h⟩
  · exact exit_of_trees hread h
  obtain ⟨f, hf, rfl⟩ := Except.of_mapError_eq_error h
  obtain ⟨inputFormat, -, -, hpolicy, -⟩ := settle_eq_ok.1 (Except.eq_ok_of_mapError hsettle)
  rcases performMerge_fails hf with ⟨hmissing, rfl⟩ | ⟨herror, nodes, hlost, rfl⟩
  · exact .unavailable texts hread _ inputs hparsed hmissing
  · exact .unanchored (herror ▸ hpolicy) nodes hlost

/-! ## Effects -/

/-- What a run that returns leaves behind. -/
structure Delivered (r : MergeRequest) (w : Workspace) (outcome : MergeOutcome)
    (run : CommandRun MergeOutcome) : Prop where
  /-- The text is that of the merged tree, in the format that was settled. -/
  rendered : ∃ format, r.outputFormat (Config.load w.disk w.directory).1 = .ok format ∧
    outcome.text = format.render outcome.tree
  /-- The output file holds the text, as bytes keep it. -/
  written : ∀ file, given r.output = some file →
    run.disk.text? (w.resolve file) = some (stripFences outcome.text ++ "\n").encoded
  /-- Nothing stands under another path than before. -/
  elsewhere : ∀ path,
    (∀ file, given r.output = some file → path.encoded ≠ (w.resolve file).encoded) →
    run.disk.entry? path = w.disk.entry? path
  /-- Beside an output file, only a JSON report is printed. -/
  reported : ∀ file, given r.output = some file → run.printed =
    if r.json then [r.payload (stripFences outcome.text) outcome.report] else []
  printed : given r.output = none → run.printed =
    [if r.json then r.payload (stripFences outcome.text) outcome.report
      else stripFences outcome.text ++ "\n"]

theorem entry?_write {d d' : Disk} {path text : Text} (h : d.write path text = .ok d')
    {other : Text} (hne : other.encoded ≠ path.encoded) : d'.entry? other = d.entry? other := by
  unfold Disk.write at h
  cases hc : d.checkWrite path with
  | error fault => simp [hc, Except.map] at h
  | ok u =>
    simp only [hc, Except.map, Except.ok.injEq] at h
    rw [← h, Disk.entry?, Disk.putText, Disk.put, Table.get?_put, if_neg hne]
    rfl

theorem checkWrite_of_write {d : Disk} {path text : Text} {fault : DiskFault}
    (h : d.write path text = .error fault) : d.checkWrite path = .error fault := by
  unfold Disk.write at h
  cases hc : d.checkWrite path with
  | error fault' => simpa [hc, Except.map] using h
  | ok u => simp [hc, Except.map] at h

theorem exists_rendered {outcome : MergeOutcome}
    (h : ((r.outcome w.toSurroundings).on w.disk).result = .ok outcome) :
    ∃ format, r.outputFormat (Config.load w.disk w.directory).1 = .ok format ∧
      outcome.text = format.render outcome.tree := by
  obtain ⟨settings, inputs, hsettle, hmerge⟩ := exists_performed h
  obtain ⟨inputFormat, hformat, -⟩ := settle_eq_ok.1 hsettle
  exact ⟨settings.format, hformat, (performMerge_ok hmerge).1⟩

end MergeRequest

/-- **A failed merge command leaves no trace.** A run fails for one of the listed causes, and then
it has printed nothing and the disk is as before. A run that returns has written the text of the
merged tree, without fences and with a line feed behind it, to the output file and to no other; it
prints once, except that beside an output file it prints only a JSON report. What a file holds of a
text is its bytes, which keep all but surrogates that stand alone. -/
theorem runMerge_effects (w : Workspace) (r : MergeRequest) :
    (∀ e, (runMerge w r).result = .error e →
      r.Exit w e ∧ (runMerge w r).printed = [] ∧ (runMerge w r).disk = w.disk) ∧
    ∀ outcome, (runMerge w r).result = .ok outcome → r.Delivered w outcome (runMerge w r) := by
  have hends := runMerge_ends w r
  generalize runMerge w r = run at hends ⊢
  constructor
  · intro e he
    cases hends with
    | failed e' hout log =>
      exact ⟨Except.error.inj he ▸ MergeRequest.exit_of_outcome hout, rfl, rfl⟩
    | refused outcome hout file hfile fault hw log =>
      exact ⟨Except.error.inj he ▸ .output file hfile fault
        (MergeRequest.checkWrite_of_write hw), rfl, rfl⟩
    | written outcome hout file hfile disk hw log => cases he
    | printed outcome hout hnone log => cases he
  · intro outcome h
    cases hends with
    | failed e hout log => cases h
    | refused outcome hout file hfile fault hw log => cases h
    | written outcome' hout file hfile disk hw log =>
      obtain rfl := Except.ok.inj h
      have hsame {file' : Text} (h' : given r.output = some file') : file = file' :=
        Option.some.inj (hfile.symm.trans h')
      exact
        { rendered := MergeRequest.exists_rendered hout
          written := fun file' h' => by
            rw [← hsame h']
            exact Disk.text?_write hw
          elsewhere := fun path hpath => MergeRequest.entry?_write hw (hpath file hfile)
          reported := fun file' h' => rfl
          printed := fun hnone => absurd (hfile.symm.trans hnone) (by simp) }
    | printed outcome' hout hnone log =>
      obtain rfl := Except.ok.inj h
      exact
        { rendered := MergeRequest.exists_rendered hout
          written := fun file hfile => absurd (hnone.symm.trans hfile) (by simp)
          elsewhere := fun path _ => rfl
          reported := fun file hfile => absurd (hnone.symm.trans hfile) (by simp)
          printed := fun _ => rfl }

/-- A directory with two documents that have no node in common, and with a file from an earlier
merge. -/
def strangersWorkspace : Workspace where
  directory := "/work"
  disk := [("/work", .directory),
    ("/work/old.json", .file "\x7b\"type\": \"note\", \"label\": \"one\"\x7d"),
    ("/work/new.json", .file "\x7b\"type\": \"list\", \"label\": \"two\"\x7d"),
    ("/work/merged.txt", .file "earlier")]
  parser := none
  diffs := Unified.tool

/-- A merge of these documents into that file; its new root has no anchor. -/
def strangersRequest (onUnanchored : Policy) : MergeRequest where
  baseline := "old.json"
  modified := "new.json"
  patched := some "old.json"
  inputFormat := some InputFormat.json.name
  output := some "merged.txt"
  onUnanchored := some onUnanchored.name
  json := true

theorem runMerge_effects_strangers :
    (∃ e, (runMerge strangersWorkspace (strangersRequest .error)).result = .error e ∧
      (strangersRequest .error).Exit strangersWorkspace e ∧
      (runMerge strangersWorkspace (strangersRequest .error)).printed = [] ∧
      (runMerge strangersWorkspace (strangersRequest .error)).disk = strangersWorkspace.disk) ∧
    ∃ outcome,
      (runMerge strangersWorkspace (strangersRequest .attachRoot)).result = .ok outcome ∧
      outcome.text = "two" ∧
      (runMerge strangersWorkspace (strangersRequest .attachRoot)).disk.text? "/work/merged.txt" =
        some (stripFences "two" ++ "\n").encoded := by
  constructor
  · have hfails : (runMerge strangersWorkspace (strangersRequest .error)).result.isOk = false := by
      decide +kernel
    cases hrun : (runMerge strangersWorkspace (strangersRequest .error)).result with
    | ok outcome => simp [hrun, Except.isOk, Except.toBool] at hfails
    | error e =>
      exact ⟨e, rfl, (runMerge_effects strangersWorkspace (strangersRequest .error)).1 e hrun⟩
  · have htext : (runMerge strangersWorkspace (strangersRequest .attachRoot)).result.toOption.map
        MergeOutcome.text = some "two" := by decide +kernel
    cases hrun : (runMerge strangersWorkspace (strangersRequest .attachRoot)).result with
    | error e => simp [hrun, Except.toOption] at htext
    | ok outcome =>
      rw [hrun] at htext
      have htwo : outcome.text = "two" := Option.some.inj htext
      have hwritten := ((runMerge_effects strangersWorkspace (strangersRequest .attachRoot)).2
        outcome hrun).written "merged.txt" rfl
      have hline : stripFences "two" ++ "\n" = Text.ofString "two\n" := by decide
      rw [htwo, hline, Text.encoded_ofString] at hwritten
      exact ⟨outcome, rfl, htwo, hwritten⟩

end TreeMerge
