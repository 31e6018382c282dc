import TreeMerge.Command.Merge
import TreeMerge.Proofs.Command.Steps
import TreeMerge.Proofs.Matching.Links
import TreeMerge.Proofs.Tree.Document
import TreeMerge.Unified.Apply

/-!
# Runs of the merge command

What a run returned was merged from the trees that it read, and rendered in the format that was
asked for; that text, trimmed and with a line feed behind it, is what it writes or prints.

* `named_map` : options by their names;
* `performMerge_some`, `performMerge_missing`, `performMerge_ok` : merging and rendering;
* `MergeRequest.silent_texts`, `MergeRequest.silent_trees`, `MergeRequest.silent_outcome` : reading
  and merging have no effect;
* `MergeRequest.result_outcome`, `MergeRequest.exists_performed` : what they give;
* `MergeRequest.deliver_print`, `MergeRequest.deliver_written`, `MergeRequest.deliver_refused` : the
  effects;
* `MergeRequest.Ends`, `runMerge_ends` : the ways in which a run can end;
* `result_runMerge_of_error`, `runMerge_of_print` : two of them, where it is known what was merged;
* `runMerge_document` : a merge into a tree document can be read again.
-/

namespace TreeMerge

theorem OutputFormat.ofName?_name (f : OutputFormat) : ofName? f.name = some f := by
  cases f <;> rfl

theorem Policy.ofName?_name (p : Policy) : ofName? p.name = some p := by
  cases p <;> rfl

/-- An option that is asked for by its own name is the one that is used. -/
theorem named_map {α : Type} {ofName? : Text → Option α} {name : α → Text}
    (h : ∀ a, ofName? (name a) = some a) (refusal : Text → Refusal) (otherwise : α)
    (asked : Option α) :
    named ofName? refusal otherwise (asked.map name) = .ok (asked.getD otherwise) := by
  cases asked with
  | none => rfl
  | some a => simp only [Option.map_some, named, h, Option.getD_some]

theorem Except.eq_ok_of_mapError {ε ε' α : Type} {x : Except ε α} {f : ε → ε'} {a : α}
    (h : x.mapError f = .ok a) : x = .ok a := by
  cases x with
  | error e => exact absurd h (by simp [Except.mapError])
  | ok a' => simpa [Except.mapError] using h

/-! ## Merging and rendering -/

section

variable {ν : Type} [DecidableEq ν] [NodeName ν]

/-- With all three trees, rendering follows the merge. -/
theorem performMerge_some {b m p : Tree} {f : OutputFormat} {matcher : Matcher ν}
    {policy : Policy} :
    (performMerge ⟨some b, some m, some p⟩ f.renderer matcher policy).1 =
      (mergeTrees ⟨b, m, p⟩ matcher policy).1.map fun result =>
        { result with text := f.render result.tree } := by
  simp only [performMerge]
  rcases mergeTrees ⟨b, m, p⟩ matcher policy with ⟨_ | result, log⟩ <;> rfl

theorem performMerge_missing {inputs : MergeInputs} (h : inputs.missing ≠ []) {f : OutputFormat}
    {matcher : Matcher ν} {policy : Policy} :
    (performMerge inputs f.renderer matcher policy).1 =
      .error (.unavailable inputs.missing) := by
  obtain ⟨_ | b, _ | m, _ | p⟩ := inputs <;> first | rfl | exact absurd rfl h

theorem MergeInputs.exists_of_missing_eq_nil {inputs : MergeInputs} (h : inputs.missing = []) :
    ∃ b m p, inputs = ⟨some b, some m, some p⟩ := by
  obtain ⟨_ | b, _ | m, _ | p⟩ := inputs <;> first | exact ⟨b, m, p, rfl⟩ | simp [missing] at h

/-- A merge that is finished had all three trees, and its text is that of its tree. -/
theorem performMerge_ok {inputs : MergeInputs} {f : OutputFormat} {matcher : Matcher ν}
    {policy : Policy} {outcome : MergeOutcome}
    (h : (performMerge inputs f.renderer matcher policy).1 = .ok outcome) :
    outcome.text = f.render outcome.tree ∧ ∃ b m p, inputs = ⟨some b, some m, some p⟩ ∧
      (mergeTrees ⟨b, m, p⟩ matcher policy).1 = .ok outcome.toMergeResult := by
  by_cases hmissing : inputs.missing = []
  · obtain ⟨b, m, p, rfl⟩ := MergeInputs.exists_of_missing_eq_nil hmissing
    rw [performMerge_some] at h
    cases hrun : (mergeTrees ⟨b, m, p⟩ matcher policy).1 with
    | error e => exact absurd h (by simp [hrun, Except.map])
    | ok result =>
      rw [hrun] at h
      rw [← Except.ok.inj h]
      exact ⟨rfl, b, m, p, rfl, hrun⟩
  · exact absurd h (by simp [performMerge_missing hmissing])

end

namespace MergeRequest

variable {r : MergeRequest} {w : Workspace} {s : Surroundings} {settings : MergeSettings}
  {outcome : MergeOutcome}

/-! ## Up to the first effect -/

theorem silent_patchedText (r : MergeRequest) (s : Surroundings) (baseline : Text) :
    (r.patchedText s baseline).Silent := by
  unfold patchedText
  cases given r.patched with
  | some path => exact (Step.silent_file _).bind fun _ => Step.silent_pure _
  | none =>
    cases given r.patch with
    | some path => exact (Step.silent_file _).bind fun _ => Step.silent_logged _
    | none => exact Step.silent_refuse _

theorem silent_texts (r : MergeRequest) (s : Surroundings) : (r.texts s).Silent :=
  (Step.silent_file _).bind fun _ => (Step.silent_file _).bind fun _ =>
    (r.silent_patchedText s _).bind fun _ => Step.silent_pure _

theorem silent_trees (s : Surroundings) (language : Option Text) (texts : VersionTexts) :
    (trees s language texts).Silent := by
  unfold trees
  cases language with
  | none => exact Step.silent_ofMerge _
  | some language =>
    cases s.parser with
    | none => exact Step.silent_refuse _
    | some parser => exact Step.silent_ofMerge _

theorem silent_outcome (r : MergeRequest) (s : Surroundings) : (r.outcome s).Silent :=
  (Step.silent_config _).bind fun _ => (Step.silent_settled _).bind fun _ =>
    (r.silent_texts s).bind fun _ => (silent_trees s _ _).bind fun _ => Step.silent_ofMerge _

/-- A command settles its options, reads its files, finds their trees and merges. -/
theorem result_outcome (r : MergeRequest) (s : Surroundings) (disk : Disk) :
    ((r.outcome s).on disk).result =
      ((r.settle (Config.load disk s.directory).1 (s.resolve r.baseline)).mapError
        CommandError.refused).bind fun settings =>
          ((r.texts s).on disk).result.bind fun texts =>
            ((trees s settings.language texts).on disk).result.bind fun inputs =>
              (performMerge inputs settings.format.renderer (.greedy settings.matcher)
                settings.policy).1.mapError .ofFault := by
  have hmerge (settings : MergeSettings) (inputs : MergeInputs) :
      (Step.ofMerge (performMerge inputs settings.format.renderer (.greedy settings.matcher)
        settings.policy)).Silent := Step.silent_ofMerge _
  have htrees (settings : MergeSettings) (texts : VersionTexts) :=
    (silent_trees s settings.language texts).bind (hmerge settings)
  have htexts (settings : MergeSettings) := (r.silent_texts s).bind (htrees settings)
  rw [outcome, Step.result_bind (Step.silent_config _) fun _ =>
    (Step.silent_settled _).bind htexts]
  simp only [Step.result_config, Except.bind, Step.result_bind (Step.silent_settled _) htexts,
    Step.result_settled, Step.result_bind (r.silent_texts s) (htrees _),
    Step.result_bind (silent_trees s _ _) (hmerge _), Step.result_ofMerge]

/-- What a command returns was merged under its options from the trees of its files. -/
theorem exists_performed {disk : Disk} (h : ((r.outcome s).on disk).result = .ok outcome) :
    ∃ settings inputs,
      r.settle (Config.load disk s.directory).1 (s.resolve r.baseline) = .ok settings ∧
      (performMerge inputs settings.format.renderer (.greedy settings.matcher)
        settings.policy).1 = .ok outcome := by
  rw [result_outcome] at h
  obtain ⟨settings, hsettle, h⟩ := Except.exists_of_bind_eq_ok h
  obtain ⟨texts, -, h⟩ := Except.exists_of_bind_eq_ok h
  obtain ⟨inputs, -, h⟩ := Except.exists_of_bind_eq_ok h
  exact ⟨settings, inputs, Except.eq_ok_of_mapError hsettle, Except.eq_ok_of_mapError h⟩

/-- Options are settled when each of them is. -/
theorem settle_eq_ok {c : Config} {path : Text} :
    r.settle c path = .ok settings ↔ ∃ inputFormat,
      r.outputFormat c = .ok settings.format ∧ r.readFormat c = .ok inputFormat ∧
      r.policy c = .ok settings.policy ∧
      ((given r.patched).isSome && (given r.patch).isSome) = false ∧
      r.sourceLanguage c path inputFormat = .ok settings.language ∧
      settings.matcher = (c.matcher.getD {}).resolve := by
  obtain ⟨format, policy, matcher, language⟩ := settings
  constructor
  · intro h
    unfold settle at h
    obtain ⟨format', hformat, h⟩ := Except.exists_of_bind_eq_ok h
    obtain ⟨inputFormat, hread, h⟩ := Except.exists_of_bind_eq_ok h
    obtain ⟨policy', hpolicy, h⟩ := Except.exists_of_bind_eq_ok h
    simp only at h
    split at h
    · cases h
    · next hboth =>
      obtain ⟨language', hlanguage, h⟩ := Except.exists_of_bind_eq_ok h
      cases h
      exact ⟨inputFormat, hformat, hread, hpolicy, Bool.not_eq_true _ ▸ hboth, hlanguage, rfl⟩
  · rintro ⟨inputFormat, hformat, hread, hpolicy, hboth, hlanguage, rfl⟩
    rw [settle, hformat, hread, hpolicy]
    simp only [bind, Except.bind, hboth, hlanguage]
    rfl

/-- A format that is asked for by name is the one that is used. -/
theorem format_of_settle {c : Config} {path : Text} {f : OutputFormat}
    (hf : r.format = some f.name) (h : r.settle c path = .ok settings) : settings.format = f := by
  obtain ⟨inputFormat, hformat, -⟩ := settle_eq_ok.1 h
  rw [outputFormat, hf] at hformat
  have hnamed := named_map OutputFormat.ofName?_name (.unknownFormat · true)
    (c.format.getD .source) (some f)
  exact Except.ok.inj (hformat.symm.trans hnamed)

/-! ## Effects -/

/-- Without an output file, the text or the report is printed. -/
theorem deliver_print (h : given r.output = none) (outcome : MergeOutcome) (p : Progress) :
    (r.deliver s outcome).after p =
      { log := p.log ++ conflictWarning outcome.report
        printed := p.printed ++ [if r.json then r.payload (stripFences outcome.text) outcome.report
          else stripFences outcome.text ++ "\n"]
        disk := p.disk
        result := .ok () } := by
  cases hjson : r.json <;> simp only [deliver, store, answer, h, hjson] <;> rfl

section

variable {file : Text} (hfile : given r.output = some file)
include hfile

/-- The text goes to the output file, and only a report is printed. -/
theorem deliver_written {p : Progress} {disk : Disk}
    (hw : p.disk.write (s.resolve file) (stripFences outcome.text ++ "\n") = .ok disk) :
    (r.deliver s outcome).after p =
      { log := p.log ++ .info "Wrote merged output" [("path", .str file)] ++
          conflictWarning outcome.report
        printed := p.printed ++
          if r.json then [r.payload (stripFences outcome.text) outcome.report] else []
        disk
        result := .ok () } := by
  have hstore : (r.store s (stripFences outcome.text)).after p =
      { log := p.log ++ .info "Wrote merged output" [("path", .str file)]
        printed := p.printed, disk, result := .ok () } := by
    have hwrite := Step.after_write hw
    rw [store, hfile]
    exact (Step.after_bind_ok (by rw [hwrite]) _).trans (by rw [hwrite]; rfl)
  refine (Step.after_bind_ok (by rw [hstore]) _).trans ?_
  rw [hstore]
  cases hjson : r.json with
  | true =>
    simp only [answer, hjson]
    rfl
  | false =>
    simp only [answer, hjson, hfile, Bool.false_eq_true, ite_false, List.append_nil]
    rfl

/-- Where the text cannot be written, nothing else is done. -/
theorem deliver_refused {p : Progress} {fault : DiskFault}
    (hw : p.disk.write (s.resolve file) (stripFences outcome.text ++ "\n") = .error fault) :
    (r.deliver s outcome).after p = { p with result := .error (.disk fault) } := by
  have hstore : (r.store s (stripFences outcome.text)).after p =
      { p with result := .error (.disk fault) } := by
    have hwrite := Step.after_write_error hw
    rw [store, hfile]
    exact (Step.after_bind_error (by rw [hwrite]) _).trans (by rw [hwrite])
  exact (Step.after_bind_error (by rw [hstore]) _).trans (by rw [hstore])

end

/-! ## Whole runs -/

/-- The ways in which a run can end. -/
inductive Ends (w : Workspace) (r : MergeRequest) : CommandRun MergeOutcome → Prop
  /-- Before its first effect. -/
  | failed (e : CommandError)
      (outcome : ((r.outcome w.toSurroundings).on w.disk).result = .error e) (log : Log) :
      Ends w r { log, disk := w.disk, result := .error e }
  /-- With a text that cannot be written. -/
  | refused (outcome : MergeOutcome)
      (merged : ((r.outcome w.toSurroundings).on w.disk).result = .ok outcome) (file : Text)
      (asked : given r.output = some file) (fault : DiskFault)
      (refused : w.disk.write (w.resolve file) (stripFences outcome.text ++ "\n") = .error fault)
      (log : Log) : Ends w r { log, disk := w.disk, result := .error (.disk fault) }
  | written (outcome : MergeOutcome)
      (merged : ((r.outcome w.toSurroundings).on w.disk).result = .ok outcome) (file : Text)
      (asked : given r.output = some file) (disk : Disk)
      (written : w.disk.write (w.resolve file) (stripFences outcome.text ++ "\n") = .ok disk)
      (log : Log) :
      Ends w r
        { log
          printed := if r.json then [r.payload (stripFences outcome.text) outcome.report] else []
          disk
          result := .ok outcome }
  | printed (outcome : MergeOutcome)
      (merged : ((r.outcome w.toSurroundings).on w.disk).result = .ok outcome)
      (asked : given r.output = none) (log : Log) :
      Ends w r
        { log
          printed := [if r.json then r.payload (stripFences outcome.text) outcome.report
            else stripFences outcome.text ++ "\n"]
          disk := w.disk
          result := .ok outcome }

end MergeRequest

variable {w : Workspace} {r : MergeRequest} {outcome : MergeOutcome}

/-- A run that has merged goes on to write and print. -/
theorem runMerge_of_outcome (h : ((r.outcome w.toSurroundings).on w.disk).result = .ok outcome) :
    runMerge w r = (r.deliver w.toSurroundings outcome >>= fun _ => pure outcome).after
      { log := ((r.outcome w.toSurroundings).on w.disk).log, disk := w.disk } := by
  rw [runMerge, MergeRequest.steps, Step.on, Step.after_bind_ok h, ← Step.on,
    (r.silent_outcome w.toSurroundings).on_eq]

/-- Reading and merging come before every effect. -/
theorem runMerge_ends (w : Workspace) (r : MergeRequest) : r.Ends w (runMerge w r) := by
  cases h : ((r.outcome w.toSurroundings).on w.disk).result with
  | error e =>
    rw [runMerge, MergeRequest.steps, Step.on, Step.after_bind_error h, ← Step.on,
      (r.silent_outcome w.toSurroundings).on_eq]
    exact .failed e h _
  | ok outcome =>
    rw [runMerge_of_outcome h]
    cases hfile : given r.output with
    | none =>
      have hdeliver := r.deliver_print (s := w.toSurroundings) hfile outcome
      rw [Step.after_bind_ok (by rw [hdeliver]), hdeliver]
      exact .printed outcome h hfile _
    | some file =>
      cases hw : w.disk.write (w.resolve file) (stripFences outcome.text ++ "\n") with
      | error fault =>
        have hdeliver := r.deliver_refused (s := w.toSurroundings) hfile
          (p := { log := ((r.outcome w.toSurroundings).on w.disk).log, disk := w.disk }) hw
        rw [Step.after_bind_error (by rw [hdeliver]), hdeliver]
        exact .refused outcome h file hfile fault hw _
      | ok disk =>
        have hdeliver := r.deliver_written (s := w.toSurroundings) hfile
          (p := { log := ((r.outcome w.toSurroundings).on w.disk).log, disk := w.disk }) hw
        rw [Step.after_bind_ok (by rw [hdeliver]), hdeliver]
        exact .written outcome h file hfile disk hw _

/-- A run that fails before its first effect has that error. -/
theorem result_runMerge_of_error {e : CommandError}
    (h : ((r.outcome w.toSurroundings).on w.disk).result = .error e) :
    (runMerge w r).result = .error e := by
  have hends := runMerge_ends w r
  generalize runMerge w r = run at hends ⊢
  cases hends with
  | failed e' hout log => exact hout.symm.trans h
  | refused outcome hout => exact absurd (hout.symm.trans h) (by simp)
  | written outcome hout => exact absurd (hout.symm.trans h) (by simp)
  | printed outcome hout => exact absurd (hout.symm.trans h) (by simp)

/-- A run that has merged and has no output file returns, and prints. -/
theorem runMerge_of_print {outcome : MergeOutcome} (hnone : given r.output = none)
    (h : ((r.outcome w.toSurroundings).on w.disk).result = .ok outcome) :
    (runMerge w r).result = .ok outcome ∧
      (runMerge w r).printed = [if r.json then r.payload (stripFences outcome.text) outcome.report
        else stripFences outcome.text ++ "\n"] := by
  have hends := runMerge_ends w r
  generalize runMerge w r = run at hends ⊢
  cases hends with
  | failed e hout log => exact absurd (hout.symm.trans h) (by simp)
  | refused outcome' hout file hfile => exact absurd (hnone.symm.trans hfile) (by simp)
  | written outcome' hout file hfile => exact absurd (hnone.symm.trans hfile) (by simp)
  | printed outcome' hout =>
    obtain rfl := Except.ok.inj (hout.symm.trans h)
    exact ⟨rfl, rfl⟩

/-- **A merge into a tree document can be fed back in.** The document of a tree without empty kinds
reads back as the tree, and so does the text that a run writes or prints, which is the document
without surrounding blanks or fences and with a line feed behind it. -/
theorem runMerge_document {t : Tree} (h : ∀ id < t.size, t.kind id ≠ "") :
    Tree.ofDocument? t.document = .ok (some t) ∧
    Tree.ofDocument? (stripFences t.document ++ "\n") = .ok (some t) ∧
    ∀ (w : Workspace) (r : MergeRequest) (outcome : MergeOutcome),
      r.format = some OutputFormat.json.name → (runMerge w r).result = .ok outcome →
      outcome.tree = t →
      (∀ path, given r.output = some path →
        (runMerge w r).disk.text? (w.resolve path) = some (stripFences t.document ++ "\n")) ∧
      (given r.output = none → r.json = false →
        (runMerge w r).printed = [stripFences t.document ++ "\n"]) := by
  refine ⟨?_, ?_, ?_⟩
  · have hread := Tree.ofDocument?_document h "" rfl
    rwa [Text.append_empty] at hread
  · rw [Tree.stripFences_document]
    exact Tree.ofDocument?_document h "\n" rfl
  intro w r outcome hformat hrun htree
  have hends := runMerge_ends w r
  revert hrun
  generalize runMerge w r = run at hends ⊢
  intro hrun
  have hdocument {outcome' : MergeOutcome}
      (hout : ((r.outcome w.toSurroundings).on w.disk).result = .ok outcome')
      (heq : outcome' = outcome) : outcome'.text = t.document := by
    obtain ⟨settings, inputs, hsettle, hmerge⟩ := MergeRequest.exists_performed hout
    rw [(performMerge_ok hmerge).1, MergeRequest.format_of_settle hformat hsettle, heq, htree]
    rfl
  cases hends with
  | failed e hout log => cases hrun
  | refused outcome' hout file hfile fault hw log => cases hrun
  | written outcome' hout file hfile disk hw log =>
    rw [hdocument hout (Except.ok.inj hrun)] at hw
    refine ⟨fun path hpath => ?_, fun hnone => absurd (hfile.symm.trans hnone) (by simp)⟩
    obtain rfl := Option.some.inj (hfile.symm.trans hpath)
    rw [Disk.text?_write hw, t.stripFences_document, t.encoded_document]
  | printed outcome' hout hnone log =>
    refine ⟨fun path hpath => absurd (hnone.symm.trans hpath) (by simp), fun _ hjson => ?_⟩
    simp only [hjson, hdocument hout (Except.ok.inj hrun)]
    rfl

/-- A tree whose label holds what strings escape: a quotation mark, a backslash, a line feed and a
control character. -/
def escapedTree : Tree :=
  .ofNode (.node ⟨"document", ""⟩ [.node ⟨"text", "\"\\\n\x01"⟩ []])

/-- A directory with the document of that tree. -/
def escapedWorkspace : Workspace where
  directory := "/"
  disk := [("/tree.json", .file escapedTree.document)]
  parser := none
  diffs := Unified.tool

/-- A merge of a tree document with itself into a tree document. -/
def documentRequest : MergeRequest where
  baseline := "tree.json"
  modified := "tree.json"
  patched := some "tree.json"
  format := some OutputFormat.json.name
  inputFormat := some InputFormat.json.name

theorem runMerge_document_escaped :
    (∀ id < escapedTree.size, escapedTree.kind id ≠ "") ∧
    Tree.ofDocument? (stripFences escapedTree.document ++ "\n") = .ok (some escapedTree) ∧
    ∃ outcome, (runMerge escapedWorkspace documentRequest).result = .ok outcome ∧
      outcome.tree = escapedTree ∧ (runMerge escapedWorkspace documentRequest).printed =
        [stripFences escapedTree.document ++ "\n"] := by
  have hkinds : ∀ id < escapedTree.size, escapedTree.kind id ≠ "" := by decide
  obtain ⟨-, hread, hruns⟩ := runMerge_document hkinds
  have hsame : (match (runMerge escapedWorkspace documentRequest).result with
      | .ok outcome => outcome.tree.node.same escapedTree.node
      | .error _ => false) = true := by decide +kernel
  cases hrun : (runMerge escapedWorkspace documentRequest).result with
  | error e => simp [hrun] at hsame
  | ok outcome =>
    rw [hrun] at hsame
    have htree : outcome.tree = escapedTree := Tree.ext_node ((Rose.same_iff _ _).1 hsame)
    refine ⟨hkinds, hread, outcome, rfl, htree, ?_⟩
    exact (hruns escapedWorkspace documentRequest outcome rfl hrun htree).2 rfl rfl

end TreeMerge
