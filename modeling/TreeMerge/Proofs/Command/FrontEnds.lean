import TreeMerge.Proofs.Command.Merge
import TreeMerge.Proofs.Merge.Run
import TreeMerge.Server.Calls

/-!
# The command and the tool

A merge of source texts can be asked for on the command line, with files, and as a tool, with texts
as arguments. Both ask the same question, and both give the same answer.

* `PatchedBy`, `MergeQuestion` : what is asked, with the arguments of the tool;
* `MergeRequest.Asks` : a command and its workspace that ask it;
* `MergeQuestion.merged` : the merge that is asked for, and what can become of it;
* `MergeRequest.Asks.result_outcome`, `MergeQuestion.answer_arguments` : each front end as that
  merge with its own words around it;
* `FrontEndsAgree`, `runMerge_agrees` : the same text, report and refusal.
-/

namespace TreeMerge

/-! ## Questions -/

/-- How the patched version is given: as it is, or by a diff of the baseline. -/
inductive PatchedBy where
  | text (patched : Text)
  | diff (patch : Text)

/-- A merge of source texts. -/
structure MergeQuestion where
  baseline : Text
  modified : Text
  patched : PatchedBy
  language : Text
  format : Option OutputFormat := none
  onUnanchored : Option Policy := none

/-- The argument of the tool that gives the patched version. -/
def PatchedBy.argument : PatchedBy → Text × Json
  | .text patched => ("patched", .str patched)
  | .diff patch => ("patch", .str patch)

/-- The patched text, which a diff may fail to give. -/
def PatchedBy.text? (diffs : DiffTool) (baseline : Text) : PatchedBy → Option Text
  | .text patched => some patched
  | .diff patch => (applyPatch diffs baseline patch).1

namespace MergeQuestion

/-- The question as arguments of the tool. -/
def arguments (q : MergeQuestion) : Json :=
  .obj (("baseline", .str q.baseline) :: ("modified", .str q.modified) :: q.patched.argument ::
    ("language", .str q.language) :: (Json.member "format" (q.format.map fun f => .str f.name) ++
      Json.member "onUnanchored" (q.onUnanchored.map fun p => .str p.name)))

/-- The texts that are to be merged. -/
def texts (q : MergeQuestion) (diffs : DiffTool) : VersionTexts where
  baseline := q.baseline
  modified := q.modified
  patched := q.patched.text? diffs q.baseline

/-- Merge trees under the options of the question. -/
def merge (q : MergeQuestion) (inputs : MergeInputs) : Except Fault MergeOutcome :=
  (performMerge inputs (q.format.getD .source).renderer (.greedy {})
    (q.onUnanchored.getD .skip)).1

end MergeQuestion

/-- A command, in its workspace, asks a question: its files hold the texts, its options are those
of the question, nothing is configured, and it prints its answer as JSON. -/
structure MergeRequest.Asks (r : MergeRequest) (w : Workspace) (q : MergeQuestion) : Prop where
  json : r.json = true
  output : given r.output = none
  inputFormat : r.inputFormat.getD InputFormat.source.name = InputFormat.source.name
  language : r.language = some q.language
  format : r.format = q.format.map OutputFormat.name
  onUnanchored : r.onUnanchored = q.onUnanchored.map Policy.name
  unconfigured : w.disk.read (Config.path w.directory) = .ok none
  baseline : w.disk.read (w.resolve r.baseline) = .ok (some q.baseline)
  modified : w.disk.read (w.resolve r.modified) = .ok (some q.modified)
  patched : match q.patched with
    | .text patched => given r.patch = none ∧ ∃ path, given r.patched = some path ∧
        w.disk.read (w.resolve path) = .ok (some patched)
    | .diff patch => given r.patched = none ∧ ∃ path, given r.patch = some path ∧
        w.disk.read (w.resolve path) = .ok (some patch)

/-! ## What can become of a merge -/

/-- Parsing fails only where the parser fails without words. -/
theorem parseSource_error {parser : Parser} {language source : Text} {f : Fault}
    (h : (parseSource parser language source).1 = .error f) :
    f = .wordless ∧ parser.parse language source = .error none := by
  rw [parseSource] at h
  split at h
  · exact absurd h (by simp)
  change (if !parser.offers language then _ else _ : Except Fault (Option Tree) × Log).1 = _ at h
  split at h
  · exact absurd h (by simp)
  cases hparse : parser.parse language source with
  | ok found => simp [hparse] at h
  | error reason =>
    cases reason with
    | some reason => simp [hparse] at h
    | none =>
      simp only [hparse, Except.error.injEq] at h
      exact ⟨h.symm, rfl⟩

theorem MergeInputs.inTurn_error {b m p : Except Fault (Option Tree) × Log} {f : Fault}
    (h : (inTurn b m p).1 = .error f) : b.1 = .error f ∨ m.1 = .error f ∨ p.1 = .error f := by
  obtain ⟨_ | b, _⟩ := b <;> obtain ⟨_ | m, _⟩ := m <;> obtain ⟨_ | p, _⟩ := p <;>
    simp_all [inTurn]

theorem VersionTexts.parse_error {texts : VersionTexts} {parser : Parser} {language : Text}
    {f : Fault} (h : (texts.parse parser language).1 = .error f) :
    f = .wordless ∧ ∃ source, parser.parse language source = .error none := by
  rcases MergeInputs.inTurn_error h with h | h | h
  · exact ⟨(parseSource_error h).1, _, (parseSource_error h).2⟩
  · exact ⟨(parseSource_error h).1, _, (parseSource_error h).2⟩
  · cases hp : texts.patched with
    | none => simp [hp] at h
    | some text =>
      rw [hp] at h
      exact ⟨(parseSource_error h).1, _, (parseSource_error h).2⟩

/-- A merge with the greedy matcher fails only where a tree is missing, or for want of an anchor
where that is an error. -/
theorem performMerge_fails {inputs : MergeInputs} {f : OutputFormat} {options : MatcherOptions}
    {policy : Policy} {fault : Fault}
    (h : (performMerge inputs f.renderer (.greedy options) policy).1 = .error fault) :
    (inputs.missing ≠ [] ∧ fault = .unavailable inputs.missing) ∨
      (policy = .error ∧ ∃ nodes, nodes ≠ [] ∧ fault = .unanchored nodes) := by
  by_cases hmissing : inputs.missing = []
  · obtain ⟨b, m, p, rfl⟩ := MergeInputs.exists_of_missing_eq_nil hmissing
    obtain ⟨run⟩ := MergeRun.exists_greedy ⟨b, m, p⟩ options policy
    rw [performMerge_some, run.mergeTrees_eq] at h
    split at h
    · next hlost => exact .inr ⟨hlost.1, _, hlost.2, (Except.error.inj h).symm⟩
    · exact absurd h (by simp [Except.map])
  · rw [performMerge_missing hmissing] at h
    exact .inl ⟨hmissing, (Except.error.inj h).symm⟩

/-- A merge of given trees with the greedy matcher is finished or refused under a name. -/
theorem performMerge_error {inputs : MergeInputs} {f : OutputFormat} {options : MatcherOptions}
    {policy : Policy} {fault : Fault}
    (h : (performMerge inputs f.renderer (.greedy options) policy).1 = .error fault) :
    ∃ name, fault.refusal? = some name := by
  rcases performMerge_fails h with ⟨-, rfl⟩ | ⟨-, nodes, -, rfl⟩
  · exact ⟨_, rfl⟩
  · exact ⟨_, rfl⟩

/-! ## The command -/

section

variable {r : MergeRequest} {w : Workspace} {q : MergeQuestion} {parser : Parser}

theorem patchFile_fst (tool : DiffTool) (path text patchPath diff : Text) :
    (patchFile tool path text patchPath diff).1 = (applyPatch tool text diff).1 := by
  rw [patchFile]
  rcases applyPatch tool text diff with ⟨_ | patched, log⟩ <;> rfl

namespace MergeRequest.Asks

theorem result_patchedText (hq : r.Asks w q) :
    ((r.patchedText w.toSurroundings q.baseline).on w.disk).result =
      .ok (q.patched.text? w.diffs q.baseline) := by
  have h := hq.patched
  rw [patchedText]
  cases hp : q.patched with
  | text patched =>
    rw [hp] at h
    obtain ⟨-, path, hpath, hread⟩ := h
    simp only [hpath]
    rw [Step.result_bind (Step.silent_file _) fun _ => Step.silent_pure _,
      Step.result_file_of_read hread]
    rfl
  | diff patch =>
    rw [hp] at h
    obtain ⟨hnone, path, hpath, hread⟩ := h
    simp only [hnone, hpath]
    rw [Step.result_bind (Step.silent_file _) fun _ => Step.silent_logged _,
      Step.result_file_of_read hread]
    exact congrArg Except.ok (patchFile_fst ..)

theorem result_texts (hq : r.Asks w q) :
    ((r.texts w.toSurroundings).on w.disk).result = .ok (q.texts w.diffs) := by
  have hpatched (baseline modified : Text) :=
    (r.silent_patchedText w.toSurroundings baseline).bind fun patched =>
      Step.silent_pure (⟨baseline, modified, patched⟩ : VersionTexts)
  rw [MergeRequest.texts, Step.result_bind (Step.silent_file _) fun _ =>
      (Step.silent_file _).bind (hpatched _), Step.result_file_of_read hq.baseline]
  simp only [Except.bind]
  rw [Step.result_bind (Step.silent_file _) (hpatched _), Step.result_file_of_read hq.modified]
  simp only [Except.bind]
  rw [Step.result_bind (r.silent_patchedText _ _) fun _ => Step.silent_pure _,
    hq.result_patchedText]
  rfl

theorem settle_eq (hq : r.Asks w q) (hlanguage : q.language ≠ "") (path : Text) :
    r.settle {} path = .ok
      { format := q.format.getD .source, policy := q.onUnanchored.getD .skip, matcher := {}
        language := some q.language } := by
  have hboth : ((given r.patched).isSome && (given r.patch).isSome) = false := by
    have h := hq.patched
    cases hp : q.patched with
    | text patched =>
      rw [hp] at h
      simp [h.1]
    | diff patch =>
      rw [hp] at h
      simp [h.1]
  refine settle_eq_ok.2 ⟨.source, ?_, ?_, ?_, hboth, ?_, rfl⟩
  · rw [outputFormat, hq.format]
    exact named_map OutputFormat.ofName?_name _ _ _
  · have h := hq.inputFormat
    rw [readFormat]
    cases hf : r.inputFormat with
    | none => rfl
    | some name =>
      rw [hf, Option.getD_some] at h
      rw [h]
      rfl
  · rw [MergeRequest.policy, hq.onUnanchored]
    exact named_map Policy.ofName?_name _ _ _
  · have hgiven : given (Language.detect? path r.language none) = some q.language := by
      rw [hq.language]
      simp [Language.detect?, given, hlanguage]
    simp only [sourceLanguage, hgiven]

/-- A command that asks a question merges what is asked for. -/
theorem result_outcome (hq : r.Asks w q) (hlanguage : q.language ≠ "")
    (hparser : w.parser = some parser) :
    ((r.outcome w.toSurroundings).on w.disk).result =
      (((q.texts w.diffs).parse parser q.language).1.bind q.merge).mapError .ofFault := by
  have hconfig : (Config.load w.disk w.directory).1 = {} := by
    rw [Config.load, hq.unconfigured]
  rw [MergeRequest.result_outcome, hconfig, hq.settle_eq hlanguage, hq.result_texts]
  simp only [Except.bind, Except.mapError, trees, hparser, Step.result_ofMerge]
  cases ((q.texts w.diffs).parse parser q.language).1 with
  | error f => rfl
  | ok inputs => rfl

end MergeRequest.Asks

/-! ## The tool -/

namespace MergeQuestion

/-- The call that the arguments of a question make. -/
def call (q : MergeQuestion) : MergeCall where
  baseline := some (.str q.baseline)
  modified := some (.str q.modified)
  patched := match q.patched with
    | .text patched => some (.str patched)
    | .diff _ => none
  patch := match q.patched with
    | .text _ => none
    | .diff patch => some (.str patch)
  language := some (.str q.language)
  format := some (q.format.getD .source)
  onUnanchored := q.onUnanchored

theorem read_arguments (q : MergeQuestion) : Tool.merge.read q.arguments = .merge q.call := by
  obtain ⟨baseline, modified, patched, language, format, policy⟩ := q
  cases patched <;> cases format <;> cases policy <;>
    simp [Tool.read, arguments, call, PatchedBy.argument, Json.get?, Json.members,
      Table.get?_cons, Tool.format?, Tool.policy?, Json.str?, OutputFormat.ofName?_name,
      Policy.ofName?_name]

/-- The tool parses the texts that the command parses. -/
theorem trees_call (q : MergeQuestion) (parser : Parser) (diffs : DiffTool) :
    q.call.trees parser (some (.ofText? (q.texts diffs).patched)) =
      (q.texts diffs).parse parser q.language := by
  simp only [MergeCall.trees, VersionTexts.parse, call, Argument.parse_str]
  cases (q.texts diffs).patched with
  | none => rfl
  | some text => exact congrArg _ (Argument.parse_str parser q.language text)

theorem answerWith_call (q : MergeQuestion) (parser : Parser) (diffs : DiffTool) :
    (q.call.answerWith parser (some (.ofText? (q.texts diffs).patched))).1 =
      ((q.texts diffs).parse parser q.language).1.map fun inputs =>
        MergeCall.answerOf (q.merge inputs) := by
  rw [MergeCall.answerWith, trees_call]
  rcases (q.texts diffs).parse parser q.language with ⟨_ | inputs, log⟩ <;> rfl

/-- The tool answers a question by the merge that is asked for. -/
theorem answer_arguments (q : MergeQuestion) (parser : Parser) (diffs : DiffTool) :
    (Tool.merge.answer (some parser) diffs q.arguments).1 =
      ((q.texts diffs).parse parser q.language).1.map fun inputs =>
        MergeCall.answerOf (q.merge inputs) := by
  rw [← q.answerWith_call, Tool.answer, q.read_arguments, ToolCall.answer, MergeCall.answer]
  cases hp : q.patched with
  | text patched => simp only [call, texts, hp]; rfl
  | diff patch => simp only [call, texts, hp, Argument.patch_str]; rfl

end MergeQuestion

/-! ## Agreement -/

/-- A run of the command and an answer of the tool, with a parser and a language, that say the
same. -/
structure FrontEndsAgree (parser : Parser) (language : Text) (run : CommandRun MergeOutcome)
    (answer : Except Fault ToolResult) : Prop where
  /-- The command returns exactly when the answer of the tool is no error. -/
  returns : (∃ outcome, run.result = .ok outcome) ↔ ∃ a, answer = .ok a ∧ a.isError = false
  /-- Both give the same text and the same report. -/
  payload : ∀ outcome, run.result = .ok outcome →
    run.printed = [(Json.obj [("success", .bool true), ("text", .str (stripFences outcome.text)),
      ("report", outcome.report.toJson)]).pretty ++ "\n"] ∧
    answer = .ok { text := (Json.obj [("text", .str (stripFences outcome.text)),
      ("report", outcome.report.toJson)]).pretty }
  /-- A refused command has the exit code of refused merges, and the tool answers with the message
  and the error type of the refusal. -/
  refusal : ∀ cause, run.result = .error (.refused cause) → ∃ message errorType,
    cause.notice true = { json := true, message, exitCode := Refusal.refusedMerge
                          extra := some [("errorType", .str errorType)] } ∧
    answer = .ok (.failure message [("errorType", .str errorType)])
  /-- There is neither a result nor a refusal only where the parser fails without words, and then
  neither front end has an answer. -/
  fault : ∀ e, run.result = .error e → (∃ cause, e = .refused cause) ∨
    e = .fault .wordless ∧ answer = .error .wordless ∧
      ∃ source, parser.parse language source = .error none

namespace FrontEndsAgree

variable {language : Text} {run : CommandRun MergeOutcome}

theorem of_wordless (h : run.result = .error (.fault .wordless))
    (hparser : ∃ source, parser.parse language source = .error none) :
    FrontEndsAgree parser language run (.error .wordless) where
  returns := by simp [h]
  payload := fun outcome ho => by simp [h] at ho
  refusal := fun cause hc => by simp [h] at hc
  fault := fun e he => .inr ⟨by simpa [h] using he.symm, rfl, hparser⟩

theorem of_refusal {f : Fault} {name : Text}
    (h : run.result = .error (.refused (.mergeRefused name f))) :
    FrontEndsAgree parser language run (.ok (.failure f.message [("errorType", .str name)])) where
  returns := by simp [h, ToolResult.failure]
  payload := fun outcome ho => by simp [h] at ho
  refusal := fun cause hc => by
    rw [h, Except.error.injEq, CommandError.refused.injEq] at hc
    exact ⟨f.message, name, hc ▸ rfl, rfl⟩
  fault := fun e he => .inl ⟨_, by simpa [h] using he.symm⟩

theorem of_outcome {outcome : MergeOutcome} (h : run.result = .ok outcome)
    (hprinted : run.printed = [(Json.obj [("success", .bool true),
      ("text", .str (stripFences outcome.text)),
      ("report", outcome.report.toJson)]).pretty ++ "\n"]) :
    FrontEndsAgree parser language run (.ok (MergeCall.answerOf (.ok outcome))) where
  returns := by simp [h, MergeCall.answerOf]
  payload := fun outcome' ho => by
    obtain rfl : outcome = outcome' := Except.ok.inj (h.symm.trans ho)
    exact ⟨hprinted, rfl⟩
  refusal := fun cause hc => by simp [h] at hc
  fault := fun e he => by simp [h] at he

end FrontEndsAgree

/-- **The command and the tool agree** on every question, whatever parser there is and whatever
reads and applies the diffs. -/
theorem runMerge_agrees (hq : r.Asks w q) (hlanguage : q.language ≠ "")
    (hparser : w.parser = some parser) :
    FrontEndsAgree parser q.language (runMerge w r)
      (Tool.merge.answer (some parser) w.diffs q.arguments).1 := by
  have hcommand := hq.result_outcome hlanguage hparser
  rw [q.answer_arguments]
  -- parsing fails outside what the tool catches, merging inside
  cases hparse : ((q.texts w.diffs).parse parser q.language).1 with
  | error f =>
    obtain ⟨rfl, hwordless⟩ := VersionTexts.parse_error hparse
    rw [hparse] at hcommand
    exact FrontEndsAgree.of_wordless (result_runMerge_of_error hcommand) hwordless
  | ok inputs =>
    rw [hparse] at hcommand
    simp only [Except.bind] at hcommand
    simp only [Except.map]
    cases hmerge : q.merge inputs with
    | error f =>
      obtain ⟨name, hname⟩ := performMerge_error hmerge
      have hanswer : MergeCall.answerOf (.error f) =
          .failure f.message [("errorType", .str name)] := by
        rw [MergeCall.answerOf, ToolResult.ofFault, hname]
        rfl
      rw [hmerge] at hcommand
      rw [hanswer]
      refine FrontEndsAgree.of_refusal ?_
      rw [result_runMerge_of_error hcommand, CommandError.ofFault, hname]
    | ok outcome =>
      rw [hmerge] at hcommand
      obtain ⟨hresult, hprinted⟩ := runMerge_of_print hq.output hcommand
      refine FrontEndsAgree.of_outcome hresult ?_
      rw [hprinted, hq.json, if_pos rfl, MergeRequest.payload, hq.output]

end

/-- Three words, of which the modified side adds one and the patched side, by a diff, another. -/
def threeWords : MergeQuestion where
  baseline := "one two three\n"
  modified := "zero one two three\n"
  patched := .diff "@@ -1,1 +1,1 @@\n-one two three\n+one two three four\n"
  language := "Text"
  onUnanchored := some .attachRoot

/-- A parser that finds words. -/
def wordParser (languages : List Text) : Parser where
  languages
  parse := fun _ source =>
    .ok (.node ⟨"document", source⟩ ((Text.words source).map fun word => .node ⟨"word", word⟩ []))

/-- A directory with the texts of that question. -/
def threeWordsWorkspace : Workspace where
  directory := "/work"
  disk := [("/work/old.txt", .file "one two three\n"),
    ("/work/new.txt", .file "zero one two three\n"),
    ("/work/change.diff", .file "@@ -1,1 +1,1 @@\n-one two three\n+one two three four\n")]
  parser := some (wordParser ["Text"])
  diffs := Unified.tool

/-- The command that asks it. -/
def threeWordsRequest : MergeRequest where
  baseline := "old.txt"
  modified := "new.txt"
  patch := some "change.diff"
  language := some "Text"
  onUnanchored := some "attach-root"
  json := true

theorem runMerge_agrees_three_words :
    threeWordsRequest.Asks threeWordsWorkspace threeWords ∧
    (∃ outcome, (runMerge threeWordsWorkspace threeWordsRequest).result = .ok outcome) ∧
    FrontEndsAgree (wordParser ["Text"]) "Text" (runMerge threeWordsWorkspace threeWordsRequest)
      (Tool.merge.answer (some (wordParser ["Text"])) Unified.tool threeWords.arguments).1 := by
  have hq : threeWordsRequest.Asks threeWordsWorkspace threeWords :=
    { json := rfl
      output := rfl
      inputFormat := rfl
      language := rfl
      format := rfl
      onUnanchored := rfl
      unconfigured := rfl
      baseline := rfl
      modified := rfl
      patched := ⟨rfl, "change.diff", rfl, rfl⟩ }
  have hok : (runMerge threeWordsWorkspace threeWordsRequest).result.isOk = true := by
    decide +kernel
  refine ⟨hq, ?_, runMerge_agrees hq (by decide) rfl⟩
  cases hrun : (runMerge threeWordsWorkspace threeWordsRequest).result with
  | error e => simp [hrun, Except.isOk, Except.toBool] at hok
  | ok outcome => exact ⟨outcome, rfl⟩

end TreeMerge
