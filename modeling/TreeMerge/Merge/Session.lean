import TreeMerge.Merge.Decision
import TreeMerge.Merge.Insertion
import TreeMerge.Merge.Skeleton

/-!
# Merge sessions

A session holds what one merge of three trees has found so far. Its stages may fail, and what they
had recorded until then stays recorded.

* `Session`, `Session.start` : the state of a merge;
* `Session.correspond` : pair every baseline node with its counterparts;
* `Session.build` : the merged skeleton, one decision for each kept baseline node;
* `Session.insert` : the merged tree with the new subtrees of both sides.
-/

namespace TreeMerge

/-- The three trees of a merge. -/
structure Versions where
  baseline : Tree
  modified : Tree
  patched : Tree

/-- The state of a merge whose matcher names nodes in `ν`. -/
structure Session (ν : Type) where
  versions : Versions
  matcher : Matcher ν
  policy : Policy
  /-- How many questions the matcher has been asked. -/
  asked : Nat := 0
  /-- The baseline nodes that survive on at least one side, and the root. -/
  triples : Table Nat (Triple ν) := []
  modifiedToBaseline : Table ν Nat := []
  patchedToBaseline : Table ν Nat := []
  /-- Where the kept baseline nodes are in the merged skeleton. -/
  baselineToMerged : Table Nat Nat := []
  report : Report := {}
  log : Log := []

namespace Session

variable {ν : Type}

/-- A session in which nothing has happened. -/
def start (versions : Versions) (matcher : Matcher ν) (policy : Policy) : Session ν :=
  { versions, matcher, policy }

/-- Ask the matcher for the correspondence of two trees. -/
def ask (s : Session ν) (src dst : Tree) : Except Fault (Mapping ν) × Session ν :=
  (s.matcher.run s.asked src dst, { s with asked := s.asked + 1 })

/-- Add log entries. -/
def note (s : Session ν) (entries : Log) : Session ν :=
  { s with log := s.log ++ entries }

/-! ## Correspondence -/

variable [DecidableEq ν] [NodeName ν]

/-- A baseline node that is kept: the root, and whatever has a counterpart. -/
def survives (toModified toPatched : Mapping ν) (b : Nat) : Bool :=
  b == Tree.root || toModified.hasSrc (NodeName.ofId b) || toPatched.hasSrc (NodeName.ofId b)

/-- A baseline node with its counterparts. -/
def tripleOf (v : Versions) (toModified toPatched : Mapping ν) (b : Nat) : Triple ν where
  baseline := ⟨v.baseline, b⟩
  modified := (toModified.dst? (NodeName.ofId b)).map fun m => ⟨v.modified, m⟩
  patched := (toPatched.dst? (NodeName.ofId b)).map fun p => ⟨v.patched, p⟩

/-- The counterparts of baseline nodes with the nodes themselves, in baseline order. -/
def reverseLinks (ids : List Nat) (m : Mapping ν) : List (ν × Nat) :=
  ids.filterMap fun b => (m.dst? (NodeName.ofId b)).map fun d => (d, b)

/-- Record two correspondences of the baseline. -/
def recordCorrespondence (s : Session ν) (toModified toPatched : Mapping ν) : Session ν :=
  let v := s.versions
  let ids := v.baseline.ids
  let kept := ids.filter (survives toModified toPatched)
  let gone := ids.filter fun b => !survives toModified toPatched b
  { s with
    triples := s.triples.putAll (kept.map fun b => (b, tripleOf v toModified toPatched b))
    modifiedToBaseline := s.modifiedToBaseline.putAll (reverseLinks ids toModified)
    patchedToBaseline := s.patchedToBaseline.putAll (reverseLinks ids toPatched)
    report := { s.report with dropped := s.report.dropped + gone.length } }

/-- The log entry about a correspondence. -/
def correspondenceEntry (s : Session ν) (toModified toPatched : Mapping ν) : Log :=
  .debug "Correspondence built" [
    ("baselineNodes", .nat s.versions.baseline.size),
    ("triples", .nat s.triples.length),
    ("matchedInModified", .nat toModified.size),
    ("matchedInPatched", .nat toPatched.size),
    ("dropped", .nat s.report.dropped)]

/-- Pair every baseline node with its counterparts in the two derived versions. -/
def correspond (s : Session ν) : Except Fault Unit × Session ν :=
  match s.ask s.versions.baseline s.versions.modified with
  | (.error e, s) => (.error e, s)
  | (.ok toModified, s) =>
    match s.ask s.versions.baseline s.versions.patched with
    | (.error e, s) => (.error e, s)
    | (.ok toPatched, s) =>
      let s := s.recordCorrespondence toModified toPatched
      (.ok (), s.note (s.correspondenceEntry toModified toPatched))

/-! ## Skeleton -/

/-- The triple of the root where no correspondence was made: unchanged on both sides. -/
def unchangedRoot (s : Session ν) : Triple ν :=
  let t := s.versions.baseline
  let ref : Ref ν := ⟨t, NodeName.ofId Tree.root⟩
  ⟨⟨t, Tree.root⟩, some ref, some ref⟩

/-- The triple of a kept baseline node. -/
def tripleAt (s : Session ν) (b : Nat) : Option (Triple ν) :=
  match s.triples.get? b with
  | some t => some t
  | none => if b == Tree.root then some s.unchangedRoot else none

/-- The kept part of the baseline. -/
def kept (s : Session ν) : Rose (Triple ν) :=
  (Rose.prune s.tripleAt Tree.root s.versions.baseline.node).getD (.node s.unchangedRoot [])

/-- The warning about a conflict. -/
def conflictEntry (c : Conflict) : LogEntry where
  level := .warn
  message := "Modified and patched diverge; keeping baseline"
  data := some (.obj [
    ("type", .str c.baseline.kind),
    ("baseline", .str c.baseline.label),
    ("modified", .ofText? (c.modified.map Content.label)),
    ("patched", .ofText? (c.patched.map Content.label))])

/-- Record decisions in the report and conflicts also in the log. -/
def recordDecisions (s : Session ν) (made : List (Triple ν × Decision)) : Session ν :=
  let conflicts := (made.filter fun d => d.2.rule == .diverged).map fun d => d.1.conflict
  { s with
    report := { s.report with
      decisions := made.foldl (fun t d => t.add d.2.rule) s.report.decisions
      conflicts := s.report.conflicts ++ conflicts }
    log := s.log ++ conflicts.map conflictEntry }

/-- Build the merged skeleton: one decision for each kept baseline node, in pre-order. -/
def build (s : Session ν) : Except Fault Tree × Session ν :=
  let kept := s.kept
  let (made, fault) := decideAll kept.preorder
  let s := s.recordDecisions made
  match fault with
  | some e => (.error e, s)
  | none =>
    let origins := kept.preorder.map fun t => t.baseline.id
    (.ok (.ofNode (kept.map Triple.settled)),
      { s with baselineToMerged := s.baselineToMerged.putAll origins.zipIdx })

/-! ## Insertion -/

/-- The new subtrees of both sides that are to be placed: those of the modified side first, then
those of the patched side that are no duplicates. -/
def arrivals (s : Session ν) (fromModified fromPatched twice : List Nat) : List Arrival :=
  let v := s.versions
  fromModified.map (.ofNode .modified v.modified s.modifiedToBaseline s.baselineToMerged) ++
    (fromPatched.filter fun p => !twice.contains p).map
      (.ofNode .patched v.patched s.patchedToBaseline s.baselineToMerged)

/-- Record and place arrivals in a tree. -/
def settle (s : Session ν) (merged : Tree) (arrivals : List Arrival) :
    Except Fault Tree × Session ν :=
  match arrivals.mapM (Arrival.insertion? s.policy merged) with
  | .error e => (.error e, s)
  | .ok insertions =>
    let lost := arrivals.filter fun a => a.anchor.isNone
    let s := { s with
      report := { s.report with
        inserted := s.report.inserted ++ insertions.filterMap id
        unanchored := s.report.unanchored ++ lost.map Arrival.summary }
      log := s.log ++ lost.map (Arrival.warning s.policy) }
    if s.policy = .error ∧ s.report.unanchored ≠ [] then
      (.error (.unanchored s.report.unanchored), s)
    else (.ok (merged.graft (appendedTo s.policy arrivals)), s)

/-- Insert what the two sides added, once where both added the same. -/
def insert (s : Session ν) (merged : Tree) : Except Fault Tree × Session ν :=
  let v := s.versions
  match s.ask v.modified merged with
  | (.error e, s) => (.error e, s)
  | (.ok ofModified, s) =>
    match s.ask v.patched merged with
    | (.error e, s) => (.error e, s)
    | (.ok ofPatched, s) =>
      let fromModified := topmostUnmatched v.modified ofModified
      let fromPatched := topmostUnmatched v.patched ofPatched
      let twice := duplicates (fun m p => v.modified.isomorphic m v.patched p) fromModified
        fromPatched
      let s := s.note (.info "Unmatched nodes" [
        ("modified", .nat fromModified.length), ("patched", .nat fromPatched.length)])
      let s := { s with report := { s.report with deduplicated := twice.length } }
      s.settle merged (s.arrivals fromModified fromPatched twice)

end Session

end TreeMerge
