import TreeMerge.Proofs.Merge.Run
import TreeMerge.Proofs.Tree.Graft

/-!
# What arrives at a skeleton

A merge ends with what its matcher says of the skeleton. Whatever it names nodes by, the new
subtrees of both sides arrive there, and if the merge returns, all of them have been dealt with.

* `Session.Untouched` : a session in which nothing is inserted yet;
* `Session.of_settle` : subtrees are only sent to nodes that are there;
* `Session.insert_eq_settle` : what is placed when the matcher has answered;
* `Intake` : a skeleton and what the matcher says of it;
* `Intake.mem_arrivals` : the new subtrees that are dealt with one by one;
* `Intake.Settled`, `Intake.of_mergeTrees` : what a merge returns.
-/

namespace TreeMerge

/-- Where all items give a result together, each of them does. -/
theorem exists_of_mapM_ok {ε α β : Type} {f : α → Except ε β} {l : List α} {bs : List β}
    (h : l.mapM f = .ok bs) : ∀ a ∈ l, ∃ b, f a = .ok b := by
  induction l generalizing bs with
  | nil => simp
  | cons a l ih =>
    rw [List.mapM_cons] at h
    obtain ⟨b, hb, hrest⟩ := Except.exists_of_bind_eq_ok h
    obtain ⟨cs, hcs, -⟩ := Except.exists_of_bind_eq_ok hrest
    intro x hx
    rcases List.mem_cons.1 hx with rfl | hx
    · exact ⟨b, hb⟩
    · exact ih hcs x hx

/-- A subtree whose insertion can be recorded goes to a node that is there. -/
theorem Arrival.lt_of_insertion?_ok {policy : Policy} {merged : Tree} {a : Arrival}
    {i : Option Insertion} (h : a.insertion? policy merged = .ok i) {id : Nat}
    (ha : a.target? policy = some id) : id < merged.size := by
  unfold insertion? at h
  rw [ha] at h
  obtain ⟨id', hid', -⟩ := Except.exists_of_bind_eq_ok h
  by_contra hlt
  simp [Tree.locate, Tree.has, hlt] at hid'

namespace Session

variable {ν : Type}

/-- A session of a merge that has asked two questions and has inserted nothing. -/
structure Untouched (v : Versions) (matcher : Matcher ν) (policy : Policy) (s : Session ν) :
    Prop where
  versions : s.versions = v
  matcher : s.matcher = matcher
  policy : s.policy = policy
  asked : s.asked = 2
  inserted : s.report.inserted = []
  unanchored : s.report.unanchored = []

/-- Placing that succeeds has sent every subtree to a node that is there. -/
theorem of_settle {s s' : Session ν} {merged tree : Tree} {arrivals : List Arrival}
    (h : s.settle merged arrivals = (.ok tree, s')) :
    (∀ a ∈ arrivals, ∀ id, a.target? s.policy = some id → id < merged.size) ∧
      tree = merged.graft (appendedTo s.policy arrivals) ∧
      s'.report = { s.report with
        inserted := s.report.inserted ++ arrivals.filterMap (Arrival.insertion s.policy merged)
        unanchored := s.report.unanchored ++
          (arrivals.filter fun a => a.anchor.isNone).map Arrival.summary } := by
  have hthere : ∀ a ∈ arrivals, ∀ id, a.target? s.policy = some id → id < merged.size := by
    intro a ha id hid
    cases hmap : arrivals.mapM (Arrival.insertion? s.policy merged) with
    | error e =>
      unfold settle at h
      simp [hmap] at h
    | ok insertions =>
      obtain ⟨i, hi⟩ := exists_of_mapM_ok hmap a ha
      exact Arrival.lt_of_insertion?_ok hi hid
  obtain ⟨s'', hs, hreport⟩ := settle_eq rfl hthere
  rw [h, Prod.mk.injEq] at hs
  obtain ⟨htree, rfl⟩ := hs
  refine ⟨hthere, ?_, hreport⟩
  split at htree
  · cases htree
  · exact Except.ok.inj htree

variable [DecidableEq ν] [NodeName ν]

/-- The new subtrees of the patched side that the modified side brings as well. -/
def twice (s : Session ν) (fromModified fromPatched : List Nat) : List Nat :=
  duplicates (fun m p => s.versions.modified.isomorphic m s.versions.patched p) fromModified
    fromPatched

/-- When the matcher has answered, an insertion counts the duplicates and places the others. -/
theorem insert_eq_settle {s : Session ν} {merged : Tree} {ofM ofP : Mapping ν}
    (hM : s.matcher.run s.asked s.versions.modified merged = .ok ofM)
    (hP : s.matcher.run (s.asked + 1) s.versions.patched merged = .ok ofP) :
    let fromModified := topmostUnmatched s.versions.modified ofM
    let fromPatched := topmostUnmatched s.versions.patched ofP
    ∃ s' : Session ν, s'.policy = s.policy ∧
      s'.report = { s.report with deduplicated := (s.twice fromModified fromPatched).length } ∧
      s.insert merged = s'.settle merged
        (s.arrivals fromModified fromPatched (s.twice fromModified fromPatched)) := by
  unfold insert ask
  simp only [hM, hP]
  refine ⟨_, ?_, ?_, rfl⟩
  · rfl
  · rfl

/-- Pairing the baseline inserts nothing, and sends no node to the skeleton. -/
theorem untouched_of_correspond {v : Versions} {matcher : Matcher ν} {policy : Policy}
    {s : Session ν} (h : (start v matcher policy).correspond = (.ok (), s)) :
    s.Untouched v matcher policy ∧ s.baselineToMerged = [] := by
  unfold correspond ask start at h
  cases hM : matcher.run 0 v.baseline v.modified with
  | error e => simp [hM] at h
  | ok toM =>
    cases hP : matcher.run 1 v.baseline v.patched with
    | error e => simp [hM, hP] at h
    | ok toP =>
      simp only [hM, hP, Nat.zero_add, Prod.mk.injEq, true_and] at h
      subst h
      refine ⟨?_, rfl⟩
      constructor <;> rfl

/-- Building the skeleton inserts nothing. -/
theorem untouched_of_build {v : Versions} {matcher : Matcher ν} {policy : Policy}
    {s s' : Session ν} {merged : Tree}
    (h : (start v matcher policy).correspond = (.ok (), s)) (hbuild : s.build = (.ok merged, s')) :
    s'.Untouched v matcher policy := by
  obtain ⟨⟨hversions, hmatcher, hpolicy, hasked, hinserted, hlost⟩, -⟩ := untouched_of_correspond h
  obtain ⟨made, -, -, rfl⟩ := of_build hbuild
  exact ⟨hversions, hmatcher, hpolicy, hasked, hinserted, hlost⟩

end Session

variable {ν : Type} [DecidableEq ν] [NodeName ν]

/-- The skeleton that a merge builds, and what its matcher says of it. -/
structure Intake (v : Versions) (matcher : Matcher ν) (policy : Policy) where
  merged : Tree
  built : Session ν
  /-- The correspondence of a side with the skeleton. -/
  toMerged : Side → Mapping ν
  built_eq : ∃ s, (Session.start v matcher policy).correspond = (.ok (), s) ∧
    s.build = (.ok merged, built)
  toMerged_eq : ∀ side, matcher.run (side.turn + 2) (v.side side) merged = .ok (toMerged side)

namespace Intake

variable {v : Versions} {matcher : Matcher ν} {policy : Policy}

section

variable (intake : Intake v matcher policy)

/-- The roots of the new subtrees of a side. -/
def newRoots (side : Side) : List Nat :=
  topmostUnmatched (v.side side) (intake.toMerged side)

/-- The new subtrees of the patched side that the modified side brings already. -/
def twice : List Nat :=
  duplicates (fun m p => v.modified.isomorphic m v.patched p) (intake.newRoots .modified)
    (intake.newRoots .patched)

/-- A new subtree of a side with its anchor. -/
def arrival : Side → Nat → Arrival
  | .modified =>
    .ofNode .modified v.modified intake.built.modifiedToBaseline intake.built.baselineToMerged
  | .patched =>
    .ofNode .patched v.patched intake.built.patchedToBaseline intake.built.baselineToMerged

/-- All new subtrees but the duplicates. -/
def arrivals : List Arrival :=
  (intake.newRoots .modified).map (intake.arrival .modified) ++
    ((intake.newRoots .patched).filter fun p => !intake.twice.contains p).map
      (intake.arrival .patched)

/-- A new subtree arrives unless it is a duplicate. -/
theorem mem_arrivals {side : Side} {c : Nat} (h : c ∈ intake.newRoots side) :
    intake.arrival side c ∈ intake.arrivals ∨ side = .patched ∧ c ∈ intake.twice := by
  unfold arrivals
  rw [List.mem_append]
  cases side with
  | modified => exact Or.inl (Or.inl (List.mem_map_of_mem h))
  | patched =>
    by_cases htwice : c ∈ intake.twice
    · exact Or.inr ⟨rfl, htwice⟩
    · exact Or.inl (Or.inr (List.mem_map_of_mem (List.mem_filter.2 ⟨h, by simpa using htwice⟩)))

theorem untouched : intake.built.Untouched v matcher policy := by
  obtain ⟨s, hs, hbuild⟩ := intake.built_eq
  exact Session.untouched_of_build hs hbuild

/-- What is left to do when the matcher has answered. -/
theorem insert_eq : ∃ s : Session ν, s.policy = policy ∧
    s.report = { intake.built.report with deduplicated := intake.twice.length } ∧
    intake.built.insert intake.merged = s.settle intake.merged intake.arrivals := by
  obtain ⟨hv, hm, hp, ha, -, -⟩ := intake.untouched
  have h₁ : intake.built.matcher.run intake.built.asked intake.built.versions.modified
      intake.merged = .ok (intake.toMerged .modified) := by
    rw [hv, hm, ha]
    exact intake.toMerged_eq .modified
  have h₂ : intake.built.matcher.run (intake.built.asked + 1) intake.built.versions.patched
      intake.merged = .ok (intake.toMerged .patched) := by
    rw [hv, hm, ha]
    exact intake.toMerged_eq .patched
  obtain ⟨s, hpolicy, hreport, hinsert⟩ := Session.insert_eq_settle h₁ h₂
  rw [Session.twice, Session.arrivals, hv] at hinsert
  rw [Session.twice, hv] at hreport
  exact ⟨s, hpolicy.trans hp, hreport, hinsert⟩

/-- A result in which all that arrives is dealt with; `image` gives the new numbers of the skeleton
nodes. -/
structure Settled (image : Nat → Nat) (r : MergeResult) : Prop extends
    intake.merged.Embeds r.tree image where
  target : ∀ a ∈ intake.arrivals, ∀ id, a.target? policy = some id → id < intake.merged.size
  children : ∀ a < intake.merged.size, ∃ new,
    r.tree.children (image a) = (intake.merged.children a).map image ++ new ∧
      new.map r.tree.subtree = appendedTo policy intake.arrivals a
  inserted : r.report.inserted =
    intake.arrivals.filterMap (Arrival.insertion policy intake.merged)
  unanchored : r.report.unanchored =
    (intake.arrivals.filter fun a => a.anchor.isNone).map Arrival.summary
  deduplicated : r.report.deduplicated = intake.twice.length

theorem settled {tree : Tree} {s : Session ν}
    (h : intake.built.insert intake.merged = (.ok tree, s)) :
    intake.Settled (intake.merged.graftId (appendedTo policy intake.arrivals))
      ⟨tree, s.report⟩ := by
  obtain ⟨s', hpolicy, hreport, hinsert⟩ := intake.insert_eq
  obtain ⟨htarget, rfl, hsettled⟩ := Session.of_settle (hinsert.symm.trans h)
  rw [hpolicy] at htarget hsettled ⊢
  rw [hreport, intake.untouched.inserted, intake.untouched.unanchored] at hsettled
  exact {
    toEmbeds := Tree.embeds_graft _ _
    target := htarget
    children := fun _ => Tree.children_graft
    inserted := by
      rw [hsettled]
      rfl
    unanchored := by
      rw [hsettled]
      rfl
    deduplicated := by rw [hsettled] }

end

/-- The intake of a skeleton and two answers about it. -/
def ofAnswers {merged : Tree} {built : Session ν} {ofM ofP : Mapping ν}
    (hbuilt : ∃ s, (Session.start v matcher policy).correspond = (.ok (), s) ∧
      s.build = (.ok merged, built))
    (hM : matcher.run 2 v.modified merged = .ok ofM)
    (hP : matcher.run 3 v.patched merged = .ok ofP) : Intake v matcher policy where
  merged := merged
  built := built
  toMerged
    | .modified => ofM
    | .patched => ofP
  built_eq := hbuilt
  toMerged_eq
    | .modified => hM
    | .patched => hP

/-- **A merge that returns has settled all that arrives.** -/
theorem of_mergeTrees {r : MergeResult} (h : (mergeTrees v matcher policy).1 = .ok r) :
    ∃ (intake : Intake v matcher policy) (image : Nat → Nat), intake.Settled image r := by
  unfold mergeTrees at h
  rcases hs₁ : (Session.start v matcher policy).correspond with ⟨_ | _, s₁⟩
  · simp [hs₁] at h
  rcases hs₂ : s₁.build with ⟨_ | merged, s₂⟩
  · simp [hs₁, hs₂] at h
  rcases hs₃ : s₂.insert merged with ⟨_ | tree, s₃⟩
  · simp [hs₁, hs₂, hs₃] at h
  simp only [hs₁, hs₂, hs₃, Except.ok.injEq] at h
  subst h
  have huntouched := Session.untouched_of_build hs₁ hs₂
  obtain ⟨ofM, ofP, hM, hP⟩ := Session.of_insert hs₃
  rw [huntouched.matcher, huntouched.asked, huntouched.versions] at hM hP
  exact ⟨ofAnswers ⟨s₁, hs₁, hs₂⟩ hM hP, _, settled _ hs₃⟩

end Intake

end TreeMerge
