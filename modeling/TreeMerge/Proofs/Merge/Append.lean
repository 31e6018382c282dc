import Mathlib
import TreeMerge.Proofs.Merge.Run
import TreeMerge.Proofs.Tree.Graft

/-!
# Insertion only appends

A merge leaves its skeleton as it is and appends the new subtrees behind the children of the nodes
that they are placed at.

* `sum_sizeAll_fibers` : subtrees grouped by their places are as large as they are together;
* `MergeRun.Appended` : a tree that is the skeleton with the new subtrees appended;
* `mergeTrees_appends` : what a merge returns is such a tree.
-/

namespace TreeMerge

/-- Grouping subtrees by their places neither loses nor repeats one. -/
theorem sum_sizeAll_fibers {m : Nat} (place : Nat → Option Nat) (subtree : Nat → Node)
    {l : List Nat} (h : ∀ n ∈ l, ∀ a, place n = some a → a < m) :
    ∑ a ∈ Finset.range m, Rose.sizeAll ((l.filter fun n => place n == some a).map subtree) =
      ((l.filter fun n => (place n).isSome).map fun n => (subtree n).size).sum := by
  induction l with
  | nil => simp [Rose.sizeAll]
  | cons n l ih =>
    have hrest := ih fun x hx => h x (List.mem_cons_of_mem n hx)
    cases hn : place n with
    | none => simp [hn, hrest]
    | some b =>
      have hb := h n List.mem_cons_self b hn
      -- the item counts at its own place and nowhere else
      have hsplit : ∀ a, Rose.sizeAll
          (((n :: l).filter fun n => place n == some a).map subtree) =
          (if b = a then (subtree n).size else 0) +
            Rose.sizeAll ((l.filter fun n => place n == some a).map subtree) := by
        intro a
        by_cases hba : b = a
        · simp [hn, hba, Rose.sizeAll]
        · simp [hn, hba]
      simp only [hsplit, Finset.sum_add_distrib, Finset.sum_ite_eq, Finset.mem_range, if_pos hb,
        hrest]
      simp [hn]

namespace MergeRun

variable {v : Versions} {matcher : Matcher Nat} {policy : Policy}

/-- A result that is the skeleton of a run with the new subtrees appended; `image` gives the new
numbers of the skeleton nodes. -/
structure Appended (run : MergeRun v matcher policy) (image : Nat → Nat) (r : MergeResult) :
    Prop where
  root : image Tree.root = Tree.root
  increasing : ∀ a b, a < b → image a < image b
  within : ∀ a < run.merged.size, image a < r.tree.size
  content : ∀ a < run.merged.size, r.tree.content (image a) = run.merged.content a
  parent : ∀ a < run.merged.size, r.tree.parent? (image a) = (run.merged.parent? a).map image
  position : ∀ a < run.merged.size, r.tree.childIndex (image a) = run.merged.childIndex a
  children : ∀ a < run.merged.size, ∃ new,
    r.tree.children (image a) = (run.merged.children a).map image ++ new ∧
      new.map r.tree.subtree = run.copies a
  placed : ∀ side, ∀ n ∈ run.placed side, ∃ a < run.merged.size, run.place side n = some a
  size : r.tree.size = run.merged.size + (r.report.inserted.map fun i => i.size).sum
  inserted : r.report.inserted = (run.placed .modified).map (run.record .modified) ++
    (run.placed .patched).map (run.record .patched)

theorem sum_copies (run : MergeRun v matcher policy) :
    ∑ a ∈ Finset.range run.merged.size, Rose.sizeAll (run.copies a) =
      (run.report.inserted.map fun i => i.size).sum := by
  have hside : ∀ side, ∑ a ∈ Finset.range run.merged.size, Rose.sizeAll (run.copiesOf side a) =
      (((run.placed side).map (run.record side)).map fun i => i.size).sum := by
    intro side
    rw [List.map_map]
    exact sum_sizeAll_fibers (run.place side) (v.side side).subtree fun n _ a => run.lt_of_place
  have hadd : ∀ a, Rose.sizeAll (run.copies a) =
      Rose.sizeAll (run.copiesOf .modified a) + Rose.sizeAll (run.copiesOf .patched a) :=
    fun a => Rose.sizeAll_append _ _
  simp only [hadd, Finset.sum_add_distrib, hside]
  rw [report, List.map_append, List.sum_append]

theorem appended (run : MergeRun v matcher policy) :
    run.Appended (run.merged.graftId run.copies) run.result where
  root := Tree.graftId_root
  increasing := fun _ _ => Tree.graftId_lt_graftId
  within := fun _ => Tree.graftId_lt_size
  content := fun _ => Tree.content_graft
  parent := fun _ => Tree.parent?_graft
  position := fun _ => Tree.childIndex_graft
  children := fun _ => Tree.children_graft
  placed := by
    intro side n hn
    obtain ⟨a, ha⟩ := Option.isSome_iff_exists.1 (List.mem_filter.1 hn).2
    exact ⟨a, run.lt_of_place ha, ha⟩
  size := by
    show (run.merged.graft run.copies).size = _ + (run.report.inserted.map _).sum
    rw [Tree.size_graft, sum_copies]
  inserted := rfl

end MergeRun

/-- **Insertion only appends.** Whatever the matcher and the policy, what a merge returns is its
skeleton, node by node with the same content, parent and position; behind the children of a node
come the new subtrees that are placed there, those of the modified side first, each side in the
order of its tree; the report has one record for each of them, in that order, and their sizes are
all that the tree has grown by. -/
theorem mergeTrees_appends {v : Versions} {matcher : Matcher Nat} {policy : Policy}
    {r : MergeResult} (h : (mergeTrees v matcher policy).1 = .ok r) :
    ∃ (run : MergeRun v matcher policy) (image : Nat → Nat), run.Appended image r := by
  obtain ⟨run, rfl⟩ := MergeRun.of_mergeTrees h
  exact ⟨run, _, run.appended⟩

/-- A leaf below an inner node on one side, and another one below the root on the other. -/
def grown : Versions where
  baseline := .ofNode (.node ⟨"R", ""⟩ [.node ⟨"F", ""⟩ []])
  modified := .ofNode (.node ⟨"R", ""⟩ [.node ⟨"F", ""⟩ [.node ⟨"x", "1"⟩ []]])
  patched := .ofNode (.node ⟨"R", ""⟩ [.node ⟨"F", ""⟩ [], .node ⟨"y", "2"⟩ []])

/-- The tree that results has both leaves. -/
def grownTogether : MergeResult where
  tree := .ofNode (.node ⟨"R", ""⟩
    [.node ⟨"F", ""⟩ [.node ⟨"x", "1"⟩ []], .node ⟨"y", "2"⟩ []])
  report := {
    decisions := { modifiedOnly := 1, diverged := 1 }
    conflicts := [⟨⟨"R", ""⟩, some ⟨"R", ""⟩, some ⟨"R", ""⟩⟩]
    inserted := [⟨⟨.modified, "x", "1", 1⟩, "F", false⟩, ⟨⟨.patched, "y", "2", 1⟩, "R", false⟩] }

theorem mergeTrees_appends_grown :
    let answer : List (Nat × Nat) := [(0, 0), (1, 1)]
    let matcher : Matcher Nat := .prepared [answer, answer, answer, answer]
    (mergeTrees grown matcher .skip).1 = .ok grownTogether ∧
      ∃ (run : MergeRun grown matcher .skip) (image : Nat → Nat),
        run.Appended image grownTogether := by
  have h : (mergeTrees grown (.prepared [[((0 : Nat), 0), (1, 1)], [(0, 0), (1, 1)],
      [(0, 0), (1, 1)], [(0, 0), (1, 1)]]) .skip).1 = .ok grownTogether := by cbv
  exact ⟨h, mergeTrees_appends h⟩

end TreeMerge
