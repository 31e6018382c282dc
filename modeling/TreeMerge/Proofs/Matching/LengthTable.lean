import Mathlib.Data.List.Infix
import Mathlib.Data.List.NodupEquivFin
import TreeMerge.Proofs.Matching.CommonSubsequence

/-!
# Longest common subsequences from a table of lengths

A table holds, for every two suffixes, how long a best pairing of them is. A walk through it from
its first cell finds a best pairing: related items are paired, and otherwise the walk goes to the
neighbour that promises more, to the one below where both promise the same.

* `lengthTable`, `walkPairs` : the table of lengths and the walk;
* `commonRows_eq`, `lengthTable_eq` : rows and tables by suffixes;
* `walkPairs_eq` : the walk finds the pairing that the rows of best pairings have at their head;
* `Aligned`, `aligned_iff` : pairs at strictly increasing positions, as positions and as sublists;
* `longestCommon_longest` : what is found is aligned and no aligned list is longer.
-/

namespace TreeMerge

variable {α β : Type} {eq : α → β → Bool}

/-! ## The table -/

/-- The length for `x :: xs` and `y :: ys` from those for the shorter suffixes. -/
def lengthCell (related : Bool) (diagonal below right : Nat) : Nat :=
  if related then diagonal + 1 else max below right

/-- The row of `x :: xs` from the row `below` of `xs`. -/
def lengthRow (eq : α → β → Bool) (x : α) : List β → List Nat → List Nat
  | [], _ => [0]
  | y :: ys, below =>
    let rest := lengthRow eq x ys below.tail
    lengthCell (eq x y) (below.tail.headD 0) (below.headD 0) (rest.headD 0) :: rest

/-- The rows of all suffixes of `xs`, longest suffix first. -/
def lengthTable (eq : α → β → Bool) (ys : List β) : List α → List (List Nat)
  | [] => [List.replicate (ys.length + 1) 0]
  | x :: xs => lengthRow eq x ys ((lengthTable eq ys xs).headD []) :: lengthTable eq ys xs

/-- A cell of a table, 0 outside. -/
def lengthAt (table : List (List Nat)) (i j : Nat) : Nat :=
  (table[i]?.getD [])[j]?.getD 0

/-- The pairs met on the way through a table from cell `i`, `j` on. -/
def walkPairs (eq : α → β → Bool) (xs : List α) (ys : List β) (table : List (List Nat))
    (i j : Nat) : List (α × β) :=
  if h : i < xs.length ∧ j < ys.length then
    if eq xs[i] ys[j] && lengthAt table i j == lengthAt table (i + 1) (j + 1) + 1 then
      (xs[i], ys[j]) :: walkPairs eq xs ys table (i + 1) (j + 1)
    else if lengthAt table i (j + 1) ≤ lengthAt table (i + 1) j then
      walkPairs eq xs ys table (i + 1) j
    else walkPairs eq xs ys table i (j + 1)
  else []
termination_by (xs.length - i) + (ys.length - j)

/-! ## Rows and tables by suffixes -/

theorem commonRows_eq (ys : List β) (xs : List α) :
    commonRows eq ys xs = ys.tails.map (longestCommon eq xs) := by
  induction ys with
  | nil => rw [commonRows_nil, List.tails, List.map_singleton, longestCommon_nil_right]
  | cons y ys ih => rw [commonRows_cons, List.tails, List.map_cons, ih]

theorem length_commonCell (x : α) (y : β) (diagonal below right : List (α × β)) :
    (commonCell eq x y diagonal below right).length =
      lengthCell (eq x y) diagonal.length below.length right.length := by
  unfold commonCell lengthCell
  split
  · rfl
  · split <;> omega

theorem headD_map_length (rows : List (List (α × β))) :
    (rows.map List.length).headD 0 = (rows.headD []).length := by
  cases rows <;> rfl

theorem lengthRow_map (x : α) (ys : List β) (below : List (List (α × β))) :
    lengthRow eq x ys (below.map List.length) = (commonRow eq x ys below).map List.length := by
  induction ys generalizing below with
  | nil => rfl
  | cons y ys ih =>
    unfold lengthRow commonRow
    simp only [List.map_cons, length_commonCell, ← List.map_tail, ih, headD_map_length]

/-- The table holds the lengths of the best pairings. -/
theorem lengthTable_eq (ys : List β) (xs : List α) :
    lengthTable eq ys xs = xs.tails.map fun s => (commonRows eq ys s).map List.length := by
  induction xs with
  | nil => simp [lengthTable, commonRows]
  | cons x xs ih =>
    have hhead : (lengthTable eq ys xs).headD [] = (commonRows eq ys xs).map List.length := by
      rw [ih]
      cases xs <;> rfl
    rw [lengthTable, hhead, lengthRow_map, List.tails, List.map_cons, ih]
    rfl

theorem getElem?_tails {γ : Type} {l : List γ} {i : Nat} (h : i ≤ l.length) :
    l.tails[i]? = some (l.drop i) := by
  rw [List.getElem?_eq_getElem (by rw [List.length_tails]; omega), List.getElem_tails]

theorem lengthAt_lengthTable {xs : List α} {ys : List β} {i j : Nat} (hi : i ≤ xs.length)
    (hj : j ≤ ys.length) : lengthAt (lengthTable eq ys xs) i j =
      (longestCommon eq (xs.drop i) (ys.drop j)).length := by
  unfold lengthAt
  rw [lengthTable_eq, List.getElem?_map, getElem?_tails hi, Option.map_some, Option.getD_some,
    commonRows_eq, List.getElem?_map, List.getElem?_map, getElem?_tails hj]
  rfl

/-! ## The walk -/

/-- **The walk finds the best pairing** of what lies ahead of it. -/
theorem walkPairs_eq (xs : List α) (ys : List β) (i j : Nat) :
    walkPairs eq xs ys (lengthTable eq ys xs) i j = longestCommon eq (xs.drop i) (ys.drop j) := by
  induction hn : (xs.length - i) + (ys.length - j) using Nat.strongRecOn generalizing i j with
  | ind n ih =>
    subst hn
    unfold walkPairs
    by_cases h : i < xs.length ∧ j < ys.length
    · obtain ⟨hi, hj⟩ := h
      rw [dif_pos ⟨hi, hj⟩, ih _ (by omega) (i + 1) (j + 1) rfl, ih _ (by omega) (i + 1) j rfl,
        ih _ (by omega) i (j + 1) rfl, lengthAt_lengthTable (by omega) (by omega),
        lengthAt_lengthTable (by omega) (by omega), lengthAt_lengthTable (by omega) (by omega),
        lengthAt_lengthTable (by omega) (by omega), List.drop_eq_getElem_cons hi,
        List.drop_eq_getElem_cons hj, longestCommon_cons_cons, commonCell]
      by_cases hxy : eq xs[i] ys[j] = true
      · simp [hxy]
      · simp [hxy]
    · rw [dif_neg h]
      rcases Nat.lt_or_ge i xs.length with hi | hi
      · rw [List.drop_eq_nil_of_le (show ys.length ≤ j by omega), longestCommon_nil_right]
      · rw [List.drop_eq_nil_of_le hi, longestCommon_nil_left]

/-! ## Positions -/

/-- Pairs of related items that stand at strictly increasing positions of both lists. -/
def Aligned (eq : α → β → Bool) (xs : List α) (ys : List β) (ps : List (α × β)) : Prop :=
  ∃ left right : Fin ps.length → Nat, StrictMono left ∧ StrictMono right ∧
    ∀ k, xs[left k]? = some ps[k].1 ∧ ys[right k]? = some ps[k].2 ∧ eq ps[k].1 ps[k].2 = true

/-- The items that a list of pairs takes from a list are a sublist exactly if they stand at
strictly increasing positions. -/
theorem map_sublist_iff {γ δ : Type} {f : γ → δ} {ps : List γ} {l : List δ} :
    (ps.map f).Sublist l ↔
      ∃ places : Fin ps.length → Nat, StrictMono places ∧ ∀ k, l[places k]? = some (f ps[k]) := by
  constructor
  · intro h
    obtain ⟨e, he⟩ := List.sublist_iff_exists_orderEmbedding_getElem?_eq.1 h
    refine ⟨fun k => e k, fun a b hab => e.strictMono hab, fun k => ?_⟩
    rw [← he, List.getElem?_map, Fin.getElem_fin, List.getElem?_eq_getElem k.2]
    rfl
  · rintro ⟨p, hp, hl⟩
    have hlt : ∀ k, p k < l.length := fun k => (List.getElem?_eq_some_iff.1 (hl k)).1
    have hlen : (ps.map f).length = ps.length := List.length_map f
    refine List.sublist_iff_exists_fin_orderEmbedding_get_eq.2
      ⟨OrderEmbedding.ofStrictMono (fun k => ⟨p (k.cast hlen), hlt _⟩) ?_, fun k => ?_⟩
    · intro a b hab
      exact hp hab
    · obtain ⟨_, hget⟩ := List.getElem?_eq_some_iff.1 (hl (k.cast hlen))
      rw [List.get_eq_getElem, List.getElem_map]
      exact hget.symm

theorem aligned_iff {xs : List α} {ys : List β} {ps : List (α × β)} :
    Aligned eq xs ys ps ↔ Pairing eq xs ys ps := by
  constructor
  · rintro ⟨left, right, hleft, hright, h⟩
    refine ⟨map_sublist_iff.2 ⟨left, hleft, fun k => (h k).1⟩,
      map_sublist_iff.2 ⟨right, hright, fun k => (h k).2.1⟩, fun p hp => ?_⟩
    obtain ⟨k, hk, rfl⟩ := List.getElem_of_mem hp
    exact (h ⟨k, hk⟩).2.2
  · intro h
    obtain ⟨left, hleft, hl⟩ := map_sublist_iff.1 h.fst
    obtain ⟨right, hright, hr⟩ := map_sublist_iff.1 h.snd
    exact ⟨left, right, hleft, hright, fun k =>
      ⟨hl k, hr k, h.related _ (List.getElem_mem k.2)⟩⟩

/-- **What is found is aligned, and no aligned list is longer**, whatever relation is asked. The
walk through the table of lengths comes to the same list. -/
theorem longestCommon_longest (eq : α → β → Bool) (xs : List α) (ys : List β) :
    walkPairs eq xs ys (lengthTable eq ys xs) 0 0 = longestCommon eq xs ys ∧
      Aligned eq xs ys (longestCommon eq xs ys) ∧
      ∀ ps, Aligned eq xs ys ps → ps.length ≤ (longestCommon eq xs ys).length :=
  ⟨walkPairs_eq xs ys 0 0, aligned_iff.2 (pairing_longestCommon eq xs ys),
    fun _ h => (aligned_iff.1 h).length_le⟩

/-- Items may be related that are not equal. -/
example : longestCommon (fun a b => decide (a < b)) [3, 1, 2] [2, 3] = [(1, 2), (2, 3)] := by decide

end TreeMerge
