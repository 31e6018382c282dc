import TreeMerge.Matching.CommonSubsequence

/-!
# Longest common subsequences are common and longest

* `longestCommon_cons_cons` : the recursion that the rows of best pairings come to;
* `Pairing` : related pairs at increasing positions of both lists;
* `pairing_longestCommon`, `Pairing.length_le` : a best pairing is a pairing, and no pairing is
  longer;
* `longestCommon_append_left` : what stands in front of both lists and is related to itself is
  paired with itself;
* `longestCommon_cons_self` : an item that is not related to itself stays unpaired in the first
  list when all items behind it are.
-/

namespace TreeMerge

variable {α β : Type} {eq : α → β → Bool}

/-! ## The recursion -/

theorem longestCommon_nil_left (ys : List β) : longestCommon eq [] ys = [] := rfl

theorem commonRows_nil (xs : List α) : commonRows eq [] xs = [[]] := by
  cases xs <;> rfl

theorem longestCommon_nil_right (xs : List α) : longestCommon eq xs [] = [] := by
  rw [longestCommon, commonRows_nil]
  rfl

/-- The rows of a shorter second list are those of the longer one without the first. -/
theorem commonRows_cons (y : β) (ys : List β) (xs : List α) :
    commonRows eq (y :: ys) xs = longestCommon eq xs (y :: ys) :: commonRows eq ys xs := by
  induction xs with
  | nil => rfl
  | cons x xs ih =>
    have ht : (commonRows eq (y :: ys) xs).tail = commonRows eq ys xs := by
      rw [ih, List.tail_cons]
    rw [longestCommon, commonRows, commonRow, ht]
    rfl

theorem longestCommon_cons_cons (x : α) (xs : List α) (y : β) (ys : List β) :
    longestCommon eq (x :: xs) (y :: ys) =
      commonCell eq x y (longestCommon eq xs ys) (longestCommon eq xs (y :: ys))
        (longestCommon eq (x :: xs) ys) := by
  rw [longestCommon, commonRows, commonRow, commonRows_cons y ys xs]
  rfl

/-! ## Pairings -/

/-- Related pairs at increasing positions of both lists. -/
structure Pairing (eq : α → β → Bool) (xs : List α) (ys : List β) (ps : List (α × β)) : Prop where
  fst : (ps.map Prod.fst).Sublist xs
  snd : (ps.map Prod.snd).Sublist ys
  related : ∀ p ∈ ps, eq p.1 p.2 = true

namespace Pairing

variable {x : α} {xs : List α} {y : β} {ys : List β} {p : α × β} {ps : List (α × β)}

theorem nil (xs : List α) (ys : List β) : Pairing eq xs ys [] :=
  ⟨List.nil_sublist xs, List.nil_sublist ys, fun _ h => absurd h List.not_mem_nil⟩

theorem cons_cons (hxy : eq x y = true) (h : Pairing eq xs ys ps) :
    Pairing eq (x :: xs) (y :: ys) ((x, y) :: ps) := by
  refine ⟨h.fst.cons_cons x, h.snd.cons_cons y, fun p hp => ?_⟩
  rcases List.mem_cons.1 hp with rfl | hp
  · exact hxy
  · exact h.related p hp

theorem cons_left (x : α) (h : Pairing eq xs ys ps) : Pairing eq (x :: xs) ys ps :=
  ⟨h.fst.cons x, h.snd, h.related⟩

theorem cons_right (y : β) (h : Pairing eq xs ys ps) : Pairing eq xs (y :: ys) ps :=
  ⟨h.fst, h.snd.cons y, h.related⟩

theorem tail (h : Pairing eq (x :: xs) (y :: ys) (p :: ps)) : Pairing eq xs ys ps :=
  ⟨h.fst.tail, h.snd.tail, fun q hq => h.related q (List.mem_cons_of_mem p hq)⟩

/-- A pairing that does not start with both first items leaves one of them out. -/
theorem cons_cases (h : Pairing eq (x :: xs) (y :: ys) ps) (hxy : eq x y = false) :
    Pairing eq xs (y :: ys) ps ∨ Pairing eq (x :: xs) ys ps := by
  obtain ⟨h₁, h₂, h₃⟩ := h
  rcases List.sublist_cons_iff.1 h₁ with hl | ⟨fs, hf, hl⟩
  · exact Or.inl ⟨hl, h₂, h₃⟩
  · rcases List.sublist_cons_iff.1 h₂ with hr | ⟨gs, hg, hr⟩
    · exact Or.inr ⟨h₁, hr, h₃⟩
    · cases ps with
      | nil => cases hf
      | cons p ps =>
        rw [List.map_cons, List.cons.injEq] at hf hg
        have := h₃ p List.mem_cons_self
        rw [hf.1, hg.1, hxy] at this
        cases this

end Pairing

theorem pairing_longestCommon (eq : α → β → Bool) (xs : List α) (ys : List β) :
    Pairing eq xs ys (longestCommon eq xs ys) := by
  induction xs generalizing ys with
  | nil => exact Pairing.nil [] ys
  | cons x xs ihx =>
    induction ys with
    | nil =>
      rw [longestCommon_nil_right]
      exact Pairing.nil (x :: xs) []
    | cons y ys ihy =>
      rw [longestCommon_cons_cons, commonCell]
      split
      · rename_i hxy
        exact Pairing.cons_cons hxy (ihx ys)
      · split
        · exact (ihx (y :: ys)).cons_left x
        · exact ihy.cons_right y

/-- **No pairing is longer** than the one that is found. -/
theorem Pairing.length_le {xs : List α} {ys : List β} {ps : List (α × β)}
    (h : Pairing eq xs ys ps) : ps.length ≤ (longestCommon eq xs ys).length := by
  induction xs generalizing ys ps with
  | nil =>
    have hl := h.fst.length_le
    rw [List.length_map, List.length_nil] at hl
    omega
  | cons x xs ihx =>
    induction ys generalizing ps with
    | nil =>
      have hl := h.snd.length_le
      rw [List.length_map, List.length_nil] at hl
      omega
    | cons y ys ihy =>
      rw [longestCommon_cons_cons, commonCell]
      split
      · cases ps with
        | nil => exact Nat.zero_le _
        | cons p ps =>
          rw [List.length_cons, List.length_cons]
          exact Nat.succ_le_succ (ihx h.tail)
      · rename_i hxy
        rcases h.cons_cases (Bool.eq_false_iff.2 hxy) with h | h
        · have := ihx h
          split <;> omega
        · have := ihy h
          split <;> omega

/-! ## Lists that are compared with themselves -/

theorem pairing_diagonal {eq : α → α → Bool} {xs : List α} (h : ∀ a ∈ xs, eq a a = true) :
    Pairing eq xs xs (xs.map fun a => (a, a)) := by
  refine ⟨?_, ?_, ?_⟩
  · simp only [List.map_map, Function.comp_def, List.map_id', List.Sublist.refl]
  · simp only [List.map_map, Function.comp_def, List.map_id', List.Sublist.refl]
  · intro p hp
    obtain ⟨a, ha, rfl⟩ := List.mem_map.1 hp
    exact h a ha

/-- What stands in front of both lists and is related to itself is paired with itself. -/
theorem longestCommon_append_left {eq : α → α → Bool} {front : List α}
    (h : ∀ a ∈ front, eq a a = true) (xs ys : List α) :
    longestCommon eq (front ++ xs) (front ++ ys) =
      (front.map fun a => (a, a)) ++ longestCommon eq xs ys := by
  induction front with
  | nil => rfl
  | cons a front ih =>
    rw [List.cons_append, List.cons_append, longestCommon_cons_cons, commonCell,
      if_pos (h a List.mem_cons_self), ih fun b hb => h b (List.mem_cons_of_mem a hb)]
    rfl

theorem longestCommon_self {eq : α → α → Bool} {xs : List α} (h : ∀ a ∈ xs, eq a a = true) :
    longestCommon eq xs xs = xs.map fun a => (a, a) := by
  have hl := longestCommon_append_left h [] []
  rwa [List.append_nil, longestCommon_nil_left, List.append_nil] at hl

/-- Behind a first item that is not related to itself, all items of the first list are paired if
each is related to itself. -/
theorem longestCommon_cons_self {eq : α → α → Bool} {c : α} {xs : List α} (hc : eq c c = false)
    (h : ∀ a ∈ xs, eq a a = true) :
    ∃ ys : List α, longestCommon eq (c :: xs) (c :: xs) = xs.zip ys ∧ ys.Sublist (c :: xs) ∧
      ys.length = xs.length := by
  have hbelow := pairing_longestCommon eq xs (c :: xs)
  have hright := pairing_longestCommon eq (c :: xs) xs
  have hge : xs.length ≤ (longestCommon eq xs (c :: xs)).length := by
    have := ((pairing_diagonal h).cons_right c).length_le
    rwa [List.length_map] at this
  have hfst : (longestCommon eq xs (c :: xs)).map Prod.fst = xs :=
    hbelow.fst.eq_of_length_le (by rwa [List.length_map])
  have hle := hright.snd.length_le
  rw [List.length_map] at hle
  refine ⟨(longestCommon eq xs (c :: xs)).map Prod.snd, ?_, hbelow.snd, ?_⟩
  · rw [longestCommon_cons_cons, commonCell, if_neg (by rw [hc]; decide), if_pos (by omega)]
    have hz : ((longestCommon eq xs (c :: xs)).map Prod.fst).zip
        ((longestCommon eq xs (c :: xs)).map Prod.snd) = longestCommon eq xs (c :: xs) := by
      rw [List.zip_map']
      exact List.map_id _
    rw [hfst] at hz
    exact hz.symm
  · have hl := congrArg List.length hfst
    rw [List.length_map] at hl ⊢
    exact hl

end TreeMerge
