import Mathlib.Data.List.Find
import Mathlib.Data.List.Induction
import Mathlib.Data.List.Nodup
import TreeMerge.Merge.Insertion

/-!
# New subtrees that both sides bring

One after the other, the items of one list take the first twin in another list that is still free.
Where twins are items of one class, the items of a class take those of that class from the front.

* `duplicates_append` : what one more item takes;
* `of_mem_duplicates`, `nodup_duplicates` : a duplicate has a twin and is taken once;
* `filter_free`, `find?_free`, `find?_twin` : the items that are not taken, and the first of them;
* `filter_duplicates` : of each class as many are taken, from the front, as there are items for;
* `perm_duplicates` : items that seek themselves are all taken.
-/

namespace TreeMerge

variable {isTwin : Nat → Nat → Bool}

theorem duplicates_append (ms ps : List Nat) (m : Nat) : duplicates isTwin (ms ++ [m]) ps =
    duplicates isTwin ms ps ++
      (ps.find? fun p => !(duplicates isTwin ms ps).contains p && isTwin m p).toList := by
  unfold duplicates
  rw [List.foldl_append, List.foldl_cons, List.foldl_nil]
  generalize ms.foldl _ [] = taken
  cases ps.find? fun p => !taken.contains p && isTwin m p with
  | none => exact (List.append_nil _).symm
  | some p => rfl

theorem of_mem_duplicates {ms ps : List Nat} {p : Nat} (h : p ∈ duplicates isTwin ms ps) :
    p ∈ ps ∧ ∃ m ∈ ms, isTwin m p = true := by
  induction ms using List.reverseRecOn with
  | nil => exact absurd h List.not_mem_nil
  | append_singleton ms m ih =>
    rw [duplicates_append, List.mem_append, Option.mem_toList] at h
    rcases h with h | h
    · obtain ⟨hp, m', hm', htwin⟩ := ih h
      exact ⟨hp, m', List.mem_append_left _ hm', htwin⟩
    · have htwin := List.find?_some h
      rw [Bool.and_eq_true] at htwin
      exact ⟨List.mem_of_find?_eq_some h, m, List.mem_concat_self, htwin.2⟩

theorem nodup_duplicates (ms ps : List Nat) : (duplicates isTwin ms ps).Nodup := by
  induction ms using List.reverseRecOn with
  | nil => exact List.nodup_nil
  | append_singleton ms m ih =>
    rw [duplicates_append]
    cases hfind : ps.find? fun p => !(duplicates isTwin ms ps).contains p && isTwin m p with
    | none => rwa [Option.toList_none, List.append_nil]
    | some p =>
      have hfree := List.find?_some hfind
      rw [Bool.and_eq_true, Bool.not_eq_true', List.contains_eq_mem,
        decide_eq_false_iff_not] at hfree
      rw [Option.toList_some, ← List.concat_eq_append]
      exact ih.concat hfree.1

/-! ## Classes of twins -/

/-- The items that are not among the first `k`. -/
theorem filter_free {l : List Nat} (hl : l.Nodup) (k : Nat) :
    (l.filter fun p => !(l.take k).contains p) = l.drop k := by
  have htaken : (l.take k).filter (fun p => !(l.take k).contains p) = [] := by
    simp [List.filter_eq_nil_iff]
  have hfree : (l.drop k).filter (fun p => !(l.take k).contains p) = l.drop k := by
    rw [List.filter_eq_self]
    intro p hp
    have hnot := List.disjoint_right.1 (List.disjoint_take_drop hl (Nat.le_refl k)) hp
    simpa using hnot
  calc (l.filter fun p => !(l.take k).contains p)
      = (l.take k ++ l.drop k).filter fun p => !(l.take k).contains p := by
        rw [List.take_append_drop]
    _ = l.drop k := by rw [List.filter_append, htaken, hfree, List.nil_append]

/-- The first item that is not among the first `k`. -/
theorem find?_free {l : List Nat} (hl : l.Nodup) (k : Nat) :
    (l.find? fun p => !(l.take k).contains p) = l[k]? := by
  rw [← List.head?_filter, filter_free hl, List.head?_drop]

section

variable {κ : Type} [DecidableEq κ] {ofM ofP : Nat → κ}

/-- If the first `k` of a class are taken, the first free one of that class is the next. -/
theorem find?_twin {ps taken : List Nat} (hps : ps.Nodup) {twin : Nat → Bool} {c : κ} {k : Nat}
    (htwin : ∀ p ∈ ps, twin p = true ↔ c = ofP p)
    (htaken : taken.filter (fun p => ofP p == c) = (ps.filter fun p => ofP p == c).take k) :
    (ps.find? fun p => !taken.contains p && twin p) = (ps.filter fun p => ofP p == c)[k]? := by
  rw [← find?_free (hps.filter _), ← htaken, List.find?_filter]
  refine List.find?_congr fun p hp => ?_
  rw [Bool.eq_iff_iff, Bool.and_eq_true, decide_eq_true_iff, htwin p hp, beq_iff_eq, and_comm,
    @eq_comm κ c]
  refine and_congr_right fun hclass => ?_
  simp only [List.contains_eq_mem, List.mem_filter, beq_iff_eq, hclass, and_true]

/-- **Of each class as many are taken, from the front, as there are items for.** -/
theorem filter_duplicates {ms ps : List Nat} (hps : ps.Nodup)
    (htwin : ∀ m ∈ ms, ∀ p ∈ ps, isTwin m p = true ↔ ofM m = ofP p) (c : κ) :
    (duplicates isTwin ms ps).filter (fun p => ofP p == c) =
      (ps.filter fun p => ofP p == c).take (ms.countP fun m => ofM m == c) := by
  induction ms using List.reverseRecOn with
  | nil => rfl
  | append_singleton ms m ih =>
    have hbefore := ih fun m' hm' => htwin m' (List.mem_append_left _ hm')
    have hclass := htwin m List.mem_concat_self
    rw [duplicates_append, List.filter_append, hbefore, List.countP_append, List.countP_singleton]
    by_cases hc : ofM m = c
    · -- the item is of this class: it takes the next one, if there is one left
      rw [hc] at hclass
      rw [find?_twin hps hclass hbefore, if_pos (beq_iff_eq.2 hc), List.take_add_one]
      congr 1
      rw [List.filter_eq_self]
      intro p hp
      exact (List.mem_filter.1 (List.mem_of_getElem? (Option.mem_toList.1 hp))).2
    · -- the item is of another class and takes none of this one
      have hother : (ps.find? fun p => !(duplicates isTwin ms ps).contains p &&
          isTwin m p).toList.filter (fun p => ofP p == c) = [] := by
        rw [List.filter_eq_nil_iff]
        intro p hp
        rw [Option.mem_toList] at hp
        have htaken := List.find?_some hp
        rw [Bool.and_eq_true] at htaken
        rw [beq_iff_eq, ← (hclass p (List.mem_of_find?_eq_some hp)).1 htaken.2]
        exact hc
      rw [if_neg fun hbeq => hc (beq_iff_eq.1 hbeq), hother, List.append_nil, Nat.add_zero]

/-- Items that seek themselves are all taken. -/
theorem perm_duplicates (key : Nat → κ) {l : List Nat} (hl : l.Nodup)
    (htwin : ∀ m ∈ l, ∀ p ∈ l, isTwin m p = true ↔ key m = key p) :
    (duplicates isTwin l l).Perm l := by
  refine (List.perm_ext_iff_of_nodup (nodup_duplicates l l) hl).2 fun p =>
    ⟨fun hp => (of_mem_duplicates hp).1, fun hp => ?_⟩
  have hall := filter_duplicates hl htwin (key p)
  rw [List.countP_eq_length_filter, List.take_length] at hall
  have hmem : p ∈ l.filter fun q => key q == key p := List.mem_filter.2 ⟨hp, beq_self_eq_true _⟩
  rw [← hall] at hmem
  exact (List.mem_filter.1 hmem).1

end

end TreeMerge
