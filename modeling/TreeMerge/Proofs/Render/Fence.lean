import Mathlib.Data.List.DropRight
import TreeMerge.Proofs.Tree.Document

/-!
# Stripping fences undoes fencing

Blanks around a fence are trimmed, and what is left starts and ends with the backticks of the fence.
The info word and the padding end where the line ends, so that the code behind it is untouched,
whatever it starts and ends with; the fence at the end is the last one.

* `Text.Trims`, `Text.trims_trimUnits`, `Text.Trims.eq_trimUnits` : trimming, by what is taken off;
* `fenced` : code inside a fence;
* `afterInfo_append`, `Text.beforeEnd?_append` : the two ends of a fence;
* `stripFences_fenced` : the code inside a fence, and texts without a fence.
-/

namespace TreeMerge

open Text (unit)

namespace Text

/-! ## Trimming -/

/-- A text without the blank units around it: they are taken off, and nothing else. -/
structure Trims (us core : List UInt16) : Prop where
  around : ∃ before after, (∀ u ∈ before, isBlank u = true) ∧ (∀ u ∈ after, isBlank u = true) ∧
    us = before ++ core ++ after
  head : ∀ u ∈ core.head?, isBlank u = false
  last : ∀ u ∈ core.getLast?, isBlank u = false

theorem trimLeft_append {before : List UInt16} (h : ∀ u ∈ before, isBlank u = true)
    (us : List UInt16) : trimLeft (before ++ us) = trimLeft us :=
  List.dropWhile_append_of_pos h

theorem trimLeft_of_head {us : List UInt16} (h : ∀ u ∈ us.head?, isBlank u = false) :
    trimLeft us = us := by
  cases us with
  | nil => rfl
  | cons u us => exact List.dropWhile_cons_of_neg (by simp [h u rfl])

theorem trimRight_append {after : List UInt16} (h : ∀ u ∈ after, isBlank u = true)
    (us : List UInt16) : trimRight (us ++ after) = trimRight us := by
  unfold trimRight
  rw [List.reverse_append, List.dropWhile_append_of_pos fun u hu => h u (List.mem_reverse.1 hu)]

theorem trimRight_of_last {us : List UInt16} (h : ∀ u ∈ us.getLast?, isBlank u = false) :
    trimRight us = us := by
  have hrev : trimLeft us.reverse = us.reverse :=
    trimLeft_of_head fun u hu => h u (by rwa [List.head?_reverse] at hu)
  rw [trimRight, show us.reverse.dropWhile isBlank = us.reverse from hrev, List.reverse_reverse]

/-- There is one way to trim a text. -/
theorem Trims.eq_trimUnits {us core : List UInt16} (h : Trims us core) : core = trimUnits us := by
  obtain ⟨before, after, hbefore, hafter, rfl⟩ := h.around
  unfold trimUnits
  rw [List.append_assoc, trimLeft_append hbefore]
  cases core with
  | nil =>
    rw [List.nil_append, trimLeft, List.dropWhile_eq_nil_iff.2 hafter]
    rfl
  | cons u core =>
    have hleft : trimLeft (u :: core ++ after) = u :: core ++ after :=
      trimLeft_of_head fun d hd => h.head d hd
    rw [hleft, trimRight_append hafter, trimRight_of_last h.last]

theorem head_trimLeft (us : List UInt16) : ∀ u ∈ (trimLeft us).head?, isBlank u = false := by
  intro u hu
  have hstop := List.head?_dropWhile_not isBlank us
  rwa [show (us.dropWhile isBlank).head? = some u from hu] at hstop

/-- **Trimming takes the blanks around a text off, and nothing else.** -/
theorem trims_trimUnits (us : List UInt16) : Trims us (trimUnits us) where
  around := by
    refine ⟨us.takeWhile isBlank, (trimLeft us).rtakeWhile isBlank, fun u hu => ?_, fun u hu => ?_,
      ?_⟩
    · exact List.mem_takeWhile_imp hu
    · exact List.mem_rtakeWhile_imp hu
    · calc us = us.takeWhile isBlank ++ trimLeft us := List.takeWhile_append_dropWhile.symm
        _ = us.takeWhile isBlank ++ (trimUnits us ++ (trimLeft us).rtakeWhile isBlank) :=
          congrArg _ List.rdropWhile_append_rtakeWhile.symm
        _ = _ := (List.append_assoc ..).symm
  head := by
    intro u hu
    obtain ⟨after, hafter⟩ : trimUnits us <+: trimLeft us := List.rdropWhile_prefix isBlank _
    apply head_trimLeft us u
    rw [← hafter, List.head?_append, hu]
    rfl
  last := by
    intro u hu
    apply head_trimLeft (trimLeft us).reverse u
    rwa [trimUnits, trimRight, List.getLast?_reverse] at hu

/-- Blanks around a text are trimmed with its own. -/
theorem trimUnits_pad {before after : List UInt16} (hbefore : ∀ u ∈ before, isBlank u = true)
    (hafter : ∀ u ∈ after, isBlank u = true) (us : List UInt16) :
    trimUnits (before ++ us ++ after) = trimUnits us := by
  obtain ⟨front, back, hfront, hback, hus⟩ := (trims_trimUnits us).around
  refine (Trims.eq_trimUnits ⟨⟨before ++ front, back ++ after, ?_, ?_, ?_⟩,
    (trims_trimUnits us).head, (trims_trimUnits us).last⟩).symm
  · exact List.forall_mem_append.2 ⟨hbefore, hfront⟩
  · exact List.forall_mem_append.2 ⟨hback, hafter⟩
  · conv_lhs => rw [hus]
    simp

/-! ## The ends of a fence -/

theorem beforeEnd?_append (word us : List UInt16) : beforeEnd? word (us ++ word) = some us := by
  rw [beforeEnd?, List.reverse_append, after?_append, Option.map_some, List.reverse_reverse]

theorem after?_eq_none {word us : List UInt16} (h : ¬ word <+: us) : after? word us = none := by
  rw [Option.eq_none_iff_forall_ne_some]
  intro rest hrest
  exact h ⟨rest, (after?_eq_some hrest).symm⟩

end Text

/-- The info word and the padding of a fence end with the line. -/
theorem afterInfo_append {info padding : List UInt16} (hinfo : ∀ u ∈ info, isInfoUnit u = true)
    (hpadding : ∀ u ∈ padding, isPadding u = true) (rest : List UInt16) :
    afterInfo (info ++ (padding ++ unit '\n' :: rest)) = rest := by
  have hword : (padding ++ unit '\n' :: rest).dropWhile isInfoUnit =
      padding ++ unit '\n' :: rest := by
    cases padding with
    | nil => rfl
    | cons u padding =>
      have hu : u = unit ' ' ∨ u = unit '\t' := by
        simpa [isPadding] using hpadding u List.mem_cons_self
      rcases hu with rfl | rfl <;> rfl
  rw [afterInfo, List.dropWhile_append_of_pos hinfo, hword, List.dropWhile_append_of_pos hpadding]
  rfl

/-! ## Fenced code -/

/-- Code inside a fence. -/
def fenced (info padding code : Text) : Text :=
  "```" ++ info ++ padding ++ "\n" ++ code ++ "\n```"

theorem units_fenced (info padding code : Text) : (fenced info padding code).units =
    fence ++
      (info.units ++ (padding.units ++ unit '\n' :: (code.units ++ [unit '\n'] ++ fence))) := by
  have hopen : Text.units "```" = fence := rfl
  have hline : Text.units "\n" = [unit '\n'] := rfl
  have hclose : Text.units "\n```" = unit '\n' :: fence := rfl
  simp [fenced, hopen, hline, hclose]

/-- Fenced code starts and ends with a backtick. -/
theorem trimUnits_fenced (info padding code : Text) :
    Text.trimUnits (fenced info padding code).units = (fenced info padding code).units := by
  have hfence : fence = [unit '\x60', unit '\x60', unit '\x60'] := rfl
  have hends : (fenced info padding code).units = unit '\x60' :: (unit '\x60' :: unit '\x60' ::
      (info.units ++ (padding.units ++ unit '\n' :: (code.units ++
        [unit '\n', unit '\x60', unit '\x60']))) ++ [unit '\x60']) := by
    simp [units_fenced, hfence]
  rw [hends]
  exact Text.trimUnits_of_ends rfl rfl _

theorem stripFenceUnits_fenced {info padding : Text} (code : Text)
    (hinfo : ∀ u ∈ info.units, isInfoUnit u = true)
    (hpadding : ∀ u ∈ padding.units, isPadding u = true) {before after : List UInt16}
    (hbefore : ∀ u ∈ before, Text.isBlank u = true) (hafter : ∀ u ∈ after, Text.isBlank u = true) :
    stripFenceUnits (before ++ (fenced info padding code).units ++ after) =
      Text.trimUnits code.units := by
  have hbody : Text.trimUnits (before ++ (fenced info padding code).units ++ after) =
      fence ++
        (info.units ++ (padding.units ++ unit '\n' :: (code.units ++ [unit '\n'] ++ fence))) := by
    rw [Text.trimUnits_pad hbefore hafter, trimUnits_fenced, units_fenced]
  -- the line feed in front of the closing fence is left, and trimmed with the code
  have hcode : Text.trimUnits (code.units ++ [unit '\n']) = Text.trimUnits code.units := by
    have hnewline : ∀ u ∈ [unit '\n'], Text.isBlank u = true := List.forall_mem_singleton.2 rfl
    have hnone : ∀ u ∈ ([] : List UInt16), Text.isBlank u = true := List.forall_mem_nil _
    exact Text.trimUnits_pad hnone hnewline code.units
  simp only [stripFenceUnits, hbody, Text.after?_append, afterInfo_append hinfo hpadding,
    Text.beforeEnd?_append, Option.getD_some, hcode]

/-- **Stripping fences undoes fencing.** Code inside a fence comes back trimmed, whatever the code
is and whatever blanks stand around the fence; a text that does not start with a fence once it is
trimmed comes back trimmed. Trimming takes off the blanks around a text and nothing else. -/
theorem stripFences_fenced :
    (∀ code info padding before after : Text, (∀ u ∈ info.units, isInfoUnit u = true) →
      (∀ u ∈ padding.units, isPadding u = true) → Text.isBlankText before = true →
      Text.isBlankText after = true →
      stripFences (before ++ fenced info padding code ++ after) = Text.trim code) ∧
    (∀ text : Text, ¬ fence <+: (Text.trim text).units → stripFences text = Text.trim text) ∧
    ∀ text : Text, Text.Trims text.units (Text.trim text).units := by
  refine ⟨?_, ?_, ?_⟩
  · intro code info padding before after hinfo hpadding hbefore hafter
    rw [stripFences, Text.units_append, Text.units_append,
      stripFenceUnits_fenced code hinfo hpadding (List.all_eq_true.1 hbefore)
        (List.all_eq_true.1 hafter), Text.trim]
  · intro text htext
    rw [Text.trim] at htext
    simp only [stripFences, stripFenceUnits, Text.after?_eq_none htext, Text.trim]
  · intro text
    rw [Text.trim]
    exact Text.trims_trimUnits text.units

/-- Code that is fenced itself keeps its own fence. -/
theorem stripFences_fenced_twice :
    (∀ u ∈ Text.units "c++", isInfoUnit u = true) ∧ (∀ u ∈ Text.units " \t", isPadding u = true) ∧
    Text.isBlankText "\n " = true ∧ Text.isBlankText "\t\n" = true ∧
    stripFences ("\n " ++ fenced "c++" " \t" (fenced "" "" "x") ++ "\t\n") =
      Text.trim (fenced "" "" "x") ∧
    Text.trim (fenced "" "" "x") = "```\nx\n```" ∧
    ¬ fence <+: (Text.trim " `` ``` ").units ∧ stripFences " `` ``` " = Text.trim " `` ``` " := by
  have hinfo : ∀ u ∈ Text.units "c++", isInfoUnit u = true := List.all_eq_true.1 (by decide)
  have hpadding : ∀ u ∈ Text.units " \t", isPadding u = true := List.all_eq_true.1 (by decide)
  have hbefore : Text.isBlankText "\n " = true := by decide
  have hafter : Text.isBlankText "\t\n" = true := by decide
  have hplain : ¬ fence <+: (Text.trim " `` ``` ").units := by decide +kernel
  obtain ⟨hfenced, hunfenced, -⟩ := stripFences_fenced
  exact ⟨hinfo, hpadding, hbefore, hafter,
    hfenced (fenced "" "" "x") "c++" " \t" "\n " "\t\n" hinfo hpadding hbefore hafter,
    by decide +kernel, hplain, hunfenced " `` ``` " hplain⟩

end TreeMerge
