import TreeMerge.Diff.Patch
import TreeMerge.Unified.Apply

/-!
# Patching does not depend on the kind of line ends

Texts are normalized before a patch is read and applied. A normalized text has no carriage return
and a closed last line, and it stays as it is when it is normalized again. A text without carriage
returns comes to the same normalized text in whatever style its line ends are written, and whether
or not its last line is closed.

* `IsNormal`, `isNormal_normalizeUnits`, `normalizeUnits_of_isNormal` : normalized texts;
* `LineStyle`, `LineStyle.write` : the three styles;
* `unifyLineEnds_write` : a style is undone, by induction on the text;
* `LineStyle.Spells` : a text in a style, its last line closed or not;
* `applyPatch_spelling` : patching does not depend on the spelling.
-/

namespace TreeMerge

open Text (unit)

/-! ## Normalized texts -/

/-- No carriage return, and the last line is closed. -/
structure IsNormal (us : List UInt16) : Prop where
  noReturn : unit '\r' ∉ us
  closed : us.getLast? = some (unit '\n')

theorem return_ne_feed : unit '\r' ≠ unit '\n' := by decide

theorem unifyLineEnds_cons {u : UInt16} (hu : u ≠ unit '\r') (us : List UInt16) :
    unifyLineEnds (u :: us) = u :: unifyLineEnds us := by
  rw [unifyLineEnds.eq_def]
  exact if_neg hu

theorem not_mem_unifyLineEnds (us : List UInt16) : unit '\r' ∉ unifyLineEnds us := by
  fun_induction unifyLineEnds us with
  | case1 => exact List.not_mem_nil
  | case2 => exact fun h => return_ne_feed (List.mem_singleton.1 h)
  | case3 v vs ih ih' =>
    rw [List.mem_cons, not_or]
    refine ⟨return_ne_feed, ?_⟩
    split
    · exact ih
    · exact ih'
  | case4 u us hu ih =>
    rw [List.mem_cons, not_or]
    exact ⟨Ne.symm hu, ih⟩

theorem unifyLineEnds_of_not_mem {us : List UInt16} (h : unit '\r' ∉ us) :
    unifyLineEnds us = us := by
  induction us with
  | nil => rfl
  | cons u us ih =>
    rw [List.mem_cons, not_or] at h
    rw [unifyLineEnds_cons (Ne.symm h.1), ih h.2]

theorem closeLine_of_closed {us : List UInt16} (h : us.getLast? = some (unit '\n')) :
    closeLine us = us :=
  if_pos h

theorem closeLine_of_open {us : List UInt16} (h : us.getLast? ≠ some (unit '\n')) :
    closeLine us = us ++ [unit '\n'] :=
  if_neg h

theorem isNormal_closeLine {us : List UInt16} (h : unit '\r' ∉ us) : IsNormal (closeLine us) := by
  by_cases hlast : us.getLast? = some (unit '\n')
  · rw [closeLine_of_closed hlast]
    exact ⟨h, hlast⟩
  · rw [closeLine_of_open hlast]
    exact ⟨by simp [h, return_ne_feed], by simp⟩

theorem isNormal_normalizeUnits (us : List UInt16) : IsNormal (normalizeUnits us) :=
  isNormal_closeLine (not_mem_unifyLineEnds us)

theorem normalizeUnits_of_isNormal {us : List UInt16} (h : IsNormal us) :
    normalizeUnits us = us := by
  rw [normalizeUnits, unifyLineEnds_of_not_mem h.noReturn, closeLine_of_closed h.closed]

/-! ## Styles -/

/-- The ways to end a line: with a line feed, with a carriage return and a line feed, or with a
carriage return. -/
inductive LineStyle where
  | lf
  | crlf
  | cr
  deriving DecidableEq

namespace LineStyle

/-- What ends a line. -/
def ending : LineStyle → List UInt16
  | lf => [unit '\n']
  | crlf => [unit '\r', unit '\n']
  | cr => [unit '\r']

/-- The units of a text with the line ends of a style in place of its line feeds. -/
def writeUnits (style : LineStyle) (us : List UInt16) : List UInt16 :=
  us.flatMap fun u => if u = unit '\n' then style.ending else [u]

/-- A text with the line ends of a style in place of its line feeds. -/
def write (style : LineStyle) (text : Text) : Text :=
  ⟨style.writeUnits text.units⟩

theorem writeUnits_append (style : LineStyle) (us vs : List UInt16) :
    style.writeUnits (us ++ vs) = style.writeUnits us ++ style.writeUnits vs :=
  List.flatMap_append

theorem writeUnits_newline (style : LineStyle) : style.writeUnits [unit '\n'] = style.ending :=
  List.append_nil _

/-- With carriage returns for line ends no line feed is left. -/
theorem not_mem_writeUnits_cr (us : List UInt16) : unit '\n' ∉ cr.writeUnits us := by
  intro h
  obtain ⟨u, -, hu⟩ := List.mem_flatMap.1 h
  split at hu
  · exact return_ne_feed (List.mem_singleton.1 hu).symm
  · next hne => exact hne (List.mem_singleton.1 hu).symm

end LineStyle

/-- A line end is read as one, unless a lone carriage return runs into a line feed. -/
theorem unifyLineEnds_ending (style : LineStyle) {rest : List UInt16}
    (h : style = .cr → rest.head? ≠ some (unit '\n')) :
    unifyLineEnds (style.ending ++ rest) = unit '\n' :: unifyLineEnds rest := by
  cases style with
  | lf => exact unifyLineEnds_cons (by decide) rest
  | crlf => rfl
  | cr =>
    match rest with
    | [] => rfl
    | u :: us =>
      have hu : u ≠ unit '\n' := by simpa using h rfl
      simp [LineStyle.ending, unifyLineEnds, hu]

/-- **A style is undone**: the line feeds come back. -/
theorem unifyLineEnds_write (style : LineStyle) {us : List UInt16} (h : unit '\r' ∉ us) :
    unifyLineEnds (style.writeUnits us) = us := by
  induction us with
  | nil => rfl
  | cons u us ih =>
    rw [List.mem_cons, not_or] at h
    have hus : style.writeUnits (u :: us) =
        (if u = unit '\n' then style.ending else [u]) ++ style.writeUnits us := rfl
    by_cases hu : u = unit '\n'
    · have hnext : style = .cr → (style.writeUnits us).head? ≠ some (unit '\n') := by
        rintro rfl hhead
        exact LineStyle.not_mem_writeUnits_cr us (List.mem_of_head? hhead)
      rw [hus, if_pos hu, unifyLineEnds_ending style hnext, ih h.2, hu]
    · rw [hus, if_neg hu, List.singleton_append, unifyLineEnds_cons (Ne.symm h.1), ih h.2]

theorem normalizeUnits_write (style : LineStyle) {us : List UInt16} (h : unit '\r' ∉ us) :
    normalizeUnits (style.writeUnits us) = closeLine us := by
  rw [normalizeUnits, unifyLineEnds_write style h]

theorem normalizeUnits_write_closed (style : LineStyle) {us : List UInt16} (h : unit '\r' ∉ us)
    (hopen : us.getLast? ≠ some (unit '\n')) :
    normalizeUnits (style.writeUnits us ++ style.ending) = closeLine us := by
  rw [← style.writeUnits_newline, ← style.writeUnits_append,
    normalizeUnits_write style (by simp [h, return_ne_feed]), closeLine_of_closed (by simp),
    closeLine_of_open hopen]

namespace LineStyle

/-- What a text may look like in a style: with the line ends of the style in place of its line
feeds, and with one more at the end if the text does not end with a line feed. -/
inductive Spells (style : LineStyle) (text : Text) : Text → Prop where
  | plain : Spells style text (style.write text)
  | closed (h : text.units.getLast? ≠ some (unit '\n')) :
    Spells style text (style.write text ++ ⟨style.ending⟩)

/-- **All spellings of a text are normalized alike.** -/
theorem Spells.normalizeLineEnds_eq {style : LineStyle} {text spelled : Text}
    (h : style.Spells text spelled) (htext : unit '\r' ∉ text.units) :
    normalizeLineEnds spelled = normalizeLineEnds text := by
  have hself : normalizeUnits text.units = closeLine text.units := by
    rw [normalizeUnits, unifyLineEnds_of_not_mem htext]
  have hspelled : normalizeUnits spelled.units = closeLine text.units := by
    cases h with
    | plain => exact normalizeUnits_write style htext
    | closed hopen => exact normalizeUnits_write_closed style htext hopen
  exact Text.ext (hspelled.trans hself.symm)

end LineStyle

/-! ## Patching -/

/-- **Patching does not depend on the kind of line ends.** Normalizing gives a text without carriage
returns and with a closed last line, is done after one time, and undoes every style. So a patch has
the same result and the same log in whatever styles the two texts are written, and whether or not an
open last line is closed; this holds for every tool that reads and applies diffs. -/
theorem applyPatch_spelling :
    (∀ s : Text, normalizeLineEnds (normalizeLineEnds s) = normalizeLineEnds s ∧
      unit '\r' ∉ (normalizeLineEnds s).units ∧
      (normalizeLineEnds s).units.getLast? = some (unit '\n')) ∧
    (∀ (style : LineStyle) (text : Text), unit '\r' ∉ text.units →
      normalizeLineEnds (style.write text) = normalizeLineEnds text) ∧
    ∀ (baseline diff : Text), unit '\r' ∉ baseline.units → unit '\r' ∉ diff.units →
      ∀ (style style' : LineStyle) (b d : Text), style.Spells baseline b → style'.Spells diff d →
        ∀ tool : DiffTool, applyPatch tool b d = applyPatch tool baseline diff := by
  refine ⟨?_, ?_, ?_⟩
  · intro s
    have hnormal := isNormal_normalizeUnits s.units
    exact ⟨Text.ext (normalizeUnits_of_isNormal hnormal), hnormal.noReturn, hnormal.closed⟩
  · intro style text htext
    have hplain : style.Spells text (style.write text) := .plain
    exact hplain.normalizeLineEnds_eq htext
  · intro baseline diff hbaseline hdiff style style' b d hb hd tool
    unfold applyPatch
    rw [hb.normalizeLineEnds_eq hbaseline, hd.normalizeLineEnds_eq hdiff]

/-- An empty line, and a last line that is open. -/
def openText : Text :=
  "a\n\nb"

/-- Replaces the last line; the diff does not end with a line feed either. -/
def openDiff : Text :=
  "--- f\n+++ f\n@@ -3 +3 @@\n-b\n+c"

theorem applyPatch_spelling_open :
    unit '\r' ∉ openText.units ∧ unit '\r' ∉ openDiff.units ∧
    LineStyle.cr.Spells openText "a\r\rb\r" ∧
    LineStyle.crlf.Spells openDiff "--- f\r\n+++ f\r\n@@ -3 +3 @@\r\n-b\r\n+c" ∧
    normalizeLineEnds (LineStyle.cr.write openText) = normalizeLineEnds openText ∧
    applyPatch Unified.tool "a\r\rb\r" "--- f\r\n+++ f\r\n@@ -3 +3 @@\r\n-b\r\n+c" =
      applyPatch Unified.tool openText openDiff ∧
    (applyPatch Unified.tool openText openDiff).1 = some "a\n\nc\n" := by
  have htext : unit '\r' ∉ openText.units := by decide
  have hdiff : unit '\r' ∉ openDiff.units := by decide
  have hopen : openText.units.getLast? ≠ some (unit '\n') := by decide
  have hclosed : LineStyle.cr.Spells openText "a\r\rb\r" := .closed hopen
  have hplain : LineStyle.crlf.Spells openDiff
      "--- f\r\n+++ f\r\n@@ -3 +3 @@\r\n-b\r\n+c" := .plain
  obtain ⟨-, hwrite, hpatch⟩ := applyPatch_spelling
  exact ⟨htext, hdiff, hclosed, hplain, hwrite .cr openText htext,
    hpatch openText openDiff htext hdiff .cr .crlf _ _ hclosed hplain Unified.tool,
    by decide +kernel⟩

end TreeMerge
