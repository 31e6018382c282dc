import TreeMerge.Text.Basic

/-!
# Cutting text

* `after?` : what follows given leading units;
* `beforeEnd?` : what precedes given trailing units;
* `splitWhere`, `splitLines` : the pieces between separators;
* `replaceAll` : every occurrence of some units replaced.
-/

namespace TreeMerge.Text

/-- What follows the units `word` at the start of a text, if they stand there. -/
def after? : (word : List UInt16) → List UInt16 → Option (List UInt16)
  | [], us => some us
  | w :: ws, u :: us => if u = w then after? ws us else none
  | _ :: _, [] => none

/-- What precedes the units `word` at the end of a text, if they stand there. -/
def beforeEnd? (word us : List UInt16) : Option (List UInt16) :=
  (after? word.reverse us.reverse).map List.reverse

@[simp] theorem after?_append (word us : List UInt16) : after? word (word ++ us) = some us := by
  induction word with
  | nil => rfl
  | cons w ws ih => simp [after?, ih]

theorem after?_eq_some {word us rest : List UInt16} (h : after? word us = some rest) :
    us = word ++ rest := by
  fun_induction after? word us with
  | case1 => simp_all
  | case2 ws u us ih => simp [ih h]
  | case3 => simp at h
  | case4 => simp at h

/-- Cut a list at every unit that satisfies `p`, which is dropped: one piece more than there are
cuts. -/
def splitWhere (p : UInt16 → Bool) : List UInt16 → List (List UInt16)
  | [] => [[]]
  | u :: us =>
    if p u then [] :: splitWhere p us
    else
      match splitWhere p us with
      | [] => [[u]]
      | piece :: pieces => (u :: piece) :: pieces

/-- The pieces of a text between line feeds. -/
def splitLines (t : Text) : List Text :=
  (splitWhere (· == '\n') t.units).map Text.mk

/-- Scan a text from left to right: `skip` units are still to be passed over, then every occurrence
of `word` is replaced by `other`. -/
def replaceFrom (word other : List UInt16) : (skip : Nat) → List UInt16 → List UInt16
  | _, [] => []
  | skip + 1, _ :: us => replaceFrom word other skip us
  | 0, u :: us =>
    if word.isPrefixOf (u :: us) then other ++ replaceFrom word other (word.length - 1) us
    else u :: replaceFrom word other 0 us

/-- The text with every occurrence of the non-empty `word` replaced by `other`, scanning from left
to right. -/
def replaceAll (word other us : List UInt16) : List UInt16 :=
  replaceFrom word other 0 us

end TreeMerge.Text
