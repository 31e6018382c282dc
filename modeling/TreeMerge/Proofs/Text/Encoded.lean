import TreeMerge.Text.Basic

/-!
# What bytes keep of a text

Bytes keep the characters of a text, and a surrogate that stands alone is none. So they keep the
text of a string, and a text in which no surrogate stands alone.

* `Text.ofString_toString`, `Text.encoded_ofString` : characters are kept;
* `Text.encodeUnits_append` : units that are no surrogates are kept, whatever follows them.
-/

namespace TreeMerge.Text

/-! ## Characters -/

theorem toNat_ofNat_of_valid {n : Nat} (h : n.isValidChar) : (Char.ofNat n).toNat = n := by
  rw [Char.ofNat, dif_pos h]
  rfl

theorem unitsOf_ofUnit (u : UInt16) : unitsOf (ofUnit u) = encodeUnit u := by
  unfold ofUnit encodeUnit
  split
  · decide
  · next hplain =>
    have hu : u.toNat < 65536 := u.toNat_lt
    have hvalid : u.toNat.isValidChar := by
      simp only [isSurrogate, isHigh, isLow, Bool.or_eq_true, Bool.and_eq_true,
        decide_eq_true_eq] at hplain
      unfold Nat.isValidChar
      omega
    have hchar := toNat_ofNat_of_valid hvalid
    rw [unitsOf, if_pos (by omega), unit, hchar, UInt16.ofNat_toNat]

theorem unitsOf_ofPair {u v : UInt16} (hu : isHigh u = true) (hv : isLow v = true) :
    unitsOf (ofPair u v) = [u, v] := by
  simp only [isHigh, isLow, Bool.and_eq_true, decide_eq_true_eq] at hu hv
  have hchar : (ofPair u v).toNat =
      0x10000 + (u.toNat - 0xD800) * 0x400 + (v.toNat - 0xDC00) := by
    refine toNat_ofNat_of_valid ?_
    unfold Nat.isValidChar
    omega
  have hfirst : 0xD800 + ((ofPair u v).toNat - 0x10000) / 0x400 = u.toNat := by omega
  have hsecond : 0xDC00 + ((ofPair u v).toNat - 0x10000) % 0x400 = v.toNat := by omega
  rw [unitsOf, if_neg (by omega), hfirst, hsecond, UInt16.ofNat_toNat, UInt16.ofNat_toNat]

theorem unitsOfAll_chars (us : List UInt16) : unitsOfAll (chars us) = encodeUnits us := by
  unfold encodeUnits
  fun_induction escapeWith encodeUnit us with
  | case1 => rfl
  | case2 u => exact (List.append_nil _).trans (unitsOf_ofUnit u)
  | case3 u v us hpair ih =>
    rw [Bool.and_eq_true] at hpair
    rw [chars, if_pos (by rw [hpair.1, hpair.2]; rfl), unitsOfAll, List.flatMap_cons,
      unitsOf_ofPair hpair.1 hpair.2, ← unitsOfAll, ih]
    rfl
  | case4 u v us hpair ih =>
    rw [chars, if_neg hpair, unitsOfAll, List.flatMap_cons, unitsOf_ofUnit, ← unitsOfAll, ih]

/-- Bytes keep the characters of a text. -/
theorem ofString_toString (t : Text) : ofString t.toString = t.encoded := by
  rw [ofString, toString, String.toList_ofList, unitsOfAll_chars, encoded]

/-- Bytes keep the text of a string. -/
theorem encoded_ofString (s : String) : (ofString s).encoded = ofString s := by
  rw [← ofString_toString, toString_ofString]

/-! ## Units -/

theorem encodeUnits_pair {u v : UInt16} (hu : isHigh u = true) (hv : isLow v = true)
    (us : List UInt16) : encodeUnits (u :: v :: us) = u :: v :: encodeUnits us := by
  rw [encodeUnits, escapeWith, hu, hv]
  rfl

theorem encodeUnits_cons {u : UInt16} (h : isSurrogate u = false) (us : List UInt16) :
    encodeUnits (u :: us) = u :: encodeUnits us := by
  have hunit : encodeUnit u = [u] := by rw [encodeUnit, h]; rfl
  have hhigh : isHigh u = false := (Bool.or_eq_false_iff.1 h).1
  cases us with
  | nil => exact hunit
  | cons v us =>
    rw [encodeUnits, escapeWith, hhigh, hunit]
    rfl

/-- Units that are no surrogates are kept, whatever follows them. -/
theorem encodeUnits_append {us : List UInt16} (h : us.any isSurrogate = false)
    (rest : List UInt16) : encodeUnits (us ++ rest) = us ++ encodeUnits rest := by
  induction us with
  | nil => rfl
  | cons u us ih =>
    rw [List.any_cons, Bool.or_eq_false_iff] at h
    rw [List.cons_append, encodeUnits_cons h.1, ih h.2, List.cons_append]

end TreeMerge.Text
