import TreeMerge.Proofs.Json.Grammar
import TreeMerge.Proofs.Json.ReadBack
import TreeMerge.Proofs.Json.Settled

/-!
# The reader accepts exactly JSON text

Whatever a reader reads is JSON, and all JSON is read. Numbers are read to their end, so what
follows one must not go on with it; inside a text that is blank space, a comma or a bracket.

* `Reader.exists_body`, `Reader.number_sound`, `Reader.stringUnits_body`, `Reader.number_complete` :
  the scalar tokens;
* `Reader.Sound`, `Reader.Complete` : what holds of the readers of values, items and members;
* `Reader.sound`, `Reader.complete` : it holds with all fuel, by induction on it;
* `Json.parse?_iff` : a whole text.
-/

namespace TreeMerge

namespace Reader

open Grammar
open Text (unit)

variable {us ds rest : List UInt16}

theorem exists_read {α β : Type} {r : Option (α × List UInt16)} {f : α → β} {b : β}
    (h : (r.map fun (a, rest) => (f a, rest)) = some (b, rest)) :
    ∃ a, r = some (a, rest) ∧ b = f a := by
  obtain ⟨⟨a, us⟩, rfl, hb⟩ := Option.map_eq_some_iff.1 h
  obtain ⟨rfl, rfl⟩ := Prod.mk.inj hb
  exact ⟨a, rfl, rfl⟩

theorem word_sound {word : List UInt16} {j k : Json}
    (h : ((Text.after? word us).map fun rest => (k, rest)) = some (j, rest)) :
    us = word ++ rest ∧ j = k := by
  obtain ⟨tail, hafter, hj⟩ := Option.map_eq_some_iff.1 h
  obtain ⟨rfl, rfl⟩ := Prod.mk.inj hj
  exact ⟨Text.after?_eq_some hafter, rfl⟩

/-! ## String literals -/

theorem getElem?_hexDigits :
    (∀ n < 10, (Text.units "0123456789abcdef")[n]? = some (UInt16.ofNat (48 + n))) ∧
    (∀ n < 6, (Text.units "0123456789abcdef")[10 + n]? = some (UInt16.ofNat (97 + n))) ∧
    ∀ n < 6, (Text.units "0123456789ABCDEF")[10 + n]? = some (UInt16.ofNat (65 + n)) := by
  decide

theorem hexValue?_hexDigits :
    (∀ n < 16, (Text.units "0123456789abcdef")[n]?.bind hexValue? = some n) ∧
    ∀ n < 16, (Text.units "0123456789ABCDEF")[n]?.bind hexValue? = some n := by
  decide

theorem hexValue?_iff {u : UInt16} {n : Nat} : hexValue? u = some n ↔ IsHex u n := by
  obtain ⟨hdigits, hlower, hupper⟩ := getElem?_hexDigits
  obtain ⟨hreadLower, hreadUpper⟩ := hexValue?_hexDigits
  constructor
  · intro h
    unfold hexValue? at h
    simp only [Bool.and_eq_true, decide_eq_true_eq, UInt16.le_iff_toNat_le] at h
    split at h
    · next hu =>
      change 48 ≤ u.toNat ∧ u.toNat ≤ 57 at hu
      obtain rfl := Option.some.inj h
      left
      rw [hdigits _ (by omega), Nat.add_sub_cancel' hu.1, UInt16.ofNat_toNat]
    split at h
    · next hu =>
      change 97 ≤ u.toNat ∧ u.toNat ≤ 102 at hu
      obtain rfl := Option.some.inj h
      left
      rw [show u.toNat - 87 = 10 + (u.toNat - 97) by omega, hlower _ (by omega),
        Nat.add_sub_cancel' hu.1, UInt16.ofNat_toNat]
    split at h
    · next hu =>
      change 65 ≤ u.toNat ∧ u.toNat ≤ 70 at hu
      obtain rfl := Option.some.inj h
      right
      rw [show u.toNat - 55 = 10 + (u.toNat - 65) by omega, hupper _ (by omega),
        Nat.add_sub_cancel' hu.1, UInt16.ofNat_toNat]
    · cases h
  · rintro (h | h)
    · have hread := hreadLower n (List.getElem?_eq_some_iff.1 h).1
      rwa [h] at hread
    · have hread := hreadUpper n (List.getElem?_eq_some_iff.1 h).1
      rwa [h] at hread

theorem escape?_iff {e u : UInt16} : escape? e = some u ↔ (e, u) ∈ escapes := by
  constructor
  · intro h
    unfold escape? at h
    split_ifs at h <;> simp_all [escapes]
  · intro h
    simp only [escapes, List.mem_cons, Prod.mk.injEq, List.not_mem_nil, or_false] at h
    rcases h with h | h | h | h | h | h | h | h <;> (obtain ⟨rfl, rfl⟩ := h; rfl)

theorem unit4?_iff {a b c d u : UInt16} : unit4? a b c d = some u ↔
    ∃ k l m n, IsHex a k ∧ IsHex b l ∧ IsHex c m ∧ IsHex d n ∧
      u = UInt16.ofNat (((k * 16 + l) * 16 + m) * 16 + n) := by
  simp only [unit4?, Option.bind_eq_bind, Option.bind_eq_some_iff, Option.pure_def,
    Option.some.injEq, hexValue?_iff]
  constructor
  · rintro ⟨k, hk, l, hl, m, hm, n, hn, rfl⟩
    exact ⟨k, l, m, n, hk, hl, hm, hn, rfl⟩
  · rintro ⟨k, l, m, n, hk, hl, hm, hn, rfl⟩
    exact ⟨k, hk, l, hl, m, hm, n, hn, rfl⟩

theorem stringUnits_piece {u : UInt16} (h : IsPiece us u) (tail : List UInt16) :
    stringUnits (us ++ tail) = consUnit u (stringUnits tail) := by
  cases h with
  | plain control quote backslash =>
    exact stringUnits_cons quote backslash (UInt16.not_lt.2 control) tail
  | letter escape =>
    have hread := escape?_iff.2 escape
    refine (stringUnits_letter (ne_of_escape? hread) tail).trans ?_
    rw [hread]
    rfl
  | number first second third fourth =>
    refine (stringUnits_number _ _ _ _ tail).trans ?_
    rw [unit4?_iff.2 ⟨_, _, _, _, first, second, third, fourth, rfl⟩]
    rfl

theorem stringUnits_body {vs : List UInt16} (h : IsBody us vs) (rest : List UInt16) :
    stringUnits (us ++ unit '"' :: rest) = some (vs, rest) := by
  induction h with
  | nil => exact stringUnits_quote rest
  | cons piece body ih => rw [List.append_assoc, stringUnits_piece piece, ih]; rfl

theorem exists_body {vs : List UInt16} (h : stringUnits us = some (vs, rest)) :
    ∃ ds, us = ds ++ unit '"' :: rest ∧ IsBody ds vs := by
  fun_induction stringUnits us generalizing vs with
  | case1 => cases h
  | case2 us =>
    obtain ⟨rfl, rfl⟩ := Prod.mk.inj (Option.some.inj h)
    exact ⟨[], rfl, .nil⟩
  | case3 => cases h
  | case4 a b c d us _ ih =>
    obtain ⟨u, hnumber, h⟩ := Option.bind_eq_some_iff.1 h
    obtain ⟨vs, hvs, rfl⟩ := exists_read h
    obtain ⟨ds, rfl, hbody⟩ := ih hvs
    obtain ⟨k, l, m, n, hk, hl, hm, hn, rfl⟩ := unit4?_iff.1 hnumber
    exact ⟨_, rfl, .cons (.number hk hl hm hn) hbody⟩
  | case5 => cases h
  | case6 e us _ _ ih =>
    obtain ⟨u, hescape, h⟩ := Option.bind_eq_some_iff.1 h
    obtain ⟨vs, hvs, rfl⟩ := exists_read h
    obtain ⟨ds, rfl, hbody⟩ := ih hvs
    exact ⟨_, rfl, .cons (.letter (escape?_iff.1 hescape)) hbody⟩
  | case7 => cases h
  | case8 u us hquote hslash hcontrol ih =>
    obtain ⟨vs, hvs, rfl⟩ := exists_read h
    obtain ⟨ds, rfl, hbody⟩ := ih hvs
    exact ⟨_, rfl, .cons (.plain (UInt16.not_lt.1 hcontrol) hquote hslash) hbody⟩

theorem text_sound {t : Text} (h : text us = some (t, rest)) :
    ∃ ds, unit '"' :: us = ds ++ rest ∧ IsString ds t := by
  obtain ⟨vs, hvs, rfl⟩ := exists_read (f := Text.mk) h
  obtain ⟨ds, rfl, hbody⟩ := exists_body hvs
  exact ⟨_, by simp, .quoted hbody⟩

theorem text_complete {t : Text} (h : IsString ds t) (rest : List UInt16) :
    ∃ us, ds ++ rest = unit '"' :: us ∧ text us = some (t, rest) := by
  obtain @⟨us, vs, hbody⟩ := h
  refine ⟨us ++ unit '"' :: rest, by simp, ?_⟩
  rw [text, stringUnits_body hbody]
  rfl

/-! ## Numbers -/

theorem digits_sound {run : List UInt16} (h : digits us = some (run, rest)) :
    us = run ++ rest ∧ IsDigits run := by
  unfold digits at h
  split at h
  · cases h
  · next hne =>
    obtain ⟨rfl, rfl⟩ := Prod.mk.inj (Option.some.inj h)
    exact ⟨List.takeWhile_append_dropWhile.symm, hne, List.all_eq_true.1 List.all_takeWhile⟩

/-- The text does not start with a digit. -/
def NoDigit (us : List UInt16) : Prop :=
  ∀ u ∈ us.head?, Text.isDigit u = false

theorem digits_complete (h : IsDigits ds) (hrest : NoDigit rest) :
    digits (ds ++ rest) = some (ds, rest) := by
  obtain ⟨hne, hall⟩ := h
  have hstop : rest.takeWhile Text.isDigit = [] ∧ rest.dropWhile Text.isDigit = rest := by
    cases rest with
    | nil => exact ⟨rfl, rfl⟩
    | cons u rest =>
      have hu : Text.isDigit u = false := hrest u rfl
      exact ⟨List.takeWhile_cons_of_neg (by simp [hu]), List.dropWhile_cons_of_neg (by simp [hu])⟩
  unfold digits
  rw [List.takeWhile_append_of_pos hall, List.dropWhile_append_of_pos hall, hstop.1, hstop.2,
    List.append_nil]
  cases ds with
  | nil => exact absurd rfl hne
  | cons u ds => rfl

theorem integerPart_sound {whole : List UInt16} (h : integerPart us = some (whole, rest)) :
    us = whole ++ rest ∧ IsWhole whole := by
  unfold integerPart at h
  split at h
  · next hzero =>
    obtain ⟨rfl, rfl⟩ := Prod.mk.inj (Option.some.inj h)
    exact ⟨mark?_eq_some hzero, .zero⟩
  · next hzero =>
    obtain ⟨rfl, hdigits⟩ := digits_sound h
    refine ⟨rfl, .digits hdigits fun hfirst => ?_⟩
    obtain ⟨tail, rfl⟩ := List.head?_eq_some_iff.1 hfirst
    rw [List.cons_append, mark?_cons] at hzero
    cases hzero

theorem integerPart_complete {whole : List UInt16} (h : IsWhole whole) (hrest : NoDigit rest) :
    integerPart (whole ++ rest) = some (whole, rest) := by
  cases h with
  | zero => rfl
  | digits hdigits first =>
    have hzero : mark? '0' (whole ++ rest) = none := by
      obtain ⟨u, tail, rfl⟩ := List.exists_cons_of_ne_nil hdigits.1
      exact mark?_of_ne (fun hu => first (congrArg some hu)) _
    rw [integerPart, hzero]
    exact digits_complete hdigits hrest

theorem fraction_sound {part : List UInt16} (h : fraction us = some (part, rest)) :
    ∃ fs, us = fs ++ rest ∧ IsFraction fs part := by
  unfold fraction at h
  split at h
  · next hpoint =>
    obtain ⟨rfl, hdigits⟩ := digits_sound h
    exact ⟨_, mark?_eq_some hpoint, .digits hdigits⟩
  · obtain ⟨rfl, rfl⟩ := Prod.mk.inj (Option.some.inj h)
    exact ⟨[], rfl, .absent⟩

theorem fraction_complete {fs part : List UInt16} (h : IsFraction fs part) (hrest : NoDigit rest)
    (hpoint : rest.head? ≠ some '.') : fraction (fs ++ rest) = some (part, rest) := by
  cases h with
  | absent =>
    rw [List.nil_append, fraction, mark?_eq_none hpoint]
  | digits hdigits =>
    rw [List.cons_append, fraction, mark?_cons]
    exact digits_complete hdigits hrest

theorem exponentDigits_sound {negative : Bool} {e : Int}
    (h : exponentDigits negative us = some (e, rest)) :
    ∃ run, us = run ++ rest ∧ IsDigits run ∧
      e = if negative then -(Text.digitsValue run : Int) else Text.digitsValue run := by
  obtain ⟨run, hrun, rfl⟩ := exists_read
    (f := fun run => if negative then -(Text.digitsValue run : Int) else Text.digitsValue run) h
  obtain ⟨rfl, hdigits⟩ := digits_sound hrun
  exact ⟨run, rfl, hdigits, rfl⟩

theorem exponentDigits_complete (negative : Bool) (h : IsDigits ds) (hrest : NoDigit rest) :
    exponentDigits negative (ds ++ rest) =
      some (if negative then -(Text.digitsValue ds : Int) else Text.digitsValue ds, rest) := by
  rw [exponentDigits, digits_complete h hrest]
  rfl

theorem signedExponent_sound {letter : UInt16} {e : Int}
    (hletter : letter = unit 'e' ∨ letter = unit 'E') (h : signedExponent us = some (e, rest)) :
    ∃ es, letter :: us = es ++ rest ∧ IsExponent es e := by
  unfold signedExponent at h
  split at h
  · next hplus =>
    obtain ⟨run, rfl, hdigits, rfl⟩ := exponentDigits_sound h
    rw [mark?_eq_some hplus]
    exact ⟨_, rfl, .plus hletter hdigits⟩
  · next hminus _ =>
    obtain ⟨run, rfl, hdigits, rfl⟩ := exponentDigits_sound h
    rw [mark?_eq_some hminus]
    exact ⟨_, rfl, .minus hletter hdigits⟩
  · obtain ⟨run, rfl, hdigits, rfl⟩ := exponentDigits_sound h
    exact ⟨_, rfl, .unsigned hletter hdigits⟩

theorem exponent_sound {e : Int} (h : exponent us = some (e, rest)) :
    ∃ es, us = es ++ rest ∧ IsExponent es e := by
  unfold exponent at h
  split at h
  · next hletter =>
    rw [mark?_eq_some hletter]
    exact signedExponent_sound (.inl rfl) h
  · next hletter _ =>
    rw [mark?_eq_some hletter]
    exact signedExponent_sound (.inr rfl) h
  · obtain ⟨rfl, rfl⟩ := Prod.mk.inj (Option.some.inj h)
    exact ⟨[], rfl, .absent⟩

/-- A number cannot go on with this text. -/
def NoNumber (us : List UInt16) : Prop :=
  NoDigit us ∧ ∀ u ∈ us.head?, u ≠ '.' ∧ u ≠ 'e' ∧ u ≠ 'E'

theorem mark?_digits {mark : UInt16} (hmark : Text.isDigit mark = false) (h : IsDigits ds)
    (rest : List UInt16) : mark? mark (ds ++ rest) = none := by
  obtain ⟨u, tail, rfl⟩ := List.exists_cons_of_ne_nil h.1
  refine mark?_of_ne ?_ _
  rintro rfl
  rw [h.2 u List.mem_cons_self] at hmark
  cases hmark

theorem signedExponent_digits (h : IsDigits ds) (hrest : NoDigit rest) :
    signedExponent (ds ++ rest) = some ((Text.digitsValue ds : Int), rest) := by
  rw [signedExponent, mark?_digits (by decide) h, mark?_digits (by decide) h]
  exact exponentDigits_complete false h hrest

theorem exponent_letter {letter : UInt16} (h : letter = unit 'e' ∨ letter = unit 'E')
    (us : List UInt16) : exponent (letter :: us) = signedExponent us := by
  rcases h with rfl | rfl <;> rfl

theorem exponent_complete {es : List UInt16} {e : Int} (h : IsExponent es e)
    (hrest : NoNumber rest) : exponent (es ++ rest) = some (e, rest) := by
  cases h with
  | absent =>
    have hlower : mark? 'e' rest = none :=
      mark?_eq_none fun hu => (hrest.2 _ hu).2.1 rfl
    have hupper : mark? 'E' rest = none :=
      mark?_eq_none fun hu => (hrest.2 _ hu).2.2 rfl
    rw [List.nil_append, exponent, hlower, hupper]
  | unsigned letter hdigits =>
    rw [List.cons_append, exponent_letter letter, signedExponent_digits hdigits hrest.1]
  | plus letter hdigits =>
    rw [List.cons_append, exponent_letter letter]
    exact exponentDigits_complete false hdigits hrest.1
  | minus letter hdigits =>
    rw [List.cons_append, exponent_letter letter]
    exact exponentDigits_complete true hdigits hrest.1

theorem unsigned_sound {negative : Bool} {n : Number}
    (h : unsigned negative us = some (n, rest)) :
    ∃ ds, us = ds ++ rest ∧ IsUnsigned negative ds n := by
  simp only [unsigned, Option.bind_eq_bind, Option.bind_eq_some_iff, Option.pure_def,
    Option.some.injEq, Prod.exists, Prod.mk.injEq] at h
  obtain ⟨whole, us₁, hwhole, part, us₂, hpart, e, us₃, he, rfl, rfl⟩ := h
  obtain ⟨rfl, integer⟩ := integerPart_sound hwhole
  obtain ⟨fs, rfl, fraction⟩ := fraction_sound hpart
  obtain ⟨es, rfl, exponent⟩ := exponent_sound he
  exact ⟨_, by simp, .mk integer fraction exponent⟩

/-- An exponent, or what follows a number, starts neither with a digit nor with a point. -/
theorem noDigit_exponent {es : List UInt16} {e : Int} (h : IsExponent es e)
    (hrest : NoNumber rest) : NoDigit (es ++ rest) ∧ (es ++ rest).head? ≠ some '.' := by
  have hletter : ∀ {letter : UInt16} (us : List UInt16), letter = unit 'e' ∨ letter = unit 'E' →
      NoDigit (letter :: us) ∧ (letter :: us).head? ≠ some '.' := by
    intro letter us hletter
    have hplain : Text.isDigit letter = false ∧ letter ≠ unit '.' := by
      rcases hletter with rfl | rfl <;> decide
    exact ⟨fun u hu => Option.some.inj hu ▸ hplain.1,
      fun hpoint => hplain.2 (Option.some.inj hpoint)⟩
  cases h with
  | absent => exact ⟨hrest.1, fun hpoint => (hrest.2 _ hpoint).1 rfl⟩
  | unsigned letter hdigits => exact hletter _ letter
  | plus letter hdigits => exact hletter _ letter
  | minus letter hdigits => exact hletter _ letter

theorem noDigit_fraction {fs part : List UInt16} (h : IsFraction fs part) (hrest : NoDigit rest) :
    NoDigit (fs ++ rest) := by
  cases h with
  | absent => exact hrest
  | digits hdigits => exact fun u hu => by cases hu; rfl

theorem unsigned_complete {negative : Bool} {n : Number} (h : IsUnsigned negative ds n)
    (hrest : NoNumber rest) : unsigned negative (ds ++ rest) = some (n, rest) := by
  obtain ⟨integer, fraction, exponent⟩ := h
  obtain ⟨hdigit, hpoint⟩ := noDigit_exponent exponent hrest
  rw [unsigned, List.append_assoc, List.append_assoc,
    integerPart_complete integer (noDigit_fraction fraction hdigit)]
  simp only [Option.bind_eq_bind, Option.bind_some, fraction_complete fraction hdigit hpoint,
    exponent_complete exponent hrest, Option.pure_def]

theorem number_sound {n : Number} (h : number us = some (n, rest)) :
    ∃ ds, us = ds ++ rest ∧ IsNumber ds n := by
  unfold number at h
  split at h
  · next hsign =>
    obtain ⟨ds, rfl, hds⟩ := unsigned_sound h
    exact ⟨_, mark?_eq_some hsign, .negative hds⟩
  · obtain ⟨ds, rfl, hds⟩ := unsigned_sound h
    exact ⟨ds, rfl, .positive hds⟩

theorem number_complete {n : Number} (h : IsNumber ds n) (hrest : NoNumber rest) :
    number (ds ++ rest) = some (n, rest) := by
  cases h with
  | positive hds =>
    have hread := unsigned_complete hds hrest
    obtain ⟨integer, fraction, exponent⟩ := hds
    obtain ⟨u, tail, rfl, hu⟩ := integer.exists_digit
    have hsign : u ≠ unit '-' := by
      rintro rfl
      exact absurd hu (by decide)
    rw [number, List.cons_append, List.cons_append, mark?_of_ne hsign]
    exact hread
  | negative hds =>
    rw [List.cons_append, number, mark?_cons]
    exact unsigned_complete hds hrest

/-! ## Values -/

theorem exists_skip (us : List UInt16) : ∃ ws, IsSpace ws ∧ us = ws ++ skip us :=
  ⟨us.takeWhile isSpace, isSpace_iff_all.2 List.all_takeWhile, List.takeWhile_append_dropWhile.symm⟩

/-- Whatever a reader with this fuel reads is JSON. -/
structure Sound (fuel : Nat) : Prop where
  value : ∀ {us j rest}, value fuel us = some (j, rest) →
    ∃ ds raw, us = ds ++ rest ∧ IsValue ds raw ∧ raw.settled = j
  elements : ∀ {us xs rest}, elements fuel us = some (xs, rest) →
    ∃ ds raws, us = ds ++ unit ']' :: rest ∧ IsItems ds raws ∧ Json.settledAll raws = xs
  entries : ∀ {us ms rest}, entries fuel us = some (ms, rest) →
    ∃ ds raws, us = ds ++ unit '\x7d' :: rest ∧ IsMembers ds raws ∧ Json.settledMembers raws = ms

variable {fuel : Nat}

theorem Sound.value_succ (ih : Sound fuel) {j : Json}
    (h : Reader.value (fuel + 1) us = some (j, rest)) :
    ∃ ds raw, us = ds ++ rest ∧ IsValue ds raw ∧ raw.settled = j := by
  cases us with
  | nil => cases h
  | cons u us =>
    obtain ⟨ws, hws, hus⟩ := exists_skip us
    rw [Reader.value] at h
    split at h
    · next hu =>
      obtain ⟨s, htext, rfl⟩ := exists_read h
      obtain ⟨ds, hds, hstring⟩ := text_sound htext
      exact ⟨ds, _, by rw [hu, hds], .string hstring, rfl⟩
    split at h
    · next hu =>
      split at h
      · next tail hskip =>
        obtain ⟨rfl, rfl⟩ := Prod.mk.inj (Option.some.inj h)
        rw [mark?_eq_some hskip] at hus
        exact ⟨_, _, by simp [hu, hus], .emptyArray hws, rfl⟩
      · obtain ⟨xs, hread, rfl⟩ := exists_read h
        obtain ⟨ds, raws, hskip, hitems, rfl⟩ := ih.elements hread
        rw [hskip] at hus
        exact ⟨_, _, by simp [hu, hus], .array (hitems.pad hws), rfl⟩
    split at h
    · next hu =>
      split at h
      · next tail hskip =>
        obtain ⟨rfl, rfl⟩ := Prod.mk.inj (Option.some.inj h)
        rw [mark?_eq_some hskip] at hus
        exact ⟨_, _, by simp [hu, hus], .emptyObject hws, rfl⟩
      · obtain ⟨ms, hread, rfl⟩ := exists_read h
        obtain ⟨ds, raws, hskip, hmembers, rfl⟩ := ih.entries hread
        rw [hskip] at hus
        exact ⟨_, _, by simp [hu, hus], .object (hmembers.pad hws), rfl⟩
    split at h
    · next hu =>
      obtain ⟨hword, rfl⟩ := word_sound h
      exact ⟨_, _, by rw [hu, hword]; rfl, .literalTrue, rfl⟩
    split at h
    · next hu =>
      obtain ⟨hword, rfl⟩ := word_sound h
      exact ⟨_, _, by rw [hu, hword]; rfl, .literalFalse, rfl⟩
    split at h
    · next hu =>
      obtain ⟨hword, rfl⟩ := word_sound h
      exact ⟨_, _, by rw [hu, hword]; rfl, .literalNull, rfl⟩
    · obtain ⟨n, hnumber, rfl⟩ := exists_read h
      obtain ⟨ds, hds, hn⟩ := number_sound hnumber
      exact ⟨ds, _, hds, .number hn, rfl⟩

theorem Sound.elements_succ (ih : Sound fuel) {xs : List Json}
    (h : Reader.elements (fuel + 1) us = some (xs, rest)) :
    ∃ ds raws, us = ds ++ unit ']' :: rest ∧ IsItems ds raws ∧ Json.settledAll raws = xs := by
  unfold Reader.elements at h
  split at h
  · cases h
  · next x tail hvalue =>
    obtain ⟨ds, raw, rfl, hds, rfl⟩ := ih.value hvalue
    obtain ⟨ws, hws, htail⟩ := exists_skip tail
    have hitem : IsItem (ds ++ ws) raw := .padded isSpace_nil hds hws
    split at h
    · next more hskip =>
      obtain ⟨ys, hread, rfl⟩ := exists_read h
      obtain ⟨es, raws, hmore, hitems, rfl⟩ := ih.elements hread
      obtain ⟨ws', hws', hmore'⟩ := exists_skip more
      rw [mark?_eq_some hskip, hmore', hmore] at htail
      exact ⟨_, _, by simp [htail], .more hitem (hitems.pad hws'), rfl⟩
    · next more hskip _ =>
      obtain ⟨rfl, rfl⟩ := Prod.mk.inj (Option.some.inj h)
      rw [mark?_eq_some hskip] at htail
      exact ⟨_, _, by simp [htail], .last hitem, rfl⟩
    · cases h

theorem Sound.entries_succ (ih : Sound fuel) {ms : List (Text × Json)}
    (h : Reader.entries (fuel + 1) us = some (ms, rest)) :
    ∃ ds raws, us = ds ++ unit '\x7d' :: rest ∧ IsMembers ds raws ∧
      Json.settledMembers raws = ms := by
  unfold Reader.entries at h
  split at h
  · cases h
  · next key tail hkeyed =>
    obtain ⟨opened, hquote, htext⟩ := Option.bind_eq_some_iff.1 hkeyed
    obtain ⟨ks, hks, hkey⟩ := text_sound htext
    obtain ⟨ws, hws, htail⟩ := exists_skip tail
    split at h
    · cases h
    · next v tail₂ hvalued =>
      obtain ⟨behind, hcolon, hvalue⟩ := Option.bind_eq_some_iff.1 hvalued
      obtain ⟨ws₁, hws₁, hbehind⟩ := exists_skip behind
      obtain ⟨ds, raw, hds, hraw, rfl⟩ := ih.value hvalue
      obtain ⟨ws₂, hws₂, htail₂⟩ := exists_skip tail₂
      have hmember : IsMember (ks ++ (ws ++ unit ':' :: (ws₁ ++ (ds ++ ws₂)))) (key, raw) :=
        .pair isSpace_nil hkey hws (.padded hws₁ hraw hws₂)
      rw [mark?_eq_some hquote, hks, htail, mark?_eq_some hcolon, hbehind, hds]
      split at h
      · next more hskip =>
        obtain ⟨ys, hread, rfl⟩ := exists_read h
        obtain ⟨es, raws, hmore, hmembers, rfl⟩ := ih.entries hread
        obtain ⟨ws', hws', hmore'⟩ := exists_skip more
        rw [mark?_eq_some hskip, hmore', hmore] at htail₂
        exact ⟨_, _, by simp [htail₂], .more hmember (hmembers.pad hws'), rfl⟩
      · next more hskip _ =>
        obtain ⟨rfl, rfl⟩ := Prod.mk.inj (Option.some.inj h)
        rw [mark?_eq_some hskip] at htail₂
        exact ⟨_, _, by simp [htail₂], .last hmember, rfl⟩
      · cases h

theorem sound : ∀ fuel, Sound fuel
  | 0 => { value := nofun, elements := nofun, entries := nofun }
  | fuel + 1 =>
    { value := (sound fuel).value_succ
      elements := (sound fuel).elements_succ
      entries := (sound fuel).entries_succ }

/-! ## Everything is read -/

section

variable {ws ws' ks tail : List UInt16}

theorem skip_space {u : UInt16} (hws : IsSpace ws) (hu : isSpace u = false) (us : List UInt16) :
    skip (ws ++ u :: us) = u :: us := by
  rw [skip_append (isSpace_iff_all.1 hws), skip_cons hu]

theorem skip_value {raw : Json} (hws : IsSpace ws) (h : IsValue ds raw) (tail : List UInt16) :
    skip (ws ++ (ds ++ tail)) = ds ++ tail := by
  obtain ⟨u, us, rfl, hblank, -⟩ := h.exists_cons
  have hu : isSpace u = false := by
    rw [← Bool.not_eq_true]
    exact fun hspace => absurd (isBlank_of_isSpace hspace) (by simp [hblank])
  exact skip_space hws hu _

theorem skip_string {key : Text} (hws : IsSpace ws) (h : IsString ks key) (tail : List UInt16) :
    skip (ws ++ (ks ++ tail)) = ks ++ tail := by
  cases h
  exact skip_space hws rfl _

theorem noNumber_of {u : UInt16}
    (h : Text.isDigit u = false ∧ u ≠ unit '.' ∧ u ≠ unit 'e' ∧ u ≠ unit 'E') (us : List UInt16) :
    NoNumber (u :: us) :=
  ⟨fun d hd => by cases hd; exact h.1, fun d hd => by cases hd; exact h.2⟩

/-- What follows a value ends a number. -/
theorem noNumber_cons {u : UInt16} (h : u ∈ [unit ',', unit ']', unit '\x7d']) (us : List UInt16) :
    NoNumber (u :: us) := by
  simp only [List.mem_cons, List.not_mem_nil, or_false] at h
  refine noNumber_of ?_ us
  rcases h with rfl | rfl | rfl <;> decide

theorem noNumber_nil : NoNumber [] :=
  ⟨fun _ hu => (nomatch hu), fun _ hu => (nomatch hu)⟩

theorem noNumber_space (hws : IsSpace ws) (h : NoNumber rest) : NoNumber (ws ++ rest) := by
  cases ws with
  | nil => exact h
  | cons u ws =>
    have hu := hws u List.mem_cons_self
    simp only [List.mem_cons, List.not_mem_nil, or_false] at hu
    refine noNumber_of ?_ _
    rcases hu with rfl | rfl | rfl | rfl <;> decide

/-- An item starts with a unit that closes no array. -/
theorem exists_skip_item {x : Json} (h : IsItem ds x) (tail : List UInt16) :
    ∃ u us, skip (ds ++ tail) = u :: us ∧ u ≠ unit ']' := by
  cases h with
  | @padded ws vs ws' x before value after =>
    rw [List.append_assoc, List.append_assoc, skip_value before value]
    obtain ⟨u, us, rfl, -, hu⟩ := value.exists_cons
    exact ⟨u, us ++ (ws' ++ tail), rfl, hu⟩

theorem exists_skip_items {raws : List Json} (h : IsItems ds raws) (tail : List UInt16) :
    ∃ u us, skip (ds ++ tail) = u :: us ∧ u ≠ unit ']' := by
  cases h with
  | last item => exact exists_skip_item item tail
  | more item items =>
    rw [List.append_assoc]
    exact exists_skip_item item _

/-- A member starts with a quotation mark. -/
theorem exists_skip_member {m : Text × Json} (h : IsMember ds m) (tail : List UInt16) :
    ∃ us, skip (ds ++ tail) = unit '"' :: us := by
  obtain ⟨before, key, between, item⟩ := h
  rw [List.append_assoc, List.append_assoc, skip_string before key]
  cases key
  exact ⟨_, rfl⟩

theorem exists_skip_members {raws : List (Text × Json)} (h : IsMembers ds raws)
    (tail : List UInt16) : ∃ us, skip (ds ++ tail) = unit '"' :: us := by
  cases h with
  | last member => exact exists_skip_member member tail
  | more member members =>
    rw [List.append_assoc]
    exact exists_skip_member member _

end

/-- A reader with this fuel reads all JSON that is not too long. -/
structure Complete (fuel : Nat) : Prop where
  value : ∀ {ds raw rest}, IsValue ds raw → NoNumber rest → 2 * ds.length ≤ fuel + 1 →
    value fuel (ds ++ rest) = some (raw.settled, rest)
  elements : ∀ {ds raws} rest, IsItems ds raws → 2 * ds.length ≤ fuel →
    elements fuel (skip (ds ++ unit ']' :: rest)) = some (Json.settledAll raws, rest)
  entries : ∀ {ds raws} rest, IsMembers ds raws → 2 * ds.length ≤ fuel →
    entries fuel (skip (ds ++ unit '\x7d' :: rest)) = some (Json.settledMembers raws, rest)

/-- A number is told from other values by its first unit. -/
theorem value_number {n : Number} (h : IsNumber ds n) (rest : List UInt16) :
    value (fuel + 1) (ds ++ rest) = (number (ds ++ rest)).map fun (n, rest) => (.num n, rest) := by
  obtain ⟨u, us, rfl, hu⟩ := h.exists_cons
  have hne : ∀ v : UInt16, v ≠ unit '-' → Text.isDigit v = false → u ≠ v := by
    rintro v hv hdigit rfl
    rcases hu with rfl | hu
    · exact hv rfl
    · rw [hdigit] at hu
      cases hu
  rw [List.cons_append, value, if_neg (hne _ (by decide) (by decide)),
    if_neg (hne _ (by decide) (by decide)), if_neg (hne _ (by decide) (by decide)),
    if_neg (hne _ (by decide) (by decide)), if_neg (hne _ (by decide) (by decide)),
    if_neg (hne _ (by decide) (by decide))]

theorem Complete.value_succ (ih : Complete fuel) {raw : Json} (h : IsValue ds raw)
    (hrest : NoNumber rest) (hfuel : 2 * ds.length ≤ fuel + 2) :
    Reader.value (fuel + 1) (ds ++ rest) = some (raw.settled, rest) := by
  cases h with
  | literalNull => exact value_null fuel rest
  | literalTrue => exact value_true fuel rest
  | literalFalse => exact value_false fuel rest
  | number hnumber =>
    -- the one value that what follows could lengthen
    rw [value_number hnumber, number_complete hnumber hrest]
    rfl
  | string hstring =>
    obtain ⟨us, hus, htext⟩ := text_complete hstring rest
    rw [hus, value_quote, htext]
    rfl
  | emptyArray space =>
    rw [List.cons_append, List.append_assoc, value_bracket, List.singleton_append,
      skip_space space rfl, mark?_cons]
    rfl
  | array items =>
    obtain ⟨u, us, hskip, hu⟩ := exists_skip_items items (unit ']' :: rest)
    have hread := ih.elements rest items (by simp at hfuel; omega)
    rw [List.cons_append, List.append_assoc, value_bracket, List.singleton_append]
    rw [hskip] at hread ⊢
    rw [mark?_of_ne hu, hread]
    rfl
  | emptyObject space =>
    rw [List.cons_append, List.append_assoc, value_brace, List.singleton_append,
      skip_space space rfl, mark?_cons]
    rfl
  | object members =>
    obtain ⟨us, hskip⟩ := exists_skip_members members (unit '\x7d' :: rest)
    have hread := ih.entries rest members (by simp at hfuel; omega)
    rw [List.cons_append, List.append_assoc, value_brace, List.singleton_append]
    rw [hskip] at hread ⊢
    rw [mark?_of_ne (by decide), hread]
    rfl

/-- Reading an item stops behind it, before the comma or the bracket. -/
theorem Complete.item (ih : Complete fuel) {x : Json} (h : IsItem ds x) {u : UInt16}
    (hu : u ∈ [unit ',', unit ']', unit '\x7d']) (tail : List UInt16)
    (hfuel : 2 * ds.length ≤ fuel + 1) :
    ∃ behind, Reader.value fuel (skip (ds ++ u :: tail)) = some (x.settled, behind) ∧
      skip behind = u :: tail := by
  obtain @⟨ws, us, ws', x, before, value, after⟩ := h
  have hspace : isSpace u = false := by
    simp only [List.mem_cons, List.not_mem_nil, or_false] at hu
    rcases hu with rfl | rfl | rfl <;> rfl
  simp only [List.length_append] at hfuel
  refine ⟨ws' ++ u :: tail, ?_, skip_space after hspace tail⟩
  rw [List.append_assoc, List.append_assoc, skip_value before value]
  exact ih.value value (noNumber_space after (noNumber_cons hu tail)) (by omega)

/-- A member is read in three steps: its key, the colon and its value. -/
theorem Complete.member (ih : Complete fuel) {m : Text × Json} (h : IsMember ds m) {u : UInt16}
    (hu : u ∈ [unit ',', unit ']', unit '\x7d']) (tail : List UInt16)
    (hfuel : 2 * ds.length ≤ fuel + 1) :
    ∃ us colon v behind, skip (ds ++ u :: tail) = unit '"' :: us ∧ text us = some (m.1, colon) ∧
      skip colon = unit ':' :: v ∧ Reader.value fuel (skip v) = some (m.2.settled, behind) ∧
      skip behind = u :: tail := by
  obtain @⟨ws, ks, ws', vs, key, x, before, hkey, between, item⟩ := h
  simp only [List.length_append, List.length_cons] at hfuel
  obtain ⟨behind, hvalue, hbehind⟩ := ih.item item hu tail (by omega)
  obtain ⟨us, hus, htext⟩ := text_complete hkey (ws' ++ unit ':' :: (vs ++ u :: tail))
  refine ⟨us, _, _, behind, ?_, htext, skip_space between rfl _, hvalue, hbehind⟩
  simp only [List.append_assoc, List.cons_append]
  rw [skip_string before hkey, hus]

theorem Complete.elements_succ (ih : Complete fuel) {raws : List Json} (h : IsItems ds raws)
    (rest : List UInt16) (hfuel : 2 * ds.length ≤ fuel + 1) :
    Reader.elements (fuel + 1) (skip (ds ++ unit ']' :: rest)) =
      some (Json.settledAll raws, rest) := by
  cases h with
  | last item =>
    obtain ⟨behind, hvalue, hbehind⟩ := ih.item (u := unit ']') item (by simp) rest hfuel
    simp only [Reader.elements, hvalue, hbehind]
    rfl
  | @more us es x xs item items =>
    simp only [List.length_append, List.length_cons] at hfuel
    rw [List.append_assoc, List.cons_append]
    obtain ⟨behind, hvalue, hbehind⟩ :=
      ih.item (u := unit ',') item (by simp) (es ++ unit ']' :: rest) (by omega)
    simp only [Reader.elements, hvalue, hbehind, mark?_cons, ih.elements rest items (by omega)]
    rfl

theorem Complete.entries_succ (ih : Complete fuel) {raws : List (Text × Json)}
    (h : IsMembers ds raws) (rest : List UInt16) (hfuel : 2 * ds.length ≤ fuel + 1) :
    Reader.entries (fuel + 1) (skip (ds ++ unit '\x7d' :: rest)) =
      some (Json.settledMembers raws, rest) := by
  cases h with
  | last member =>
    obtain ⟨us, colon, v, behind, hskip, htext, hcolon, hvalue, hbehind⟩ :=
      ih.member (u := unit '\x7d') member (by simp) rest hfuel
    simp only [hskip, Reader.entries, mark?_cons, Option.bind_some, htext, hcolon, hvalue, hbehind]
    rfl
  | @more ds es m ms member members =>
    simp only [List.length_append, List.length_cons] at hfuel
    rw [List.append_assoc, List.cons_append]
    obtain ⟨us, colon, v, behind, hskip, htext, hcolon, hvalue, hbehind⟩ :=
      ih.member (u := unit ',') member (by simp) (es ++ unit '\x7d' :: rest) (by omega)
    simp only [hskip, Reader.entries, mark?_cons, Option.bind_some, htext, hcolon, hvalue, hbehind,
      ih.entries rest members (by omega)]
    rfl

theorem complete : ∀ fuel, Complete fuel
  -- without fuel only the empty text is short enough, and it is neither a value nor a list of them
  | 0 =>
    { value := fun h _ hfuel => by
        obtain ⟨u, us, rfl, -⟩ := h.exists_cons
        rw [List.length_cons] at hfuel
        omega
      elements := fun {ds _} rest h hfuel => by
        have hnil : ds = [] := List.length_eq_zero_iff.1 (by omega)
        obtain ⟨u, us, hskip, -⟩ := exists_skip_items (hnil ▸ h) []
        cases hskip
      entries := fun {ds _} rest h hfuel => by
        have hnil : ds = [] := List.length_eq_zero_iff.1 (by omega)
        obtain ⟨us, hskip⟩ := exists_skip_members (hnil ▸ h) []
        cases hskip }
  | fuel + 1 =>
    { value := (complete fuel).value_succ
      elements := fun rest h => (complete fuel).elements_succ h rest
      entries := fun rest h => (complete fuel).entries_succ h rest }

end Reader

/-- **The reader accepts exactly JSON text**, and reads what it says. -/
theorem Json.parse?_iff {t : Text} {j : Json} :
    Json.parse? t = some j ↔ ∃ raw, Grammar.IsText t.units raw ∧ raw.settled = j := by
  unfold Json.parse?
  constructor
  · intro h
    split at h
    · next j' rest hvalue =>
      split at h
      · next hend =>
        obtain rfl := Option.some.inj h
        obtain ⟨ds, raw, hds, hraw, hsettled⟩ := (Reader.sound _).value hvalue
        obtain ⟨ws, hws, ht⟩ := Reader.exists_skip t.units
        obtain ⟨ws', hws', hrest⟩ := Reader.exists_skip rest
        rw [List.isEmpty_iff.1 hend, List.append_nil] at hrest
        refine ⟨raw, ?_, hsettled⟩
        rw [ht, hds, hrest]
        exact .padded hws hraw hws'
      · cases h
    · cases h
  · rintro ⟨raw, htext, rfl⟩
    generalize t.units = us at htext
    cases htext with
    | @padded ws ds ws' _ before value after =>
      have hblank : Reader.skip ws' = [] := by
        rw [← List.append_nil ws', Reader.skip_append (Grammar.isSpace_iff_all.1 after)]
        rfl
      have hfuel : 2 * ds.length ≤ 2 * (ws ++ (ds ++ ws')).length + 2 + 1 := by
        simp only [List.length_append]
        omega
      have hread : Reader.value (2 * (ws ++ (ds ++ ws')).length + 2) (ds ++ ws') =
          some (raw.settled, ws') :=
        (Reader.complete _).value value
          (by simpa using Reader.noNumber_space after Reader.noNumber_nil) hfuel
      rw [Reader.skip_value before value, hread]
      simp only [hblank]
      rfl

end TreeMerge
