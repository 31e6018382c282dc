import TreeMerge.Json.Reader
import TreeMerge.Json.Writer

/-!
# Reading what was written

The text of a value reads back as that value, whatever stands behind it, if the layout puts nothing
but blank space around the tokens. Numbers are left out here, and the keys of an object have to be
distinct and no array indices, as reading would move those.

* `Reader.mark?_cons`, `Reader.value_quote` : what a first unit says;
* `Reader.stringUnits_escapeWith`, `Reader.text_quote` : string literals;
* `Style.Spaced` : layouts of blank space;
* `Json.Plain` : the values that are read back;
* `Json.rounds` : how much fuel it takes to read a value;
* `Reader.ReadsBack`, `Reader.readsBack` : the reader on written values, by induction on its fuel;
* `Json.parse?_of_write` : a whole text.
-/

namespace TreeMerge

open Text (unit)

namespace Reader

/-! ## Marks -/

@[simp] theorem mark?_cons (mark : UInt16) (us : List UInt16) :
    mark? mark (mark :: us) = some us :=
  if_pos rfl

theorem mark?_of_ne {u mark : UInt16} (h : u ≠ mark) (us : List UInt16) :
    mark? mark (u :: us) = none :=
  if_neg h

theorem mark?_eq_none {mark : UInt16} {us : List UInt16} (h : us.head? ≠ some mark) :
    mark? mark us = none := by
  cases us with
  | nil => rfl
  | cons u us => exact mark?_of_ne (fun hu => h (congrArg some hu)) us

theorem mark?_eq_some {mark : UInt16} {us rest : List UInt16} (h : mark? mark us = some rest) :
    us = mark :: rest := by
  cases us with
  | nil => cases h
  | cons u us =>
    rw [mark?] at h
    split at h
    · next hu => rw [hu, Option.some.inj h]
    · cases h

/-! ## String literals -/

theorem hexValue?_hexDigit : ∀ n < 16, hexValue? (Text.hexDigit n) = some n := by
  decide

/-- The number of a unit is read back. -/
theorem unit4?_hexDigit (u : UInt16) :
    unit4? (Text.hexDigit (u.toNat / 4096)) (Text.hexDigit (u.toNat / 256 % 16))
      (Text.hexDigit (u.toNat / 16 % 16)) (Text.hexDigit (u.toNat % 16)) = some u := by
  have hu : u.toNat < 65536 := u.toNat_lt
  have hvalue : ((u.toNat / 4096 * 16 + u.toNat / 256 % 16) * 16 + u.toNat / 16 % 16) * 16 +
      u.toNat % 16 = u.toNat := by omega
  rw [unit4?, hexValue?_hexDigit _ (by omega), hexValue?_hexDigit _ (by omega),
    hexValue?_hexDigit _ (by omega), hexValue?_hexDigit _ (by omega)]
  simp only [Option.bind_eq_bind, Option.bind_some, hvalue, UInt16.ofNat_toNat, Option.pure_def]

/-- The quotation mark that ends a literal. -/
theorem stringUnits_quote (us : List UInt16) : stringUnits (unit '"' :: us) = some ([], us) := by
  rw [stringUnits.eq_def]
  rfl

/-- A unit that stands for itself. -/
theorem stringUnits_cons {u : UInt16} (hquote : u ≠ unit '"') (hslash : u ≠ unit '\\')
    (hcontrol : ¬u < 0x20) (us : List UInt16) :
    stringUnits (u :: us) = consUnit u (stringUnits us) := by
  rw [stringUnits.eq_def]
  exact (if_neg hquote).trans ((if_neg hslash).trans (if_neg hcontrol))

theorem stringUnits_letter {e : UInt16} (he : e ≠ unit 'u') (us : List UInt16) :
    stringUnits (unit '\\' :: e :: us) =
      (escape? e).bind fun u => consUnit u (stringUnits us) := by
  rw [stringUnits.eq_def]
  exact if_neg he

theorem stringUnits_number (a b c d : UInt16) (us : List UInt16) :
    stringUnits (unit '\\' :: unit 'u' :: a :: b :: c :: d :: us) =
      (unit4? a b c d).bind fun u => consUnit u (stringUnits us) := by
  rw [stringUnits.eq_def]
  rfl

/-- The letter of a one-letter escape does not announce a number. -/
theorem ne_of_escape? {e u : UInt16} (h : escape? e = some u) : e ≠ unit 'u' := by
  rintro rfl
  have hnone : escape? (unit 'u') = none := by decide
  rw [hnone] at h
  cases h

/-- The letter of an escape is read as the unit that it is written for, and is no surrogate. -/
theorem escapeLetter?_eq_some {u e : UInt16} (h : escapeLetter? u = some e) :
    escape? e = some u ∧ Text.isSurrogate e = false := by
  unfold escapeLetter? at h
  split at h
  · next hmark =>
    obtain rfl := Option.some.inj h
    simp only [Bool.or_eq_true, decide_eq_true_eq] at hmark
    rcases hmark with rfl | rfl <;> decide
  · unfold Text.controlLetter? at h
    repeat
      split at h
      · next hu => rw [hu, ← Option.some.inj h]; decide
    cases h

theorem ne_of_escapeLetter? {u : UInt16} (h : escapeLetter? u = none) :
    u ≠ unit '"' ∧ u ≠ unit '\\' := by
  unfold escapeLetter? at h
  split at h
  · cases h
  · next hmark => simpa using hmark

/-- A unit that is written as itself or as an escape is read as that unit. -/
theorem stringUnits_escapeUnit (u : UInt16) (us : List UInt16) :
    stringUnits (escapeUnit u ++ us) = consUnit u (stringUnits us) := by
  unfold escapeUnit
  split
  · next e he =>
    have hread := (escapeLetter?_eq_some he).1
    refine (stringUnits_letter (ne_of_escape? hread) us).trans ?_
    rw [hread]
    rfl
  · next hnone =>
    split
    · refine (stringUnits_number _ _ _ _ us).trans ?_
      rw [unit4?_hexDigit]
      rfl
    · next h =>
      simp only [Bool.or_eq_true, decide_eq_true_eq, not_or] at h
      obtain ⟨hquote, hslash⟩ := ne_of_escapeLetter? hnone
      exact stringUnits_cons hquote hslash h.1 us

theorem stringUnits_surrogate {u : UInt16} (h : 0xD800 ≤ u.toNat) (us : List UInt16) :
    stringUnits (u :: us) = consUnit u (stringUnits us) := by
  refine stringUnits_cons ?_ ?_ ?_ us
  · rintro rfl
    exact absurd h (by decide)
  · rintro rfl
    exact absurd h (by decide)
  · rw [UInt16.lt_iff_toNat_lt]
    exact fun hlt => absurd (Nat.le_trans h (Nat.le_of_lt hlt)) (by decide)

theorem stringUnits_escapeWith (us rest : List UInt16) :
    stringUnits (Text.escapeWith escapeUnit us ++ unit '"' :: rest) = some (us, rest) := by
  fun_induction Text.escapeWith escapeUnit us with
  | case1 => exact stringUnits_quote rest
  | case2 u =>
    rw [stringUnits_escapeUnit, stringUnits_quote]
    rfl
  | case3 u v us hpair ih =>
    simp only [Bool.and_eq_true, Text.isHigh, Text.isLow, decide_eq_true_eq] at hpair
    rw [List.cons_append, List.cons_append, stringUnits_surrogate hpair.1.1,
      stringUnits_surrogate (by omega), ih]
    rfl
  | case4 u v us hpair ih =>
    rw [List.append_assoc, stringUnits_escapeUnit, ih]
    rfl

/-- A string literal reads back as its text. -/
theorem text_quote (t : Text) (rest : List UInt16) :
    ∃ us, quote t ++ rest = unit '"' :: us ∧ text us = some (t, rest) := by
  refine ⟨Text.escapeWith escapeUnit t.units ++ unit '"' :: rest, by simp [quote], ?_⟩
  rw [text, stringUnits_escapeWith]
  rfl

/-! ## Blank space -/

theorem skip_append {pad : List UInt16} (h : pad.all isSpace = true) (us : List UInt16) :
    skip (pad ++ us) = skip us := by
  induction pad with
  | nil => rfl
  | cons u pad ih =>
    rw [List.all_cons, Bool.and_eq_true] at h
    rw [List.cons_append, skip, List.dropWhile_cons_of_pos h.1]
    exact ih h.2

theorem skip_cons {u : UInt16} (h : isSpace u = false) (us : List UInt16) :
    skip (u :: us) = u :: us :=
  List.dropWhile_cons_of_neg (by simp [h])

end Reader

/-- A layout that puts nothing but blank space around the tokens. -/
structure Style.Spaced (style : Style) : Prop where
  lineBreak : ∀ depth, (style.lineBreak depth).all Reader.isSpace = true
  colon : ∃ pad, style.colon = unit ':' :: pad ∧ pad.all Reader.isSpace = true

theorem Style.spaced_indented : Style.indented.Spaced where
  lineBreak := by
    intro depth
    rw [indented, List.all_cons, List.all_replicate]
    simp [Reader.isSpace]
  colon := ⟨[unit ' '], rfl, rfl⟩

/-- A line break is passed over. -/
theorem Style.Spaced.skip_cons {style : Style} (hs : style.Spaced) (depth : Nat) {u : UInt16}
    (h : Reader.isSpace u = false) (us : List UInt16) :
    Reader.skip (style.lineBreak depth ++ u :: us) = u :: us := by
  rw [Reader.skip_append (hs.lineBreak depth), Reader.skip_cons h]

/-! ## Values -/

/-- A fresh key goes to the end. -/
theorem Table.put_of_fresh {κ ν : Type} [DecidableEq κ] {t : Table κ ν} {k : κ}
    (h : k ∉ t.map Prod.fst) (v : ν) : t.put k v = t ++ [(k, v)] := by
  induction t with
  | nil => rfl
  | cons e t ih =>
    rw [List.map_cons, List.mem_cons, not_or] at h
    rw [Table.put, if_neg h.1, ih h.2]
    rfl

/-- Fresh keys go to the end one after the other. -/
theorem Table.putAll_of_fresh {κ ν : Type} [DecidableEq κ] {entries : List (κ × ν)}
    (t : Table κ ν) (h : ((t ++ entries).map Prod.fst).Nodup) :
    t.putAll entries = t ++ entries := by
  induction entries generalizing t with
  | nil => exact (List.append_nil t).symm
  | cons e es ih =>
    have hfresh : e.1 ∉ t.map Prod.fst := by
      rw [List.map_append, List.map_cons, List.nodup_append] at h
      exact fun hmem => h.2.2 _ hmem _ List.mem_cons_self rfl
    show (t.put e.1 e.2).putAll es = _
    rw [Table.put_of_fresh hfresh, ih _ (by rwa [List.append_assoc]), List.append_assoc]
    rfl

namespace Json

/-- Keys that are found again where they were written: distinct, and none an array index. -/
def KeepsOrder (members : List (Text × Json)) : Prop :=
  (members.map Prod.fst).Nodup ∧ ∀ m ∈ members, indexOf? m.1 = none

mutual

/-- A value without numbers whose objects keep the order of their keys. -/
def Plain : Json → Prop
  | .num _ => False
  | .arr xs => PlainAll xs
  | .obj ms => KeepsOrder ms ∧ PlainMembers ms
  | _ => True

/-- Items that are all plain. -/
def PlainAll : List Json → Prop
  | [] => True
  | x :: xs => Plain x ∧ PlainAll xs

/-- Members whose values are all plain. -/
def PlainMembers : List (Text × Json) → Prop
  | [] => True
  | (_, v) :: ms => Plain v ∧ PlainMembers ms

end

mutual

/-- The fuel that reading a value takes. -/
def rounds : Json → Nat
  | .arr xs => roundsAll xs + 1
  | .obj ms => roundsMembers ms + 1
  | _ => 1

/-- The fuel that reading items takes. -/
def roundsAll : List Json → Nat
  | [] => 0
  | x :: xs => rounds x + roundsAll xs + 1

/-- The fuel that reading members takes. -/
def roundsMembers : List (Text × Json) → Nat
  | [] => 0
  | (_, v) :: ms => rounds v + roundsMembers ms + 1

end

/-- Members that keep their order are the object that reading makes of them. -/
theorem ofMembers_eq {members : List (Text × Json)} (h : KeepsOrder members) :
    ofMembers members = .obj members := by
  have hnamed : members.filter (fun m => (indexOf? m.1).isNone) = members :=
    List.filter_eq_self.2 fun m hm => by rw [h.2 m hm]; rfl
  have hindexed : members.filter (fun m => (indexOf? m.1).isSome) = [] :=
    List.filter_eq_nil_iff.2 fun m hm => by simp [h.2 m hm]
  rw [ofMembers, Table.putAll_of_fresh [] h.1, List.nil_append, arrange]
  simp only [hnamed, hindexed, List.mergeSort_nil, List.nil_append]

end Json

namespace Reader

/-! ### First units -/

section

variable (fuel : Nat) (us : List UInt16)

theorem value_quote : value (fuel + 1) (unit '"' :: us) =
    (text us).map fun (s, rest) => (.str s, rest) := by
  rw [value]
  rfl

theorem value_bracket : value (fuel + 1) (unit '[' :: us) =
    match mark? ']' (skip us) with
    | some rest => some (.arr [], rest)
    | none => (elements fuel (skip us)).map fun (xs, rest) => (.arr xs, rest) := by
  rw [value]
  rfl

theorem value_brace : value (fuel + 1) (unit '\x7b' :: us) =
    match mark? '\x7d' (skip us) with
    | some rest => some (.ofMembers [], rest)
    | none => (entries fuel (skip us)).map fun (ms, rest) => (.ofMembers ms, rest) := by
  rw [value]
  rfl

theorem value_true : value (fuel + 1) (Text.units "true" ++ us) = some (.bool true, us) := by
  show value (fuel + 1) (unit 't' :: (Text.units "rue" ++ us)) = _
  rw [value, if_neg (by decide), if_neg (by decide), if_neg (by decide), if_pos rfl,
    Text.after?_append]
  rfl

theorem value_false : value (fuel + 1) (Text.units "false" ++ us) = some (.bool false, us) := by
  show value (fuel + 1) (unit 'f' :: (Text.units "alse" ++ us)) = _
  rw [value]
  rw [if_neg (by decide), if_neg (by decide), if_neg (by decide), if_neg (by decide), if_pos rfl,
    Text.after?_append]
  rfl

theorem value_null : value (fuel + 1) (Text.units "null" ++ us) = some (.null, us) := by
  show value (fuel + 1) (unit 'n' :: (Text.units "ull" ++ us)) = _
  rw [value]
  rw [if_neg (by decide), if_neg (by decide), if_neg (by decide), if_neg (by decide),
    if_neg (by decide), if_pos rfl, Text.after?_append]
  rfl

end

/-! ### Written values -/

/-- A plain value is written from a unit that is neither blank nor a closing bracket. -/
theorem exists_write_eq (style : Style) {j : Json} (h : j.Plain) (depth : Nat)
    (rest : List UInt16) :
    ∃ u us, j.write style depth rest = u :: us ∧ isSpace u = false ∧ u ≠ unit ']' := by
  cases j with
  | null => exact ⟨unit 'n', _, rfl, rfl, by decide⟩
  | bool b =>
    cases b with
    | true => exact ⟨unit 't', _, rfl, rfl, by decide⟩
    | false => exact ⟨unit 'f', _, rfl, rfl, by decide⟩
  | num n => exact h.elim
  | str s => exact ⟨unit '"', _, rfl, rfl, by decide⟩
  | arr xs => cases xs <;> exact ⟨unit '[', _, rfl, rfl, by decide⟩
  | obj ms => cases ms <;> exact ⟨unit '\x7b', _, rfl, rfl, by decide⟩

theorem skip_write {style : Style} {j : Json} (h : j.Plain) (depth : Nat) (rest : List UInt16) :
    skip (j.write style depth rest) = j.write style depth rest := by
  obtain ⟨u, us, hw, hc, -⟩ := exists_write_eq style h depth rest
  rw [hw, skip_cons hc]

/-- What a reader with this fuel makes of written values, items and members. -/
structure ReadsBack (style : Style) (fuel : Nat) : Prop where
  value : ∀ j depth rest, Json.Plain j → j.rounds ≤ fuel →
    value fuel (j.write style depth rest) = some (j, rest)
  elements : ∀ x xs depth rest tail, Json.PlainAll (x :: xs) → Json.roundsAll (x :: xs) ≤ fuel →
    skip rest = unit ']' :: tail →
    elements fuel (x.write style depth (Json.writeItems style depth xs rest)) = some (x :: xs, tail)
  entries : ∀ key v ms depth rest tail, Json.PlainMembers ((key, v) :: ms) →
    Json.roundsMembers ((key, v) :: ms) ≤ fuel → skip rest = unit '\x7d' :: tail →
    entries fuel (quote key ++ (style.colon ++
      v.write style depth (Json.writeMembers style depth ms rest))) = some ((key, v) :: ms, tail)

variable {style : Style} {fuel : Nat}

theorem ReadsBack.value_succ (hs : style.Spaced) (ih : ReadsBack style fuel) (j : Json)
    (depth : Nat) (rest : List UInt16) (hj : j.Plain) (hfuel : j.rounds ≤ fuel + 1) :
    Reader.value (fuel + 1) (j.write style depth rest) = some (j, rest) := by
  cases j with
  | null => exact value_null fuel rest
  | bool b =>
    cases b with
    | true => exact value_true fuel rest
    | false => exact value_false fuel rest
  | num n => exact hj.elim
  | str s =>
    obtain ⟨us, hus, htext⟩ := text_quote s rest
    rw [Json.write, hus, value_quote, htext]
    rfl
  | arr xs =>
    cases xs with
    | nil => rfl
    | cons x xs =>
      have hclose := hs.skip_cons depth (show isSpace ']' = false from rfl) rest
      have hitems := ih.elements x xs (depth + 1) _ rest hj (Nat.le_of_succ_le_succ hfuel) hclose
      obtain ⟨u, us, hw, -, hc⟩ := exists_write_eq style hj.1 (depth + 1)
        (Json.writeItems style (depth + 1) xs (style.lineBreak depth ++ unit ']' :: rest))
      rw [Json.write, value_bracket, skip_append (hs.lineBreak _), skip_write hj.1]
      rw [hw] at hitems ⊢
      -- no item starts with the bracket that closes an empty array
      rw [mark?_of_ne hc, hitems]
      rfl
  | obj ms =>
    cases ms with
    | nil =>
      rw [Json.write, value_brace, skip_cons rfl, mark?_cons]
      simp only [Json.ofMembers_eq hj.1]
    | cons m ms =>
      obtain ⟨key, v⟩ := m
      have hclose := hs.skip_cons depth (show isSpace '\x7d' = false from rfl) rest
      have hmembers := ih.entries key v ms (depth + 1) _ rest hj.2
        (Nat.le_of_succ_le_succ hfuel) hclose
      obtain ⟨us, hus, -⟩ := text_quote key (style.colon ++ v.write style (depth + 1)
        (Json.writeMembers style (depth + 1) ms (style.lineBreak depth ++ unit '\x7d' :: rest)))
      rw [Json.write, value_brace]
      rw [hus] at hmembers ⊢
      rw [hs.skip_cons _ rfl, mark?_of_ne (by decide), hmembers]
      simp only [Option.map_some, Json.ofMembers_eq hj.1]

theorem ReadsBack.elements_succ (hs : style.Spaced) (ih : ReadsBack style fuel) (x : Json)
    (xs : List Json) (depth : Nat) (rest tail : List UInt16) (hxs : Json.PlainAll (x :: xs))
    (hfuel : Json.roundsAll (x :: xs) ≤ fuel + 1) (hclose : skip rest = unit ']' :: tail) :
    Reader.elements (fuel + 1) (x.write style depth (Json.writeItems style depth xs rest)) =
      some (x :: xs, tail) := by
  rw [Json.roundsAll] at hfuel
  rw [Reader.elements, ih.value x depth _ hxs.1 (by omega)]
  cases xs with
  | nil =>
    simp only [Json.writeItems]
    rw [hclose, mark?_cons, mark?_of_ne (by decide)]
  | cons y ys =>
    simp only [Json.writeItems]
    rw [skip_cons rfl, mark?_cons]
    simp only
    rw [skip_append (hs.lineBreak depth), skip_write hxs.2.1,
      ih.elements y ys depth rest tail hxs.2 (by omega) hclose]
    rfl

theorem ReadsBack.entries_succ (hs : style.Spaced) (ih : ReadsBack style fuel) (key : Text)
    (v : Json) (ms : List (Text × Json)) (depth : Nat) (rest tail : List UInt16)
    (hms : Json.PlainMembers ((key, v) :: ms))
    (hfuel : Json.roundsMembers ((key, v) :: ms) ≤ fuel + 1) 
    (hclose : skip rest = unit '\x7d' :: tail) :
    Reader.entries (fuel + 1) (quote key ++ (style.colon ++
      v.write style depth (Json.writeMembers style depth ms rest))) =
        some ((key, v) :: ms, tail) := by
  rw [Json.roundsMembers] at hfuel
  obtain ⟨pad, hcolon, hpad⟩ := hs.colon
  obtain ⟨us, hus, htext⟩ := text_quote key
    (style.colon ++ v.write style depth (Json.writeMembers style depth ms rest))
  rw [hus, Reader.entries, mark?_cons, Option.bind_some, htext, hcolon]
  simp only [List.cons_append]
  rw [skip_cons rfl, mark?_cons, Option.bind_some, skip_append hpad, skip_write hms.1,
    ih.value v depth _ hms.1 (by omega)]
  cases ms with
  | nil =>
    simp only [Json.writeMembers]
    rw [hclose, mark?_cons, mark?_of_ne (by decide)]
  | cons m ms =>
    obtain ⟨key', v'⟩ := m
    obtain ⟨us', hus', -⟩ := text_quote key'
      (style.colon ++ v'.write style depth (Json.writeMembers style depth ms rest))
    simp only [Json.writeMembers]
    rw [skip_cons rfl, mark?_cons]
    simp only
    have hmembers := ih.entries key' v' ms depth rest tail hms.2 (by omega) hclose
    rw [hus'] at hmembers
    rw [hus', hs.skip_cons depth rfl, hmembers]
    rfl

/-- **What is written in blank layout is read back**, with enough fuel. -/
theorem readsBack (hs : style.Spaced) : ∀ fuel, ReadsBack style fuel
  | 0 =>
    { value := fun j _ _ _ h => by cases j <;> simp [Json.rounds] at h
      elements := fun x xs _ _ _ _ h => by simp [Json.roundsAll] at h
      entries := fun key v ms _ _ _ _ h => by simp [Json.roundsMembers] at h }
  | fuel + 1 =>
    { value := (readsBack hs fuel).value_succ hs
      elements := (readsBack hs fuel).elements_succ hs
      entries := (readsBack hs fuel).entries_succ hs }

end Reader

/-! ## Whole texts -/

namespace Json

mutual

/-- There is more text than fuel is needed. -/
theorem rounds_le (style : Style) : ∀ (j : Json) (depth : Nat) (rest : List UInt16), j.Plain →
    j.rounds + 2 * rest.length ≤ 2 * (j.write style depth rest).length
  | .null, _, rest, _ => by
    have hword : (Text.units "null").length = 4 := rfl
    simp only [write, rounds, List.length_append, hword]
    omega
  | .bool b, _, rest, _ => by
    have hwords : (Text.units "true").length = 4 ∧ (Text.units "false").length = 5 := ⟨rfl, rfl⟩
    cases b <;> simp [write, rounds, hwords] <;> omega
  | .num n, _, _, h => h.elim
  | .str s, _, rest, _ => by simp [write, rounds, quote]; omega
  | .arr [], _, rest, _ => by simp [write, rounds, roundsAll]; omega
  | .arr (x :: xs), depth, rest, h => by
    have hx := rounds_le style x (depth + 1)
      (writeItems style (depth + 1) xs (style.lineBreak depth ++ unit ']' :: rest)) h.1
    have hxs := roundsAll_le style xs (depth + 1) (style.lineBreak depth ++ unit ']' :: rest) h.2
    simp only [write, rounds, roundsAll, List.length_cons, List.length_append] at hx hxs ⊢
    omega
  | .obj [], _, rest, _ => by simp [write, rounds, roundsMembers]; omega
  | .obj ((key, v) :: ms), depth, rest, h => by
    have hv := rounds_le style v (depth + 1)
      (writeMembers style (depth + 1) ms (style.lineBreak depth ++ unit '\x7d' :: rest)) h.2.1
    have hms := roundsMembers_le style ms (depth + 1) (style.lineBreak depth ++ unit '\x7d' :: rest)
      h.2.2
    simp only [write, rounds, roundsMembers, List.length_cons, List.length_append] at hv hms ⊢
    omega

theorem roundsAll_le (style : Style) : ∀ (xs : List Json) (depth : Nat) (rest : List UInt16),
    PlainAll xs → roundsAll xs + 2 * rest.length ≤ 2 * (writeItems style depth xs rest).length
  | [], _, _, _ => by simp [writeItems, roundsAll]
  | x :: xs, depth, rest, h => by
    have hx := rounds_le style x depth (writeItems style depth xs rest) h.1
    have hxs := roundsAll_le style xs depth rest h.2
    simp only [writeItems, roundsAll, List.length_cons, List.length_append] at hx hxs ⊢
    omega

theorem roundsMembers_le (style : Style) : ∀ (ms : List (Text × Json)) (depth : Nat)
    (rest : List UInt16), PlainMembers ms →
      roundsMembers ms + 2 * rest.length ≤ 2 * (writeMembers style depth ms rest).length
  | [], _, _, _ => by simp [writeMembers, roundsMembers]
  | (key, v) :: ms, depth, rest, h => by
    have hv := rounds_le style v depth (writeMembers style depth ms rest) h.1
    have hms := roundsMembers_le style ms depth rest h.2
    simp only [writeMembers, roundsMembers, List.length_cons, List.length_append] at hv hms ⊢
    omega

end

/-- **A text that holds a written value and blank space behind it is that value.** -/
theorem parse?_of_write {style : Style} (hs : style.Spaced) {j : Json} (hj : j.Plain) {s : Text}
    {rest : List UInt16} (hrest : rest.all Reader.isSpace = true)
    (htext : s.units = j.write style 0 rest) : parse? s = some j := by
  have hfuel : j.rounds ≤ 2 * (j.write style 0 rest).length + 2 := by
    have h := rounds_le style j 0 rest hj
    omega
  have hblank : Reader.skip rest = [] := by
    rw [← List.append_nil rest, Reader.skip_append hrest]
    rfl
  rw [parse?, htext, Reader.skip_write hj, (Reader.readsBack hs _).value j 0 rest hj hfuel]
  simp only [hblank]
  rfl

end Json

end TreeMerge
