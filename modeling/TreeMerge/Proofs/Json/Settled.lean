import Mathlib.Data.List.Nodup
import TreeMerge.Json.Basic
import TreeMerge.Proofs.Json.ReadBack

/-!
# Repeated keys

A text may give a key of an object more than once. The value that is read has it once, and with the
value that was given last.

* `Table.nodup_putAll` : entries that are put one after the other have distinct keys;
* `Json.settled` : the value that is read;
* `Json.get?_members_settled`, `Json.mem_keys_settled` : the members of its objects.
-/

namespace TreeMerge

/-! ## Tables -/

namespace Table

variable {κ ν : Type} [DecidableEq κ]

theorem get?_eq_none_iff {t : Table κ ν} {k : κ} : t.get? k = none ↔ k ∉ t.map Prod.fst := by
  induction t with
  | nil => simp
  | cons e t ih =>
    obtain ⟨k', v⟩ := e
    rw [get?_cons, List.map_cons, List.mem_cons, not_or, ← ih]
    by_cases hk : k = k' <;> simp [hk]

theorem get?_map {μ : Type} (f : ν → μ) (t : Table κ ν) (k : κ) :
    get? (t.map fun e => (e.1, f e.2)) k = (t.get? k).map f := by
  induction t with
  | nil => rfl
  | cons e t ih =>
    obtain ⟨k', v⟩ := e
    rw [List.map_cons, get?_cons, get?_cons, ih]
    by_cases hk : k = k' <;> simp [hk]

theorem map_fst_put {t : Table κ ν} {k : κ} (h : k ∈ t.map Prod.fst) (v : ν) :
    (t.put k v).map Prod.fst = t.map Prod.fst := by
  induction t with
  | nil => cases h
  | cons e t ih =>
    obtain ⟨k', v'⟩ := e
    rw [put]
    split
    · next heq => rw [List.map_cons, List.map_cons, heq]
    · next hne => rw [List.map_cons, List.map_cons, ih ((List.mem_cons.1 h).resolve_left hne)]

theorem nodup_put {t : Table κ ν} (h : (t.map Prod.fst).Nodup) (k : κ) (v : ν) :
    ((t.put k v).map Prod.fst).Nodup := by
  by_cases hk : k ∈ t.map Prod.fst
  · rwa [map_fst_put hk]
  · rw [put_of_fresh hk, List.map_append, List.map_singleton, ← List.concat_eq_append]
    exact h.concat hk

theorem nodup_putAll {t : Table κ ν} (h : (t.map Prod.fst).Nodup) (entries : List (κ × ν)) :
    ((t.putAll entries).map Prod.fst).Nodup := by
  induction entries generalizing t with
  | nil => exact h
  | cons e es ih => exact ih (nodup_put h e.1 e.2)

end Table

/-! ## Objects -/

namespace Json

mutual

/-- The value in which the members of every object are settled: of a repeated key the last value
counts. -/
def settled : Json → Json
  | .arr xs => .arr (settledAll xs)
  | .obj ms => .ofMembers (settledMembers ms)
  | j => j

def settledAll : List Json → List Json
  | [] => []
  | x :: xs => settled x :: settledAll xs

def settledMembers : List (Text × Json) → List (Text × Json)
  | [] => []
  | (key, v) :: ms => (key, settled v) :: settledMembers ms

end

theorem perm_arrange (ms : List (Text × Json)) : (arrange ms).Perm ms := by
  have hsplit := List.filter_append_perm (fun m : Text × Json => (indexOf? m.1).isSome) ms
  simp only [Option.not_isSome] at hsplit
  exact ((List.mergeSort_perm _ _).append_right _).trans hsplit

/-- The value of a key in an object is that of its last member with the key. -/
theorem get?_members_ofMembers (ms : List (Text × Json)) (key : Text) :
    Table.get? (ofMembers ms).members key = Table.get? ms.reverse key := by
  have hnodup : ((Table.putAll [] ms).map Prod.fst).Nodup :=
    Table.nodup_putAll (t := []) List.nodup_nil ms
  have hperm := perm_arrange (Table.putAll [] ms)
  -- with distinct keys the order does not matter
  have harrange : Table.get? (arrange (Table.putAll [] ms)) key =
      Table.get? (Table.putAll [] ms) key := by
    ext v
    rw [Table.get?_eq_some_iff hnodup,
      Table.get?_eq_some_iff ((hperm.map Prod.fst).nodup_iff.2 hnodup), hperm.mem_iff]
  show Table.get? (arrange (Table.putAll [] ms)) key = _
  rw [harrange, Table.get?_putAll_last, Table.get?_nil, Option.or_none]

theorem settledMembers_eq_map (ms : List (Text × Json)) :
    settledMembers ms = ms.map fun m => (m.1, m.2.settled) := by
  induction ms with
  | nil => rfl
  | cons m ms ih => rw [settledMembers, ih, List.map_cons]

/-- The members of a settled object. -/
theorem get?_members_settled (ms : List (Text × Json)) (key : Text) :
    Table.get? (settled (.obj ms)).members key = (Table.get? ms.reverse key).map settled := by
  rw [settled, get?_members_ofMembers, settledMembers_eq_map, ← List.map_reverse, Table.get?_map]

theorem mem_keys_settled {ms : List (Text × Json)} {key : Text} :
    key ∈ (settled (.obj ms)).members.map Prod.fst ↔ key ∈ ms.map Prod.fst := by
  rw [← not_iff_not, ← Table.get?_eq_none_iff, get?_members_settled, Option.map_eq_none_iff,
    Table.get?_eq_none_iff, List.map_reverse, List.mem_reverse]

end Json

end TreeMerge
