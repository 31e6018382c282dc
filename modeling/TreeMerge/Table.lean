/-!
# Tables in order of insertion

A table lists its keys in the order in which they were first put; putting a key again changes its
value and keeps its place.

* `Table.get?`, `Table.has` : look a key up;
* `Table.put`, `Table.putAll` : set the values of keys;
* `Table.get?_put`, `Table.get?_putAll`, `Table.get?_putAll_last` : what a look-up gives after `put`
  and `putAll`.
-/

namespace TreeMerge

/-- Keys with their values, in the order of first insertion. -/
abbrev Table (κ ν : Type) := List (κ × ν)

namespace Table

variable {κ ν : Type} [DecidableEq κ]

/-- The value of a key. -/
def get? (t : Table κ ν) (k : κ) : Option ν :=
  List.lookup k t

/-- Whether a key has a value. -/
def has (t : Table κ ν) (k : κ) : Bool :=
  (t.get? k).isSome

/-- Set the value of a key, in its place if it is present and at the end otherwise. -/
def put (t : Table κ ν) (k : κ) (v : ν) : Table κ ν :=
  match t with
  | [] => [(k, v)]
  | (k', v') :: rest => if k = k' then (k, v) :: rest else (k', v') :: put rest k v

/-- Set the values of several keys, one after the other. -/
def putAll (t : Table κ ν) (entries : List (κ × ν)) : Table κ ν :=
  entries.foldl (fun t e => t.put e.1 e.2) t

@[simp] theorem get?_nil (k : κ) : get? ([] : Table κ ν) k = none := rfl

theorem get?_cons (k' : κ) (v' : ν) (t : Table κ ν) (k : κ) :
    get? ((k', v') :: t) k = if k = k' then some v' else t.get? k := by
  by_cases h : k = k'
  · simp [get?, h]
  · have hb : (k == k') = false := by simpa using h
    simp [get?, List.lookup_cons, h, hb]

theorem get?_put (t : Table κ ν) (k k' : κ) (v : ν) :
    (t.put k v).get? k' = if k' = k then some v else t.get? k' := by
  induction t with
  | nil => simp [put, get?_cons]
  | cons e t ih =>
    obtain ⟨k₀, v₀⟩ := e
    simp only [put]
    split <;> simp only [get?_cons, ih] <;> grind

/-- Entries of distinct keys are found as they are put. -/
theorem get?_putAll (t : Table κ ν) {entries : List (κ × ν)}
    (h : (entries.map Prod.fst).Nodup) (k : κ) :
    (t.putAll entries).get? k = (get? entries k).or (t.get? k) := by
  induction entries generalizing t with
  | nil => rfl
  | cons e es ih =>
    rw [List.map_cons, List.nodup_cons] at h
    show ((t.put e.1 e.2).putAll es).get? k = _
    rw [ih _ h.2, get?_put, get?_cons]
    by_cases hk : k = e.1
    · have hn : get? es k = none := by
        rw [get?, List.lookup_eq_none_iff]
        intro p hp
        rw [bne_iff_ne]
        intro hkp
        exact h.1 (hk ▸ hkp ▸ List.mem_map_of_mem hp)
      rw [if_pos hk, if_pos hk, hn, Option.none_or, Option.some_or]
    · rw [if_neg hk, if_neg hk]

theorem get?_eq_some_iff {t : Table κ ν} (h : (t.map Prod.fst).Nodup) {k : κ} {v : ν} :
    t.get? k = some v ↔ (k, v) ∈ t := by
  induction t with
  | nil => simp
  | cons e es ih =>
    obtain ⟨k', v'⟩ := e
    rw [List.map_cons, List.nodup_cons] at h
    rw [get?_cons, List.mem_cons, Prod.mk.injEq]
    by_cases hk : k = k'
    · have hn : (k, v) ∉ es := fun hm => h.1 (List.mem_map.2 ⟨(k, v), hm, hk⟩)
      rw [if_pos hk, Option.some.injEq, or_iff_left hn]
      exact ⟨fun hv => ⟨hk, hv.symm⟩, fun hv => hv.2.symm⟩
    · rw [if_neg hk, ih h.2]
      exact ⟨.inr, fun hv => hv.resolve_left fun e => hk e.1⟩

theorem mem_of_get? {t : Table κ ν} {k : κ} {v : ν} (h : t.get? k = some v) : (k, v) ∈ t := by
  obtain ⟨before, behind, ht, -⟩ := List.lookup_eq_some_iff.1 h
  rw [ht]
  exact List.mem_append_right _ List.mem_cons_self

/-- Of entries that are put one after the other the last one is found. -/
theorem get?_putAll_last (t : Table κ ν) (entries : List (κ × ν)) (k : κ) :
    (t.putAll entries).get? k = (get? entries.reverse k).or (t.get? k) := by
  induction entries generalizing t with
  | nil => rfl
  | cons e es ih =>
    have hlast : get? (e :: es).reverse k =
        (get? es.reverse k).or (if k = e.1 then some e.2 else none) := by
      rw [List.reverse_cons, ← get?_nil k, ← get?_cons]
      exact List.lookup_append
    show ((t.put e.1 e.2).putAll es).get? k = _
    rw [ih, get?_put, hlast, Option.or_assoc]
    by_cases hk : k = e.1 <;> simp [hk]

end Table

end TreeMerge
