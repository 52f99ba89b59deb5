import Mathlib.Data.List.MinMax

/-!
# The index of the best value

Values of some of the elements of a list, collected in order, and the first index of the
largest of them. Elements without a value leave no gap, so an index into the values is one into
the elements only as far as no value is missing.

## Main definitions

* `argmax` — the first index of the largest element

## Main results

* `argmax_filterMap_iff` — when the index of the best value is that of a best element
-/

namespace SignalSim

/-! ### Indices of values -/

section Positions

variable {α R : Type*} {f : α → Option R} {xs : List α}

/-- The value of an element stands behind those of the elements before it. -/
theorem getElem?_filterMap {i : ℕ} (hi : i < xs.length) {r : R} (hr : f xs[i] = some r) :
    (xs.filterMap f)[((xs.take i).filterMap f).length]? = some r := by
  have hsplit : xs = xs.take i ++ xs[i] :: xs.drop (i + 1) := by
    rw [List.getElem_cons_drop, List.take_append_drop]
  conv_lhs => rw [hsplit]
  rw [List.filterMap_append, List.filterMap_cons_some hr]
  simp

/-- Where every element before has a value, the value keeps the index of its element. -/
theorem length_filterMap_take {i : ℕ} (hi : i ≤ xs.length)
    (h : ∀ x ∈ xs.take i, (f x).isSome) : ((xs.take i).filterMap f).length = i := by
  rw [List.filterMap_length_eq_length.mpr h, List.length_take_of_le hi]

end Positions

section Argmax

variable {R : Type*} [LinearOrder R]

/-- The first index of the largest element; there is none in an empty list. -/
def argmax (xs : List R) : Option ℕ := (xs.argmax id).map xs.idxOf

theorem argmax_eq_some {xs : List R} {j : ℕ} (h : argmax xs = some j) :
    ∃ hj : j < xs.length, (∀ x ∈ xs, x ≤ xs[j]) ∧ ∀ i, (hi : i < xs.length) →
      xs[j] ≤ xs[i] → j ≤ i := by
  obtain ⟨m, hm, rfl⟩ := Option.map_eq_some_iff.mp h
  have hmem : m ∈ xs := List.argmax_mem hm
  have hj : xs.idxOf m < xs.length := List.idxOf_lt_length_of_mem hmem
  have hget : xs[xs.idxOf m] = m := List.getElem_idxOf hj
  refine ⟨hj, fun x hx => ?_, fun i hi hle => ?_⟩
  · rw [hget]
    exact List.le_of_mem_argmax hx hm
  · rw [hget] at hle
    have heq : xs[i] = m := le_antisymm (List.le_of_mem_argmax (List.getElem_mem hi) hm) hle
    by_contra hlt
    exact beq_eq_false_iff_ne.mp (List.not_of_lt_findIdx (Nat.lt_of_not_le hlt)) heq

theorem argmax_isSome {xs : List R} (h : xs ≠ []) : (argmax xs).isSome := by
  rw [argmax, Option.isSome_map, Option.isSome_iff_ne_none, Ne, List.argmax_eq_none]
  exact h

/-- **The index of the best value.** It is that of an element with the best value exactly if
there is one before which every element has a value. -/
theorem argmax_filterMap_iff {α : Type*} {f : α → Option R} {xs : List α} {j : ℕ}
    (hj : argmax (xs.filterMap f) = some j) :
    (∃ x r, xs[j]? = some x ∧ f x = some r ∧ ∀ y ∈ xs, ∀ s, f y = some s → s ≤ r) ↔
      ∃ i x r, xs[i]? = some x ∧ f x = some r ∧ (∀ y ∈ xs, ∀ s, f y = some s → s ≤ r) ∧
        ∀ y ∈ xs.take i, (f y).isSome := by
  obtain ⟨hjlen, hmax, hfirst⟩ := argmax_eq_some hj
  constructor
  · rintro ⟨x, r, hx, hr, hbest⟩
    refine ⟨j, x, r, hx, hr, hbest, ?_⟩
    obtain ⟨hjx, rfl⟩ := List.getElem?_eq_some_iff.mp hx
    -- its value stands at or before `j`, and no value before `j` is as large
    obtain ⟨hpos, hget⟩ := List.getElem?_eq_some_iff.mp (getElem?_filterMap hjx hr)
    have hvalue : (xs.filterMap f)[j] ≤ r := by
      obtain ⟨y, hy, hs⟩ := List.mem_filterMap.mp (List.getElem_mem hjlen)
      exact hbest y hy _ hs
    have hle : j ≤ ((xs.take j).filterMap f).length := hfirst _ hpos (hget ▸ hvalue)
    rw [← List.filterMap_length_eq_length, List.length_take_of_le (Nat.le_of_lt hjx)]
    refine Nat.le_antisymm (le_trans (List.length_filterMap_le f _) ?_) hle
    exact List.length_take_le j xs
  · rintro ⟨i, x, r, hx, hr, hbest, hvalued⟩
    obtain ⟨hix, rfl⟩ := List.getElem?_eq_some_iff.mp hx
    -- the values up to `i` have the indices of their elements, and `j` is one of these
    obtain ⟨hpos, hget⟩ := List.getElem?_eq_some_iff.mp (getElem?_filterMap hix hr)
    have hlen := length_filterMap_take (Nat.le_of_lt hix) hvalued
    have hji : j ≤ i := by
      rw [← hlen]
      refine hfirst _ hpos ?_
      obtain ⟨y, hy, hs⟩ := List.mem_filterMap.mp (List.getElem_mem hjlen)
      exact hget ▸ hbest y hy _ hs
    have hjx : j < xs.length := lt_of_le_of_lt hji hix
    have hjvalued : ∀ y ∈ xs.take j, (f y).isSome :=
      fun y hy => hvalued y (List.take_subset_take_left xs hji hy)
    have hjr : (f xs[j]).isSome := by
      rcases Nat.lt_or_eq_of_le hji with hlt | rfl
      · exact hvalued _ (List.mem_take_iff_getElem.mpr ⟨j, by omega, rfl⟩)
      · rw [hr]
        rfl
    obtain ⟨s, hs⟩ := Option.isSome_iff_exists.mp hjr
    have hat := getElem?_filterMap hjx hs
    rw [length_filterMap_take (Nat.le_of_lt hjx) hjvalued, List.getElem?_eq_getElem hjlen,
      Option.some_inj] at hat
    refine ⟨xs[j], s, List.getElem?_eq_getElem hjx, hs, fun y hy t ht => ?_⟩
    rw [← hat]
    exact hmax t (List.mem_filterMap.mpr ⟨y, hy, ht⟩)

end Argmax

end SignalSim
