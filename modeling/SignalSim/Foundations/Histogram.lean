import Mathlib.Algebra.BigOperators.Group.Finset.Basic
import Mathlib.Algebra.GroupWithZero.Nat
import Mathlib.Algebra.Order.BigOperators.Group.List
import Mathlib.Algebra.Order.Ring.Nat
import Mathlib.Data.List.Range
import Mathlib.Tactic.Common

/-!
# Histograms

How often each of the first numbers occurs in a list, in counters of any type, and how that
changes when the list or the range grows.

## Main results

* `histogram_add` — numbers beyond all that occur are counted zero times
* `histogram_concat` — one more occurrence is one more in its place
* `sum_count`, `sum_countP` — what is counted under all keys together
* `sum_map_eq_iff` — when nothing that is counted gets lost
-/

namespace SignalSim

variable {α : Type*}

/-- How often each number below `n` occurs in `ks`, where `count c` is the counter that has
counted to `c`. -/
def histogram (count : ℕ → α) (n : ℕ) (ks : List ℕ) : List α :=
  (List.range n).map fun k => count (ks.count k)

variable {count : ℕ → α} {n m k : ℕ} {ks : List ℕ}

@[simp] theorem length_histogram : (histogram count n ks).length = n := by
  simp [histogram]

theorem getElem?_histogram (hk : k < n) :
    (histogram count n ks)[k]? = some (count (ks.count k)) := by
  simp [histogram, hk]

theorem histogram_add (h : ∀ k ∈ ks, k < n) :
    histogram count (n + m) ks = histogram count n ks ++ List.replicate m (count 0) := by
  rw [histogram, List.range_add, List.map_append, List.map_map]
  congr 1
  rw [List.eq_replicate_iff]
  constructor
  · simp
  · intro c hc
    obtain ⟨j, -, rfl⟩ := List.mem_map.mp hc
    apply congrArg count
    apply List.count_eq_zero.mpr
    intro hmem
    exact absurd (h _ hmem) (Nat.not_lt_of_le (Nat.le_add_right n j))

theorem histogram_concat (next : α → α) (hnext : ∀ c, next (count c) = count (c + 1)) :
    histogram count n (ks ++ [k]) = (histogram count n ks).modify k next := by
  apply List.ext_getElem
  · simp
  · intro j hj _
    rw [length_histogram] at hj
    rw [List.getElem_modify]
    by_cases hkj : k = j
    · subst hkj
      simp [histogram, List.count_append, hnext]
    · simp [histogram, List.count_append, List.count_singleton, hkj]

/-- What is counted under different keys, if it is all under one of them. -/
theorem sum_count {κ : Type*} [DecidableEq κ] {xs keys : List κ} (hkeys : keys.Nodup)
    (h : ∀ x ∈ xs, x ∈ keys) : (keys.map fun k => xs.count k).sum = xs.length := by
  have hsum : ∑ k ∈ ⟨(keys : Multiset κ), hkeys⟩, (xs : Multiset κ).count k = xs.length :=
    Multiset.sum_count_eq_card h
  rw [← hsum, Finset.sum_eq_multiset_sum, Multiset.map_coe, Multiset.sum_coe]
  simp only [Multiset.coe_count]

theorem sum_countP {κ : Type*} [DecidableEq κ] {xs : List α} {keys : List κ} (key : α → κ)
    (hkeys : keys.Nodup) (h : ∀ x ∈ xs, key x ∈ keys) :
    (keys.map fun k => xs.countP fun x => key x = k).sum = xs.length := by
  have hcount (k : κ) : (xs.countP fun x => key x = k) = (xs.map key).count k := by
    rw [List.count_eq_countP, List.countP_map]
    simp only [Function.comp_def, beq_eq_decide]
  simp only [hcount]
  rw [sum_count hkeys (List.forall_mem_map.mpr h), List.length_map]

/-- Numbers below `n` are counted once each. -/
theorem sum_count_range (h : ∀ k ∈ ks, k < n) :
    ((List.range n).map fun k => ks.count k).sum = ks.length :=
  sum_count List.nodup_range fun k hk => List.mem_range.mpr (h k hk)

/-- Sums of numbers of which none is larger than another are the same if the numbers are. -/
theorem sum_map_eq_iff {xs : List α} {f g : α → ℕ} (h : ∀ x ∈ xs, f x ≤ g x) :
    (xs.map f).sum = (xs.map g).sum ↔ ∀ x ∈ xs, f x = g x := by
  induction xs with
  | nil => simp
  | cons x xs ih =>
    obtain ⟨hx, hxs⟩ := List.forall_mem_cons.mp h
    have hle := List.sum_le_sum hxs
    rw [List.map_cons, List.sum_cons, List.map_cons, List.sum_cons, List.forall_mem_cons,
      ← ih hxs]
    omega

/-- A counter behind a list of others. -/
theorem modify_append_right (ls rs : List α) (next : α → α) :
    (ls ++ rs).modify (ls.length + k) next = ls ++ rs.modify k next := by
  induction ls with
  | nil => simp
  | cons l ls ih =>
    rw [List.cons_append, List.length_cons, Nat.add_right_comm, List.modify_succ_cons, ih]
    rfl

end SignalSim
