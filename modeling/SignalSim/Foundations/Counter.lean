import Mathlib.Data.List.Dedup
import Mathlib.Data.List.Induction
import Mathlib.Data.List.Sort
import Mathlib.Data.Prod.Lex
import Mathlib.Tactic.Common

/-!
# Tables of counts

A table that holds for each value how often it was seen, filled value by value. Sorted, it is
the values in their order with their numbers of occurrences, whatever the order in which they
came and in which the table is gone through.

## Main results

* `exists_counter_eq` — the entries of a table
* `sortPairs_eq` — the sorted table, in whichever order its entries are taken
-/

namespace SignalSim

variable {α : Type*}

/-! ### The table -/

section Table

variable [DecidableEq α]

/-- One more occurrence of a value. -/
def bump : List (α × ℕ) → α → List (α × ℕ)
  | [], v => [(v, 1)]
  | (w, n) :: table, v => if w = v then (w, n + 1) :: table else (w, n) :: bump table v

/-- The table of the values of a list. -/
def counter (values : List α) : List (α × ℕ) := values.foldl bump []

variable {keys values : List α} {count : α → ℕ} {v : α}

/-- A value that is not in the table yet gets an entry. -/
theorem bump_of_not_mem (h : v ∉ keys) : bump (keys.map fun w => (w, count w)) v =
    keys.map (fun w => (w, count w)) ++ [(v, 1)] := by
  induction keys with
  | nil => rfl
  | cons w keys ih =>
    have hne : w ≠ v := fun heq => h (heq ▸ List.mem_cons_self)
    rw [List.map_cons, bump, if_neg hne, ih fun hmem => h (List.mem_cons_of_mem w hmem),
      List.cons_append]

/-- The entry of a value that is in the table counts one more. -/
theorem bump_of_mem (hnodup : keys.Nodup) (h : v ∈ keys) :
    bump (keys.map fun w => (w, count w)) v =
      keys.map fun w => (w, if w = v then count w + 1 else count w) := by
  induction keys with
  | nil => exact absurd h List.not_mem_nil
  | cons w keys ih =>
    obtain ⟨hnot, hnodup⟩ := List.nodup_cons.mp hnodup
    rw [List.map_cons, List.map_cons, bump]
    by_cases heq : w = v
    · -- no later entry is one of `v`
      subst heq
      have hrest : keys.map (fun u => (u, count u)) =
          keys.map fun u => (u, if u = w then count u + 1 else count u) := by
        refine List.map_congr_left fun u hu => ?_
        have hne : u ≠ w := fun huw => hnot (huw ▸ hu)
        rw [if_neg hne]
      rw [if_pos rfl, if_pos rfl, hrest]
    · have hmem : v ∈ keys := (List.mem_cons.mp h).resolve_left fun hv => heq hv.symm
      rw [if_neg heq, if_neg heq, ih hnodup hmem]

theorem count_concat {w : α} : (values ++ [v]).count w =
    if w = v then values.count w + 1 else values.count w := by
  rw [List.count_append, List.count_singleton]
  by_cases heq : w = v
  · simp [heq]
  · simp [heq, Ne.symm heq]

/-- **The table.** It has one entry for each value, with the number of its occurrences. -/
theorem exists_counter_eq (values : List α) : ∃ keys : List α, keys.Nodup ∧
    (∀ v, v ∈ keys ↔ v ∈ values) ∧ counter values = keys.map fun v => (v, values.count v) := by
  induction values using List.reverseRecOn with
  | nil => exact ⟨[], List.nodup_nil, fun _ => Iff.rfl, rfl⟩
  | append_singleton values v ih =>
    obtain ⟨keys, hnodup, hmem, htable⟩ := ih
    have hstep : counter (values ++ [v]) = bump (counter values) v := by
      rw [counter, List.foldl_append]
      rfl
    by_cases hv : v ∈ values
    · refine ⟨keys, hnodup, fun w => ?_, ?_⟩
      · rw [hmem, List.mem_append, List.mem_singleton]
        exact ⟨.inl, fun h => h.elim id fun heq => heq ▸ hv⟩
      · rw [hstep, htable, bump_of_mem hnodup ((hmem v).mpr hv)]
        refine List.map_congr_left fun w _ => ?_
        rw [count_concat]
    · refine ⟨keys ++ [v], ?_, fun w => ?_, ?_⟩
      · rw [← List.concat_eq_append]
        exact hnodup.concat (mt (hmem v).mp hv)
      · rw [List.mem_append, List.mem_append, hmem]
      · have hcount : (values ++ [v]).count v = 1 := by
          rw [count_concat, if_pos rfl, List.count_eq_zero_of_not_mem hv]
        have hkeys : keys.map (fun w => (w, values.count w)) =
            keys.map fun w => (w, (values ++ [v]).count w) := by
          refine List.map_congr_left fun w hw => ?_
          have hne : w ≠ v := fun heq => hv (heq ▸ (hmem w).mp hw)
          rw [count_concat, if_neg hne]
        rw [hstep, htable, bump_of_not_mem (mt (hmem v).mp hv), List.map_append, hkeys,
          List.map_singleton, hcount]

end Table

/-! ### In order -/

section Sorted

variable [LinearOrder α]

/-- A list of pairs in the order of their first components, then of their second ones. -/
def sortPairs (pairs : List (α × ℕ)) : List (α × ℕ) :=
  ((pairs.map toLex).insertionSort (· ≤ ·)).map ofLex

/-- The different values of a list, in order. -/
def sortedValues (values : List α) : List α := values.dedup.insertionSort (· ≤ ·)

variable {values values' : List α} {v : α}

@[simp] theorem mem_sortedValues : v ∈ sortedValues values ↔ v ∈ values := by
  rw [sortedValues, List.mem_insertionSort, List.mem_dedup]

theorem sortedValues_pairwise (values : List α) : (sortedValues values).Pairwise (· < ·) := by
  have hnodup : (sortedValues values).Nodup :=
    (List.perm_insertionSort _ _).nodup_iff.mpr (List.nodup_dedup values)
  exact (List.sortedLE_insertionSort.sortedLT_of_nodup hnodup).pairwise

theorem sortedValues_perm (h : values.Perm values') :
    sortedValues values = sortedValues values' :=
  (sortedValues_pairwise values).eq_of_mem_iff (sortedValues_pairwise values') fun v => by
    rw [mem_sortedValues, mem_sortedValues, h.mem_iff]

/-- **The sorted table.** The entries of the table in any order, sorted. -/
theorem sortPairs_eq {pairs : List (α × ℕ)} (h : pairs.Perm (counter values)) :
    sortPairs pairs = (sortedValues values).map fun v => (v, values.count v) := by
  obtain ⟨keys, hnodup, hmem, htable⟩ := exists_counter_eq values
  have hkeys : (sortedValues values).Perm keys := by
    refine (List.perm_ext_iff_of_nodup (sortedValues_pairwise values).nodup hnodup).mpr ?_
    exact fun v => by rw [mem_sortedValues, hmem]
  -- pairs with different first components are in the order of these
  have hsorted : ((sortedValues values).map fun v => toLex (v, values.count v)).SortedLE := by
    refine List.Pairwise.sortedLE (List.pairwise_map.mpr ?_)
    exact (sortedValues_pairwise values).imp fun hlt => Prod.Lex.toLex_le_toLex.mpr (.inl hlt)
  have hperm : ((pairs.map toLex).insertionSort (· ≤ ·)).Perm
      ((sortedValues values).map fun v => toLex (v, values.count v)) := by
    refine (List.perm_insertionSort _ _).trans ?_
    refine ((h.trans (htable ▸ hkeys.symm.map _)).map toLex).trans ?_
    rw [List.map_map]
    exact .refl _
  rw [sortPairs, hperm.eq_of_sortedLE List.sortedLE_insertionSort hsorted, List.map_map]
  rfl

end Sorted

end SignalSim
