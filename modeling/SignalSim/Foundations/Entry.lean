import Mathlib.Data.List.AList
import Mathlib.Tactic.Common

/-!
# Entries of a table

A table of values by key, changed at one key at a time: only where there is a value, only where
there is none, or both one after the other. What a key finds afterwards is all that a proof about
such a table needs.

## Main results

* `Entry.lookup_andModify`, `Entry.lookup_orInsert`
* `Entry.lookup_foldl_insert` — the value inserted last is found
* `Entry.map_entries` — a table is the list of its keys, each with what it finds
-/

namespace SignalSim.Entry

variable {κ β : Type} [DecidableEq κ] {m : AList fun _ : κ => β} {k j : κ} {f : β → β} {v : β}

/-- Change the value of a key that has one. -/
def andModify (k : κ) (f : β → β) (m : AList fun _ : κ => β) : AList fun _ : κ => β :=
  (m.lookup k).elim m fun v => m.insert k (f v)

/-- Give a value to a key that has none. -/
def orInsert (k : κ) (v : β) (m : AList fun _ : κ => β) : AList fun _ : κ => β :=
  (m.lookup k).elim (m.insert k v) fun _ => m

theorem lookup_andModify :
    (andModify k f m).lookup j = if j = k then (m.lookup k).map f else m.lookup j := by
  unfold andModify
  by_cases hjk : j = k
  · subst hjk
    rw [if_pos rfl]
    cases hm : m.lookup j with
    | none => exact hm
    | some v => exact AList.lookup_insert m
  · rw [if_neg hjk]
    cases m.lookup k with
    | none => rfl
    | some v => exact AList.lookup_insert_ne hjk

theorem lookup_orInsert :
    (orInsert k v m).lookup j = if j = k then some ((m.lookup k).getD v) else m.lookup j := by
  unfold orInsert
  by_cases hjk : j = k
  · subst hjk
    rw [if_pos rfl]
    cases hm : m.lookup j with
    | none => exact AList.lookup_insert m
    | some v => exact hm
  · rw [if_neg hjk]
    cases m.lookup k with
    | none => exact AList.lookup_insert_ne hjk
    | some v => rfl

/-- Of the values given to a key one after the other, the last counts. -/
theorem lookup_foldl_insert {ι : Type} (key : ι → κ) (value : ι → β) {xs : List ι} :
    (xs.foldl (fun m x => m.insert (key x) (value x)) m).lookup k =
      ((xs.filter fun x => key x = k).getLast?.map value).or (m.lookup k) := by
  induction xs generalizing m with
  | nil => simp
  | cons x xs ih =>
    rw [List.foldl_cons, ih]
    by_cases hx : key x = k
    · subst hx
      rw [AList.lookup_insert, List.filter_cons_of_pos (by simp), List.getLast?_cons]
      cases (xs.filter fun y => key y = key x).getLast? <;> rfl
    · rw [AList.lookup_insert_ne (Ne.symm hx), List.filter_cons_of_neg (by simpa using hx)]

/-- Where no key is given two values, each value is found. -/
theorem lookup_foldl_insert_nodup {ι : Type} (key : ι → κ) (value : ι → β) {xs : List ι}
    (hnodup : (xs.map key).Nodup) {v : β} :
    (xs.foldl (fun m x => m.insert (key x) (value x)) (∅ : AList fun _ : κ => β)).lookup k =
      some v ↔ ∃ x ∈ xs, key x = k ∧ value x = v := by
  rw [lookup_foldl_insert, AList.lookup_empty, Option.or_none, Option.map_eq_some_iff]
  constructor
  · rintro ⟨x, hx, rfl⟩
    obtain ⟨hmem, hk⟩ := List.mem_filter.mp (List.mem_of_getLast? hx)
    exact ⟨x, hmem, of_decide_eq_true hk, rfl⟩
  · rintro ⟨x, hx, rfl, rfl⟩
    have hmem : x ∈ xs.filter fun y => key y = key x :=
      List.mem_filter.mpr ⟨hx, decide_eq_true rfl⟩
    have hlast := List.getLast?_eq_some_getLast (List.ne_nil_of_mem hmem)
    obtain ⟨hmem', hk⟩ := List.mem_filter.mp (List.mem_of_getLast? hlast)
    have heq := List.inj_on_of_nodup_map hnodup hmem' hx (of_decide_eq_true hk)
    exact ⟨x, hlast.trans (congrArg some heq), rfl⟩

/-- A function of the entries is one of the keys, if it is so where a key finds its value. -/
theorem map_entries {γ : Type} {g : (Σ _ : κ, β) → γ} {h : κ → γ}
    (hgh : ∀ k v, m.lookup k = some v → g ⟨k, v⟩ = h k) : m.entries.map g = m.keys.map h := by
  have hkeys : m.keys = m.entries.map Sigma.fst := rfl
  rw [hkeys, List.map_map]
  apply List.map_congr_left
  rintro ⟨k, v⟩ hmem
  exact hgh k v (AList.mem_lookup_iff.mpr hmem)

end SignalSim.Entry
