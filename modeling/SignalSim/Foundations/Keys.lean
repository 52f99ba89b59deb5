import Mathlib.Data.List.Dedup
import Mathlib.Data.List.Perm.Basic
import Mathlib.Tactic.Common

/-!
# Lists with keys

Elements that are found again by a key no two of them share, and lists put together from parts
that carry the keys of what they stand for.

## Main results

* `filter_key_eq` — the elements with the key of one of them
* `filter_flatMap_key` — the parts with a key are those of the elements with it
* `flatMap_filter_key_perm` — the elements with each key in turn are all of them
* `perm_of_filter_key_eq` — lists that agree key by key have the same elements
-/

namespace SignalSim

variable {α β κ : Type*} (key : α → κ) {xs : List α}

/-- Parts of one element at most. -/
theorem flatMap_sublist_map {part : α → List κ}
    (h : ∀ x ∈ xs, (part x).Sublist [key x]) : (xs.flatMap part).Sublist (xs.map key) := by
  induction xs with
  | nil => exact .refl _
  | cons x xs ih =>
    rw [List.flatMap_cons, List.map_cons, ← List.singleton_append]
    exact (h x List.mem_cons_self).append (ih fun y hy => h y (List.mem_cons_of_mem x hy))

/-- What is collected for two elements at a time, by the first of them or by the second. -/
theorem flatMap_flatMap_perm {γ : Type*} (f : α → β → List γ) (xs : List α) (ys : List β) :
    (xs.flatMap fun x => ys.flatMap (f x)).Perm (ys.flatMap fun y => xs.flatMap (f · y)) := by
  induction xs with
  | nil =>
    have hnil : ys.flatMap (fun y => ([] : List α).flatMap (f · y)) = [] :=
      List.flatMap_eq_nil_iff.mpr fun _ _ => rfl
    rw [List.flatMap_nil, hnil]
  | cons x xs ih =>
    rw [List.flatMap_cons]
    exact (ih.append_left _).trans (List.flatMap_append_perm ys (f x) _)

variable [DecidableEq κ]

/-- No other element has the key. -/
theorem filter_key_eq (hnodup : (xs.map key).Nodup) {x : α} (hx : x ∈ xs) :
    xs.filter (key · = key x) = [x] := by
  induction xs with
  | nil => exact absurd hx List.not_mem_nil
  | cons y ys ih =>
    obtain ⟨hnot, hnodup⟩ := List.nodup_cons.mp hnodup
    rcases List.mem_cons.mp hx with rfl | hx
    · have hrest : ys.filter (key · = key x) = [] := by
        refine List.filter_eq_nil_iff.mpr fun z hz heq => hnot ?_
        exact List.mem_map.mpr ⟨z, hz, of_decide_eq_true heq⟩
      rw [List.filter_cons_of_pos (by simp), hrest]
    · have hne : key y ≠ key x := fun heq => hnot (heq ▸ List.mem_map_of_mem hx)
      rw [List.filter_cons_of_neg (by simpa using hne), ih hnodup hx]

theorem filter_key_eq_nil {k : κ} (h : ∀ x ∈ xs, key x ≠ k) : xs.filter (key · = k) = [] :=
  List.filter_eq_nil_iff.mpr fun x hx heq => h x hx (of_decide_eq_true heq)

/-- Parts that carry the key of the element they come from. -/
theorem filter_flatMap_key {key' : β → κ} {part : α → List β}
    (h : ∀ x ∈ xs, ∀ y ∈ part x, key' y = key x) (k : κ) :
    (xs.flatMap part).filter (key' · = k) = (xs.filter (key · = k)).flatMap part := by
  induction xs with
  | nil => rfl
  | cons x xs ih =>
    have hx := h x List.mem_cons_self
    rw [List.flatMap_cons, List.filter_append, ih fun y hy => h y (List.mem_cons_of_mem x hy)]
    by_cases hk : key x = k
    · have hself : (part x).filter (key' · = k) = part x :=
        List.filter_eq_self.mpr fun y hy => decide_eq_true ((hx y hy).trans hk)
      rw [hself, List.filter_cons_of_pos (by simpa using hk), List.flatMap_cons]
    · have hnil : (part x).filter (key' · = k) = [] :=
        filter_key_eq_nil key' fun y hy heq => hk ((hx y hy).symm.trans heq)
      rw [hnil, List.filter_cons_of_neg (by simpa using hk), List.nil_append]

/-- The elements with each key in turn. -/
theorem flatMap_filter_key_perm {ks : List κ} (hks : ks.Nodup) (h : ∀ x ∈ xs, key x ∈ ks) :
    (ks.flatMap fun k => xs.filter (key · = k)).Perm xs := by
  induction ks generalizing xs with
  | nil =>
    rw [List.eq_nil_iff_forall_not_mem.mpr fun x hx => List.not_mem_nil (h x hx)]
    exact .refl _
  | cons k ks ih =>
    obtain ⟨hnot, hks⟩ := List.nodup_cons.mp hks
    -- the other keys do not see the elements with this one
    have hothers : ∀ k' ∈ ks, (xs.filter (key · ≠ k)).filter (key · = k') =
        xs.filter (key · = k') := by
      intro k' hk'
      rw [List.filter_filter]
      refine List.filter_congr fun x _ => ?_
      by_cases hx : key x = k'
      · have hne : key x ≠ k := fun heq => hnot (heq ▸ hx ▸ hk')
        simp [hx, hx ▸ hne]
      · simp [hx]
    have hkeys : ∀ x ∈ xs.filter (key · ≠ k), key x ∈ ks := by
      intro x hx
      obtain ⟨hmem, hne⟩ := List.mem_filter.mp hx
      exact (List.mem_cons.mp (h x hmem)).resolve_left (of_decide_eq_true hne)
    have hrest := ih hks hkeys
    rw [List.flatMap_congr hothers] at hrest
    rw [List.flatMap_cons]
    refine (hrest.append_left _).trans ?_
    simpa using List.filter_append_perm (fun x => decide (key x = k)) xs

/-- Lists that agree key by key. -/
theorem perm_of_filter_key_eq {ys : List α}
    (h : ∀ k, xs.filter (key · = k) = ys.filter (key · = k)) : xs.Perm ys := by
  have hks := List.nodup_dedup ((xs ++ ys).map key)
  have hmem : ∀ zs : List α, zs ⊆ xs ++ ys → ∀ z ∈ zs, key z ∈ ((xs ++ ys).map key).dedup :=
    fun zs hzs z hz => List.mem_dedup.mpr (List.mem_map_of_mem (hzs hz))
  have hxs := flatMap_filter_key_perm key hks (hmem xs (List.subset_append_left xs ys))
  have hys := flatMap_filter_key_perm key hks (hmem ys (List.subset_append_right xs ys))
  rw [List.flatMap_congr fun k _ => h k] at hxs
  exact hxs.symm.trans hys

end SignalSim
