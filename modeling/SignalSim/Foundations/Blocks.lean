import Mathlib.Data.List.DropRight

/-!
# Blocks of a list

The maximal blocks of consecutive elements that have a property, as a list has them before, between
and behind the elements that do not; a block may be empty. All but the last one are closed: an
element without the property comes behind them.

## Main definitions

* `blocks` — all blocks, in order
* `closedBlocks` — those that an element behind them closes

## Main results

* `blocks_eq` — the last block is what the list ends in
* `closedBlocks_concat_pos`, `closedBlocks_concat_neg` — what one more element changes
-/

namespace SignalSim

variable {α : Type*} {p : α → Bool} {xs : List α} {x : α}

/-- The blocks of elements that satisfy `p`. -/
def blocks (p : α → Bool) (xs : List α) : List (List α) := xs.splitOnP (!p ·)

/-- The blocks that end before the list does. -/
def closedBlocks (p : α → Bool) (xs : List α) : List (List α) := (blocks p xs).dropLast

/-- Elements that satisfy `p` only make the last block longer. -/
theorem exists_blocks_append (p : α → Bool) (xs : List α) :
    ∃ bs, ∀ ys, (∀ y ∈ ys, p y) → blocks p (xs ++ ys) = bs ++ [xs.rtakeWhile p ++ ys] := by
  have hsplit : xs.rdropWhile p ++ xs.rtakeWhile p = xs := List.rdropWhile_append_rtakeWhile
  -- the last block and the elements behind it are one block
  have hall : ∀ ys, (∀ y ∈ ys, p y) → ∀ y ∈ xs.rtakeWhile p ++ ys, (!p y) = false := by
    intro ys hys y hy
    rw [Bool.not_eq_false']
    rcases List.mem_append.mp hy with hy | hy
    · exact List.mem_rtakeWhile_imp hy
    · exact hys y hy
  rcases List.eq_nil_or_concat (xs.rdropWhile p) with hnil | ⟨init, sep, hconcat⟩
  · refine ⟨[], fun ys hys => ?_⟩
    rw [hnil, List.nil_append] at hsplit
    rw [← hsplit, hsplit, List.nil_append, ← List.splitOnP_eq_singleton (hall ys hys), hsplit]
    rfl
  · rw [List.concat_eq_append] at hconcat
    refine ⟨blocks p init, fun ys hys => ?_⟩
    have hne : xs.rdropWhile p ≠ [] := by simp [hconcat]
    have hsep : ¬ p sep = true := by
      have hlast := List.rdropWhile_last_not p xs hne
      simp only [hconcat, List.getLast_append_singleton] at hlast
      exact hlast
    have hxs : xs ++ ys = init ++ sep :: (xs.rtakeWhile p ++ ys) := by
      conv_lhs => rw [← hsplit, hconcat]
      rw [List.append_assoc, List.append_assoc, List.singleton_append]
    rw [hxs, blocks, List.splitOnP_append_cons _ _ (by simpa using hsep),
      List.splitOnP_eq_singleton (hall ys hys)]
    rfl

theorem blocks_eq : blocks p xs = closedBlocks p xs ++ [xs.rtakeWhile p] := by
  obtain ⟨bs, hbs⟩ := exists_blocks_append p xs
  have hblocks := hbs [] (fun _ => nofun)
  rw [List.append_nil, List.append_nil] at hblocks
  rw [closedBlocks, hblocks, List.dropLast_concat]

/-- An element that satisfies `p` closes no block. -/
theorem closedBlocks_concat_pos (h : p x) : closedBlocks p (xs ++ [x]) = closedBlocks p xs := by
  obtain ⟨bs, hbs⟩ := exists_blocks_append p xs
  have hblocks := hbs [] (fun _ => nofun)
  have hblocks' := hbs [x] (by simpa using h)
  rw [List.append_nil, List.append_nil] at hblocks
  rw [closedBlocks, closedBlocks, hblocks, hblocks', List.dropLast_concat, List.dropLast_concat]

/-- An element that does not closes the last one. -/
theorem closedBlocks_concat_neg (h : ¬ p x) :
    closedBlocks p (xs ++ [x]) = closedBlocks p xs ++ [xs.rtakeWhile p] := by
  rw [closedBlocks, blocks, List.splitOnP_append_cons _ _ (by simpa using h), List.splitOnP_nil,
    List.dropLast_concat]
  exact blocks_eq

end SignalSim
