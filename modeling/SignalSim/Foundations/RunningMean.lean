import Mathlib.Algebra.BigOperators.Group.List.Basic
import Mathlib.Algebra.Field.Basic
import Mathlib.Data.List.Induction
import Mathlib.Data.Nat.Cast.Order.Field
import Mathlib.Tactic.FieldSimp
import Mathlib.Tactic.Ring

/-!
# Running means

A mean kept up to date value by value, where what divides a difference is what the counter of the
values shows. As long as the counter shows how many there were, the mean is the arithmetic mean.

## Main results

* `runningMean_concat` — one more value
* `runningMean_eq` — the mean is the sum over the number
-/

namespace SignalSim

section

variable {K : Type*} [Zero K] [Add K] [Sub K] [Div K] {shown : ℕ → K} {xs : List K} {x : K}

/-- The mean after a list of values, where `shown n` is what the counter of `n` values shows. -/
def runningMean (shown : ℕ → K) (xs : List K) : K :=
  (xs.foldl (fun (s : ℕ × K) x => (s.1 + 1, s.2 + (x - s.2) / shown (s.1 + 1))) (0, 0)).2

@[simp] theorem runningMean_nil : runningMean shown [] = 0 := rfl

theorem runningMean_concat : runningMean shown (xs ++ [x]) =
    runningMean shown xs + (x - runningMean shown xs) / shown (xs.length + 1) := by
  have hlength (s : ℕ × K) : (xs.foldl
      (fun (s : ℕ × K) x => (s.1 + 1, s.2 + (x - s.2) / shown (s.1 + 1))) s).1 =
        s.1 + xs.length := by
    induction xs generalizing s with
    | nil => rfl
    | cons y ys ih => rw [List.foldl_cons, ih, List.length_cons, Nat.add_assoc, Nat.add_comm 1]
  rw [runningMean, List.foldl_append, List.foldl_cons, List.foldl_nil, hlength, Nat.zero_add]
  rfl

end

theorem runningMean_eq {K : Type*} [Field K] [CharZero K] {shown : ℕ → K} {xs : List K}
    (h : ∀ n ≤ xs.length, shown n = n) :
    runningMean shown xs = xs.sum / xs.length := by
  induction xs using List.reverseRecOn with
  | nil => simp
  | append_singleton xs x ih =>
    rw [List.length_append, List.length_singleton] at h
    rw [runningMean_concat, h _ (Nat.le_refl _), ih fun n hn => h n (Nat.le_succ_of_le hn),
      List.sum_append, List.sum_singleton, List.length_append, List.length_singleton]
    have hsucc : ((xs.length + 1 : ℕ) : K) ≠ 0 := Nat.cast_ne_zero.mpr (Nat.succ_ne_zero _)
    rcases Nat.eq_zero_or_pos xs.length with hzero | hpos
    · rw [List.eq_nil_of_length_eq_zero hzero]
      simp
    · have hne : (xs.length : K) ≠ 0 := Nat.cast_ne_zero.mpr (Nat.pos_iff_ne_zero.mp hpos)
      push_cast at hsucc ⊢
      field_simp
      ring

end SignalSim
