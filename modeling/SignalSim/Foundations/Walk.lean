import Mathlib.Data.Option.Basic

/-!
# Walks

Walks in a graph that is given by what is on its edges. Where a graph is made from another one by
having several nodes stand for the same node, there are no other walks.

## Main definitions

* `Walk` — from one node to another over at least one edge, with what is on the edges

## Main results

* `Walk.pullback_iff` — walks between nodes are those between the nodes that they stand for
-/

namespace SignalSim

variable {V W D : Type} {edge : V → V → Option D} {edge' : W → W → Option D} {f : V → W}
  {u v : V} {x y : W} {ds : List D}

inductive Walk (edge : V → V → Option D) : V → List D → V → Prop
  | single {u v : V} {d : D} (h : edge u v = some d) : Walk edge u [d] v
  | cons {u m v : V} {d : D} {ds : List D} (h : edge u m = some d) (rest : Walk edge m ds v) :
      Walk edge u (d :: ds) v

namespace Walk

theorem map (hf : ∀ u v, edge u v = edge' (f u) (f v)) (h : Walk edge u ds v) :
    Walk edge' (f u) ds (f v) := by
  induction h with
  | single h => exact .single (hf _ _ ▸ h)
  | cons h _ ih => exact .cons (hf _ _ ▸ h) ih

/-- A walk can be followed from any node that stands for its first one. -/
theorem lift (hf : ∀ u v, edge u v = edge' (f u) (f v))
    (hsurj : ∀ x y d, edge' x y = some d → ∃ v, f v = y) (h : Walk edge' x ds y) (hx : f u = x)
    (hy : f v = y) : Walk edge u ds v := by
  induction h generalizing u with
  | single h =>
    subst hx hy
    exact .single ((hf u v).trans h)
  | cons h _ ih =>
    obtain ⟨m, hm⟩ := hsurj _ _ _ h
    subst hx hm
    exact .cons ((hf u m).trans h) (ih rfl hy)

/-- **Pullback.** The walks between two nodes are those between the nodes that they stand for. -/
theorem pullback_iff (hf : ∀ u v, edge u v = edge' (f u) (f v))
    (hsurj : ∀ x y d, edge' x y = some d → ∃ v, f v = y) :
    Walk edge u ds v ↔ Walk edge' (f u) ds (f v) :=
  ⟨fun h => h.map hf, fun h => h.lift hf hsurj rfl rfl⟩

end Walk

end SignalSim
