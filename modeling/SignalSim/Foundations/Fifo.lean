import Mathlib.Data.List.Basic

/-!
# First-in-first-out channels

An unbounded channel is kept as everything ever put on it together with how much of that
has been taken. The messages taken are then a prefix of the messages put by construction,
and accounting for a channel needs no invariant.

## Main results

* `Fifo.received_append_pending` — what was put is what was taken and what is waiting
* `Fifo.pop?_eq_some` — what taking a message does
-/

namespace SignalSim

/-- An unbounded channel: all values put on it, in order, and how many have been taken. -/
structure Fifo (α : Type*) where
  log : List α
  taken : ℕ
  taken_le : taken ≤ log.length

namespace Fifo

variable {α : Type*} {q r : Fifo α} {a b : α}

/-- The channel nothing was put on. -/
def empty : Fifo α := ⟨[], 0, Nat.le_refl 0⟩

/-- Put a value on the channel. -/
def push (q : Fifo α) (a : α) : Fifo α :=
  ⟨q.log ++ [a], q.taken, by simpa using Nat.le_succ_of_le q.taken_le⟩

/-- The values taken so far. -/
def received (q : Fifo α) : List α := q.log.take q.taken

/-- The values waiting to be taken. -/
def pending (q : Fifo α) : List α := q.log.drop q.taken

/-- Take the next value, if there is one. -/
def pop? (q : Fifo α) : Option (α × Fifo α) :=
  if h : q.taken < q.log.length then some (q.log[q.taken], ⟨q.log, q.taken + 1, h⟩) else none

@[simp] theorem log_empty : (empty : Fifo α).log = [] := rfl

@[simp] theorem received_empty : (empty : Fifo α).received = [] := rfl

@[simp] theorem log_push : (q.push a).log = q.log ++ [a] := rfl

@[simp] theorem received_push : (q.push a).received = q.received :=
  List.take_append_of_le_length q.taken_le

theorem received_append_pending (q : Fifo α) : q.received ++ q.pending = q.log :=
  List.take_append_drop q.taken q.log

theorem pending_push (q : Fifo α) (a : α) : (q.push a).pending = q.pending ++ [a] :=
  List.drop_append_of_le_length q.taken_le

theorem isPrefix_received (q : Fifo α) : q.received <+: q.log :=
  List.take_prefix q.taken q.log

/-- Taking a value moves it from the waiting to the taken ones. -/
theorem pop?_eq_some (h : q.pop? = some (a, r)) :
    r.log = q.log ∧ r.received = q.received ++ [a] ∧ q.pending = a :: r.pending := by
  unfold pop? at h
  split at h
  case isFalse => exact absurd h (by simp)
  case isTrue hlt =>
    obtain ⟨rfl, rfl⟩ := Prod.mk.inj (Option.some_inj.mp h)
    exact ⟨rfl, List.take_succ_eq_append_getElem hlt, List.drop_eq_getElem_cons hlt⟩

theorem mem_log_of_pop? (h : q.pop? = some (a, r)) : a ∈ q.log := by
  obtain ⟨hlog, hrec, _⟩ := pop?_eq_some h
  rw [← hlog]
  exact (isPrefix_received r).subset (hrec ▸ List.mem_append_right _ (List.mem_singleton_self a))

theorem pop?_eq_none : q.pop? = none ↔ q.pending = [] := by
  unfold pop? pending
  split
  case isTrue h => simpa using h
  case isFalse h => simpa using h

end Fifo

end SignalSim
