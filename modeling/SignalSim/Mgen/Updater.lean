import Mathlib.Tactic.Common

/-!
# The updater

`updater.rs`: a one-slot channel whose receiver owns the most recent object. The slot sits
beside a `Notify` that stores at most one permit: `send` fills the slot and stores the
permit, `recv` consumes a permit and then looks at the slot, `maybe_recv` takes the object
without touching the permit.

For a single receiver the permit never matters: `recv` returns exactly when the slot is
full. This is what the models of the tasks rely on.

## Main results

* `Updater.recv_fst` — `recv` returns if and only if the slot holds an object
-/

namespace SignalSim.Mgen

/-- The slot and the permit. A full slot always comes with a permit. -/
structure Updater (T : Type) where
  object : Option T
  permit : Bool
  permit_of_object : object.isSome → permit = true

namespace Updater

variable {T : Type}

/-- `Updater::new`. -/
def new : Updater T := ⟨none, false, by simp⟩

/-- Send an object, replacing any currently queued one. -/
def send (_ : Updater T) (value : T) : Updater T := ⟨some value, true, fun _ => rfl⟩

/-- One poll of the loop of `recv`: without a permit it keeps waiting; with one it consumes
the permit and takes the object, or keeps waiting when the slot is empty. -/
def recv (u : Updater T) : Option T × Updater T :=
  if u.permit then (u.object, ⟨none, false, by simp⟩) else (none, u)

/-- Take the object, if one is already available. -/
def maybeRecv (u : Updater T) : Option T × Updater T :=
  (u.object, ⟨none, u.permit, by simp⟩)

@[simp] theorem send_object (u : Updater T) (v : T) : (u.send v).object = some v := rfl

@[simp] theorem recv_fst (u : Updater T) : u.recv.1 = u.object := by
  unfold recv
  split
  case isTrue => rfl
  case isFalse h =>
    -- without a permit the slot is empty
    cases ho : u.object with
    | none => rfl
    | some v => exact absurd (u.permit_of_object (by simp [ho])) h

/-- What a successful `recv` takes. -/
theorem recv_eq_some {u r : Updater T} {v : T} (h : u.recv = (some v, r)) :
    u.object = some v ∧ u.recv.2 = r := by
  constructor
  · rw [← recv_fst, h]
  · rw [h]

@[simp] theorem recv_snd_object (u : Updater T) : u.recv.2.object = none := by
  unfold recv
  split
  case isTrue => rfl
  case isFalse h =>
    have hfst := u.recv_fst
    rw [recv, if_neg h] at hfst
    exact hfst.symm

@[simp] theorem maybeRecv_snd_object (u : Updater T) : u.maybeRecv.2.object = none := rfl

end Updater

end SignalSim.Mgen
