import Mathlib.Data.List.Nodup
import Mathlib.Tactic.Common

/-!
# Notifications

An asynchronous notification primitive that wakes one waiter at a time or stores a single
permit. Waiters queue up in the order of their first poll; a waiter that has been notified
stays in `woken` until its next poll. A notified waiter that gives up passes its notification
on.

## Main results

* `Notify.signalled_notifyOne` — after a notification a permit is stored or a waiter is woken
* `Notify.signalled_cancel`, `Notify.signalled_poll` — giving up does not lose it, and neither
  does a poll that goes on waiting
-/

namespace SignalSim

/-- A permit, the waiters in the queue (the oldest first), and the notified ones. While a
permit is stored nobody is in the queue. -/
structure Notify (C : Type*) where
  permit : Bool
  waiters : List C
  woken : List C
  waiters_eq_nil : permit = true → waiters = []
  nodup : (waiters ++ woken).Nodup

namespace Notify

variable {C : Type*} {n : Notify C} {c d : C}

/-- No permit, and nobody waits. -/
def new : Notify C := ⟨false, [], [], fun _ => rfl, List.nodup_nil⟩

/-- `c` waits, notified or not. -/
def Waits (n : Notify C) (c : C) : Prop := c ∈ n.waiters ∨ c ∈ n.woken

/-- A permit is stored or a waiter has been notified. -/
def Signalled (n : Notify C) : Prop := n.permit = true ∨ n.woken ≠ []

/-- Notify the oldest waiter, or store the permit. -/
def notifyOne (n : Notify C) : Notify C :=
  match h : n.waiters with
  | [] => ⟨true, [], n.woken, fun _ => rfl, by simpa [h] using n.nodup⟩
  | c :: cs => ⟨n.permit, cs, c :: n.woken,
      fun hp => by simp [n.waiters_eq_nil hp] at h,
      List.nodup_middle.mpr (by simpa [h] using n.nodup)⟩

/-- Consume the permit. -/
def takePermit (n : Notify C) : Notify C := ⟨false, n.waiters, n.woken, by simp, n.nodup⟩

/-- Join the queue. -/
def enqueue (n : Notify C) (c : C) (hp : ¬ n.permit = true) (h : ¬ n.Waits c) : Notify C :=
  ⟨n.permit, n.waiters ++ [c], n.woken, fun hpermit => absurd hpermit hp, by
    rw [List.append_assoc, List.singleton_append, List.nodup_middle, List.nodup_cons]
    exact ⟨fun hmem => h (List.mem_append.mp hmem), n.nodup⟩⟩

section

variable [DecidableEq C]

/-- `c` leaves, notified or not. -/
def leave (n : Notify C) (c : C) : Notify C :=
  ⟨n.permit, n.waiters.erase c, n.woken.erase c,
    fun hp => by rw [n.waiters_eq_nil hp]; rfl,
    n.nodup.sublist ((List.erase_sublist ..).append (List.erase_sublist ..))⟩

/-- The wait of `c` is dropped: a notification that it had goes to the next one. -/
def cancel (n : Notify C) (c : C) : Notify C :=
  if c ∈ n.woken then (n.leave c).notifyOne else n.leave c

instance (n : Notify C) (c : C) : Decidable (n.Waits c) := inferInstanceAs (Decidable (_ ∨ _))

/-- One poll of the wait of `c`, and whether the wait is over: a notified waiter returns, the
first poll consumes the permit or joins the queue. -/
def poll (n : Notify C) (c : C) : Bool × Notify C :=
  if c ∈ n.woken then (true, n.leave c)
  else if h : n.Waits c then (false, n)
  else if hp : n.permit = true then (true, n.takePermit)
  else (false, n.enqueue c hp h)

end

/-! ### Who waits -/

@[simp] theorem waits_notifyOne : n.notifyOne.Waits d ↔ n.Waits d := by
  unfold notifyOne Waits
  split
  case h_1 h => simp [h]
  case h_2 c cs h =>
    simp only [h, List.mem_cons]
    tauto

theorem waits_enqueue {hp : ¬ n.permit = true} {h : ¬ n.Waits c} :
    (n.enqueue c hp h).Waits d ↔ d = c ∨ n.Waits d := by
  simp only [enqueue, Waits, List.mem_append, List.mem_singleton]
  tauto

variable [DecidableEq C]

@[simp] theorem waits_leave : (n.leave c).Waits d ↔ d ≠ c ∧ n.Waits d := by
  have hnodup := List.nodup_append.mp n.nodup
  simp only [leave, Waits, hnodup.1.mem_erase_iff, hnodup.2.1.mem_erase_iff]
  tauto

@[simp] theorem waits_cancel : (n.cancel c).Waits d ↔ d ≠ c ∧ n.Waits d := by
  unfold cancel
  split
  · rw [waits_notifyOne, waits_leave]
  · rw [waits_leave]

/-- A poll changes at most whether the polled wait goes on. -/
theorem waits_poll : (n.poll c).2.Waits d ↔ if d = c then (n.poll c).1 = false else n.Waits d := by
  unfold poll
  by_cases hw : c ∈ n.woken
  · rw [if_pos hw, waits_leave]
    by_cases hd : d = c <;> simp [hd]
  rw [if_neg hw]
  by_cases h : n.Waits c
  · rw [dif_pos h]
    by_cases hd : d = c <;> simp [hd, h]
  rw [dif_neg h]
  by_cases hp : n.permit = true
  · rw [dif_pos hp]
    change n.Waits d ↔ _
    by_cases hd : d = c <;> simp [hd, h]
  · rw [dif_neg hp, waits_enqueue]
    by_cases hd : d = c <;> simp [hd]

/-! ### Notifications are not lost -/

omit [DecidableEq C] in
theorem signalled_notifyOne : n.notifyOne.Signalled := by
  unfold notifyOne Signalled
  split
  · exact .inl rfl
  · exact .inr (List.cons_ne_nil _ _)

/-- A waiter that was not notified takes no notification away. -/
theorem signalled_leave (hc : c ∉ n.woken) : (n.leave c).Signalled ↔ n.Signalled := by
  simp only [leave, Signalled, List.erase_of_not_mem hc]

theorem signalled_cancel (h : n.Signalled) : (n.cancel c).Signalled := by
  unfold cancel
  by_cases hc : c ∈ n.woken
  · rw [if_pos hc]
    exact signalled_notifyOne
  · rw [if_neg hc]
    exact (signalled_leave hc).mpr h

/-- A poll that goes on waiting takes no notification. -/
theorem signalled_poll (hpoll : (n.poll c).1 = false) (h : n.Signalled) :
    (n.poll c).2.Signalled := by
  unfold poll at hpoll ⊢
  by_cases hw : c ∈ n.woken
  · simp [hw] at hpoll
  by_cases hwaits : n.Waits c
  · simpa [hw, hwaits] using h
  by_cases hp : n.permit = true
  · simp [hw, hwaits, hp] at hpoll
  · simp only [hw, hwaits, hp, if_false, dif_neg, not_false_eq_true]
    exact h

/-- A poll returns if the waiter was notified, or finds a permit. -/
theorem poll_fst_of_woken (h : c ∈ n.woken) : (n.poll c).1 = true := by
  simp [poll, h]

theorem poll_fst_of_permit (h : n.permit = true) (hc : c ∉ n.woken) : (n.poll c).1 = true := by
  have hwaits : ¬ n.Waits c := by
    rintro (hq | hw)
    · simp [n.waiters_eq_nil h] at hq
    · exact hc hw
  simp [poll, hc, hwaits, h]

end Notify

end SignalSim
