import Mathlib.Data.List.Count
import Mathlib.Logic.Function.Basic
import SignalSim.Foundations.Notify
import SignalSim.Foundations.Transition
import SignalSim.Mgen.Updater

/-!
# The updater and its clones

`updater.rs` with any number of clones of an updater, each of which may send, call `recv`,
drop that call at its await (as `select!` does), or call `maybe_recv`. The slot is only used
under its mutex, and `send` notifies before it releases the mutex, so an access to the slot is
one step. Between the return of `notified()` and the look at the slot a `recv` can be
overtaken.

Slot and permit drift apart: `maybe_recv` empties the slot and leaves the permit, two sends
share one permit, and a `recv` may be woken for one object and take a later one. What holds
is that a full slot always comes with a permit, a notified `recv` or one that is about to look.

## Main definitions

* `SharedUpdater` — the slot, the `Notify` and where the calls of `recv` are
* `SharedUpdater.step` — the steps of the clones

## Main results

* `SharedUpdater.step_refines` — the slot is that of the updater of a single receiver
* `SharedUpdater.exists_recv_run` — while the slot is full a call of `recv` can return
* `SharedUpdater.hands_over` — objects are handed over at most once, the latest only, and
  without a lost wake-up
-/

namespace SignalSim.Mgen

open Function (update)

/-- Where a clone is with its call of `recv`. -/
inductive RecvPhase
  /-- No call is under way. -/
  | idle
  /-- At the await of `notified()`. -/
  | notified
  /-- `notified()` has returned, the mutex is not locked yet. -/
  | looking
  deriving DecidableEq

/-- What has happened to the slot. -/
inductive SlotEvent (T : Type)
  | sent (value : T)
  | returned (value : T)
  deriving DecidableEq

/-- The state that the clones of an updater share, the calls they are in, and the history of
the slot, the latest event first. -/
structure SharedUpdater (T C : Type) where
  object : Option T
  notify : Notify C
  phase : C → RecvPhase
  history : List (SlotEvent T)

/-- The steps of the clones. -/
inductive UpdaterAction (T C : Type)
  | send (value : T)
  /-- A clone calls `recv`. -/
  | recv (c : C)
  /-- `notified()` is polled. -/
  | poll (c : C)
  /-- `notified()` returns although nobody was notified. -/
  | spurious (c : C)
  /-- `recv` locks the mutex and looks at the slot. -/
  | look (c : C)
  /-- A call of `recv` is dropped at its await. -/
  | cancel (c : C)
  | maybeRecv (c : C)
  deriving DecidableEq

namespace SharedUpdater

variable {T C : Type}

/-- `Updater::new`. -/
def new : SharedUpdater T C := ⟨none, .new, fun _ => .idle, []⟩

/-- Send an object, replacing any currently queued one. -/
def send (s : SharedUpdater T C) (value : T) : SharedUpdater T C :=
  { s with
    object := some value
    notify := s.notify.notifyOne
    history := .sent value :: s.history }

/-- Empty the slot, and return what was in it. -/
def take (s : SharedUpdater T C) : SharedUpdater T C :=
  { s with
    object := none
    history := (s.object.map SlotEvent.returned).toList ++ s.history }

/-! ### The history of the slot -/

/-- The slot holds the object sent last, unless that was returned; and only such an object is
ever returned. -/
inductive Handed : Option T → List (SlotEvent T) → Prop
  | new : Handed none []
  | sent {o h v} : Handed o h → Handed (some v) (.sent v :: h)
  | returned {h v} : Handed (some v) h → Handed none (.returned v :: h)

namespace Handed

variable {o : Option T} {h pre post : List (SlotEvent T)} {v : T}

/-- What the slot holds was just sent. -/
theorem eq_sent_cons (hh : Handed (some v) h) : ∃ pre, h = .sent v :: pre := by
  cases hh with
  | sent hpre => exact ⟨_, rfl⟩

/-- A return comes right after the send of the object returned. -/
theorem sent_before (hh : Handed o h) (heq : h = post ++ .returned v :: pre) :
    ∃ pre', pre = .sent v :: pre' := by
  induction hh generalizing post with
  | new => simp at heq
  | sent _ ih =>
    cases post with
    | nil => cases heq
    | cons e post =>
      obtain ⟨-, heq⟩ := List.cons.inj heq
      exact ih heq
  | returned hprev ih =>
    cases post with
    | nil =>
      cases heq
      exact hprev.eq_sent_cons
    | cons e post =>
      obtain ⟨-, heq⟩ := List.cons.inj heq
      exact ih heq

/-- No object is returned more often than it was sent, not counting the one in the slot. -/
theorem count_returned_le [DecidableEq T] (hh : Handed o h) (v : T) :
    h.count (.returned v) + (if o = some v then 1 else 0) ≤ h.count (.sent v) := by
  induction hh with
  | new => simp
  | @sent o h w _ ih =>
    rw [List.count_cons, List.count_cons]
    by_cases hw : w = v
    · subst hw
      simp only [beq_self_eq_true, if_true, beq_iff_eq, reduceCtorEq, if_false]
      omega
    · simp only [beq_iff_eq, reduceCtorEq, if_false, Option.some_inj, SlotEvent.sent.injEq, hw]
      omega
  | @returned h w _ ih =>
    rw [List.count_cons, List.count_cons]
    by_cases hw : w = v
    · subst hw
      simp only [if_true] at ih
      simp only [beq_self_eq_true, if_true, beq_iff_eq, reduceCtorEq, if_false]
      omega
    · simp only [Option.some_inj, hw, if_false] at ih
      simp only [beq_iff_eq, reduceCtorEq, if_false, SlotEvent.returned.injEq, hw]
      omega

end Handed

/-! ### The invariant -/

/-- A full slot has a permit, a notified call or one that is about to look. -/
structure Inv (s : SharedUpdater T C) : Prop where
  waits : ∀ c, s.notify.Waits c → s.phase c = .notified
  signal : s.object.isSome → s.notify.Signalled ∨ ∃ c, s.phase c = .looking
  handed : Handed s.object s.history

variable {s t : SharedUpdater T C} {a : UpdaterAction T C} {c : C} {v : T}

theorem inv_new : (new : SharedUpdater T C).Inv :=
  ⟨fun c h => by simp [new, Notify.new, Notify.Waits] at h, fun h => by simp [new] at h, .new⟩

theorem handed_take (h : Handed s.object s.history) : Handed s.take.object s.take.history := by
  cases ho : s.object with
  | none =>
    rw [ho] at h
    simpa [take, ho] using h
  | some v =>
    rw [ho] at h
    simpa [take, ho] using h.returned

/-- Emptying the slot keeps the invariant, whatever the calls do. -/
theorem Inv.take (hs : s.Inv) (hwaits : ∀ d, s.notify.Waits d → t.phase d = .notified)
    (hobject : t.object = s.take.object) (hhistory : t.history = s.take.history)
    (hnotify : t.notify = s.notify) : t.Inv where
  waits := by rwa [hnotify]
  signal := by
    rw [hobject]
    exact fun h => by simp [SharedUpdater.take] at h
  handed := by
    rw [hobject, hhistory]
    exact handed_take hs.handed

/-- Some call of `recv` has been notified, or is about to look at the slot. -/
def RecvWoken (s : SharedUpdater T C) (c : C) : Prop :=
  (c ∈ s.notify.woken ∧ s.phase c = .notified) ∨ s.phase c = .looking

theorem Inv.exists_woken (hs : s.Inv) (hobject : s.object.isSome) :
    s.notify.permit = true ∨ ∃ c, s.RecvWoken c := by
  -- a permit, a woken call, or a call between its wake-up and its look
  rcases hs.signal hobject with (hp | hw) | ⟨c, hc⟩
  · exact .inl hp
  · obtain ⟨c, hc⟩ := List.exists_mem_of_ne_nil _ hw
    exact .inr ⟨c, .inl ⟨hc, hs.waits c (.inr hc)⟩⟩
  · exact .inr ⟨c, .inr hc⟩

/-! ### The steps -/

variable [DecidableEq C]

def setPhase (s : SharedUpdater T C) (c : C) (p : RecvPhase) : SharedUpdater T C :=
  { s with phase := update s.phase c p }

/-- A poll of `notified()`. -/
def pollNotified (s : SharedUpdater T C) (c : C) : SharedUpdater T C :=
  { s.setPhase c (if (s.notify.poll c).1 then .looking else .notified) with
    notify := (s.notify.poll c).2 }

/-- One step of a clone. -/
def step (s : SharedUpdater T C) : UpdaterAction T C → Option (SharedUpdater T C)
  | .send value => some (s.send value)
  | .recv c => if s.phase c = .idle then some (s.setPhase c .notified) else none
  | .poll c => if s.phase c = .notified then some (s.pollNotified c) else none
  | .spurious c =>
    if s.phase c = .notified ∧ c ∉ s.notify.woken then
      some { s.setPhase c .looking with notify := s.notify.leave c }
    else none
  | .look c =>
    if s.phase c = .looking then
      -- an empty slot sends the call back to its await
      some (s.take.setPhase c (if s.object.isSome then .idle else .notified))
    else none
  | .cancel c =>
    if s.phase c = .notified then
      some { s.setPhase c .idle with notify := s.notify.cancel c }
    else none
  | .maybeRecv c => if s.phase c = .idle then some s.take else none

/-- The clones of an updater as a transition system. -/
def system (T C : Type) [DecidableEq C] : System (SharedUpdater T C) (UpdaterAction T C) := ⟨step⟩

/-- A call that goes on to look at the slot makes up for any notification it has used. -/
theorem inv_looking (hs : s.Inv) (n : Notify C)
    (hwaits : ∀ d, n.Waits d → d ≠ c ∧ s.notify.Waits d) :
    Inv { s.setPhase c .looking with notify := n } where
  waits d hd := by
    obtain ⟨hne, hd⟩ := hwaits d hd
    exact (Function.update_of_ne hne _ _).trans (hs.waits d hd)
  signal _ := .inr ⟨c, Function.update_self ..⟩
  handed := hs.handed

/-- A call that neither was about to look nor is now leaves the notification that there is. -/
theorem inv_notify (hs : s.Inv) (hc : s.phase c ≠ .looking) {p : RecvPhase} (n : Notify C)
    (hwaits : ∀ d, n.Waits d → (d = c ∧ p = .notified) ∨ (d ≠ c ∧ s.notify.Waits d))
    (hsignal : s.notify.Signalled → n.Signalled) :
    Inv { s.setPhase c p with notify := n } where
  waits d hd := by
    rcases hwaits d hd with ⟨rfl, rfl⟩ | ⟨hne, hd⟩
    · exact Function.update_self ..
    · exact (Function.update_of_ne hne _ _).trans (hs.waits d hd)
  signal h := by
    rcases hs.signal h with hn | ⟨d, hd⟩
    · exact .inl (hsignal hn)
    · refine .inr ⟨d, ?_⟩
      have hne : d ≠ c := by
        rintro rfl
        exact hc hd
      exact (Function.update_of_ne hne _ _).trans hd
  handed := hs.handed

theorem Inv.pollNotified (hs : s.Inv) (hc : s.phase c = .notified) : (s.pollNotified c).Inv := by
  unfold SharedUpdater.pollNotified
  cases hpoll : (s.notify.poll c).1 with
  | true =>
    apply inv_looking hs
    intro d hd
    rw [Notify.waits_poll, hpoll] at hd
    by_cases hdc : d = c
    · simp [hdc] at hd
    · exact ⟨hdc, by simpa [hdc] using hd⟩
  | false =>
    -- the poll has left the call in the queue and the permit where it was
    refine inv_notify hs (by simp [hc]) _ ?_ (Notify.signalled_poll hpoll)
    intro d hd
    rw [Notify.waits_poll] at hd
    by_cases hdc : d = c
    · exact .inl ⟨hdc, rfl⟩
    · exact .inr ⟨hdc, by simpa [hdc] using hd⟩

theorem inv_step (hs : s.Inv) (h : s.step a = some t) : t.Inv := by
  cases a with
  | send v =>
    cases h
    -- the notification of the send is for the new object
    refine ⟨?_, fun _ => .inl Notify.signalled_notifyOne, hs.handed.sent⟩
    intro c hc
    exact hs.waits c (Notify.waits_notifyOne.mp hc)
  | recv c =>
    obtain ⟨hc, h⟩ := Option.ite_none_right_eq_some.mp h
    cases h
    refine inv_notify hs (by simp [hc]) s.notify ?_ id
    intro d hd
    by_cases hdc : d = c
    · exact .inl ⟨hdc, rfl⟩
    · exact .inr ⟨hdc, hd⟩
  | poll c =>
    obtain ⟨hc, h⟩ := Option.ite_none_right_eq_some.mp h
    cases h
    exact hs.pollNotified hc
  | spurious c =>
    obtain ⟨-, h⟩ := Option.ite_none_right_eq_some.mp h
    cases h
    apply inv_looking hs
    intro d hd
    exact Notify.waits_leave.mp hd
  | look c =>
    obtain ⟨hc, h⟩ := Option.ite_none_right_eq_some.mp h
    cases h
    refine hs.take ?_ rfl rfl rfl
    intro d hd
    have hd := hs.waits d hd
    -- the call that looks is no longer in the queue
    have hdc : d ≠ c := by
      rintro rfl
      rw [hc] at hd
      cases hd
    exact (Function.update_of_ne hdc _ _).trans hd
  | cancel c =>
    obtain ⟨hc, h⟩ := Option.ite_none_right_eq_some.mp h
    cases h
    refine inv_notify hs (by simp [hc]) _ ?_ Notify.signalled_cancel
    intro d hd
    exact .inr (Notify.waits_cancel.mp hd)
  | maybeRecv c =>
    obtain ⟨-, h⟩ := Option.ite_none_right_eq_some.mp h
    cases h
    exact hs.take hs.waits rfl rfl rfl

/-! ### Handing over -/

/-- A call that is about to look returns the object. -/
theorem look_returns (hc : s.phase c = .looking) (ho : s.object = some v) :
    ∃ t, s.step (.look c) = some t ∧ t.history = .returned v :: s.history :=
  ⟨_, if_pos hc, by simp [setPhase, take, ho]⟩

/-- A call whose poll ends the wait goes on to return the object. -/
theorem poll_returns (hc : s.phase c = .notified) (hpoll : (s.notify.poll c).1 = true)
    (ho : s.object = some v) :
    ∃ t, (system T C).run s [.poll c, .look c] = some t ∧
      t.history = .returned v :: s.history := by
  have hphase : (s.pollNotified c).phase c = .looking := by
    simp [pollNotified, setPhase, hpoll]
  obtain ⟨t, ht, hhistory⟩ := look_returns hphase (v := v) ho
  have hpolled : s.step (.poll c) = some (s.pollNotified c) := if_pos hc
  refine ⟨t, ?_, hhistory⟩
  simp only [System.run, system, hpolled, ht, Option.bind_some]

/-- While the slot is full and some call of `recv` is under way, a call returns the object
after its own next steps. -/
theorem exists_recv_run (hs : s.Inv) (ho : s.object = some v) (hc : s.phase c ≠ .idle) :
    ∃ d t, ((system T C).run s [.look d] = some t ∨
        (system T C).run s [.poll d, .look d] = some t) ∧
      t.history = .returned v :: s.history := by
  -- a call that is about to look needs one step, a woken one two
  have looks : ∀ d, s.phase d = .looking → ∃ d t, ((system T C).run s [.look d] = some t ∨
      (system T C).run s [.poll d, .look d] = some t) ∧ t.history = .returned v :: s.history := by
    intro d hd
    obtain ⟨t, ht, hhistory⟩ := look_returns hd ho
    exact ⟨d, t, .inl (by simp only [System.run, system, ht, Option.bind_some]), hhistory⟩
  have polls : ∀ d, s.phase d = .notified → (s.notify.poll d).1 = true →
      ∃ d t, ((system T C).run s [.look d] = some t ∨
        (system T C).run s [.poll d, .look d] = some t) ∧
        t.history = .returned v :: s.history := by
    intro d hd hpoll
    obtain ⟨t, ht, hhistory⟩ := poll_returns hd hpoll ho
    exact ⟨d, t, .inr ht, hhistory⟩
  rcases hs.exists_woken (by simp [ho]) with hp | ⟨d, ⟨hw, hd⟩ | hd⟩
  · -- the call at hand finds the permit, unless it has better
    cases hphase : s.phase c with
    | idle => exact absurd hphase hc
    | looking => exact looks c hphase
    | notified =>
      by_cases hw : c ∈ s.notify.woken
      · exact polls c hphase (Notify.poll_fst_of_woken hw)
      · exact polls c hphase (Notify.poll_fst_of_permit hp hw)
  · exact polls d hd (Notify.poll_fst_of_woken hw)
  · exact looks d hd

/-- What a step of a clone is to the updater of a single receiver, and what it returns. -/
def single (u : Updater T) : UpdaterAction T C → Option T × Updater T
  | .send v => (none, u.send v)
  | .look _ => u.recv
  | .maybeRecv _ => u.maybeRecv
  | .recv _ | .poll _ | .spurious _ | .cancel _ => (none, u)

omit [DecidableEq C] in
theorem take_refines (o : Option T) (ho : s.object = o) :
    ∀ v, o = some v ↔ s.take.history = .returned v :: s.history := by
  subst ho
  intro v
  cases ho : s.object with
  | none => simp [take, ho]
  | some w => simp [take, ho]

/-- **Refinement.** The slot behaves like that of an updater with a single receiver, whose
`recv` is a look at the slot. -/
theorem step_refines {u : Updater T} (hu : s.object = u.object) (h : s.step a = some t) :
    t.object = (single u a).2.object ∧
      ∀ v, (single u a).1 = some v ↔ t.history = .returned v :: s.history := by
  -- the steps of a wait leave the slot alone
  have unchanged : ∀ v : T, (none : Option T) = some v ↔ s.history = .returned v :: s.history := by
    intro v
    exact iff_of_false (by simp) (fun heq => by simpa using congrArg List.length heq)
  cases a with
  | send v =>
    cases h
    exact ⟨rfl, fun w => iff_of_false (by simp [single]) (by simp [send])⟩
  | look c =>
    obtain ⟨-, h⟩ := Option.ite_none_right_eq_some.mp h
    cases h
    refine ⟨(Updater.recv_snd_object u).symm, fun v => ?_⟩
    rw [single, Updater.recv_fst]
    exact take_refines _ hu v
  | maybeRecv c =>
    obtain ⟨-, h⟩ := Option.ite_none_right_eq_some.mp h
    cases h
    exact ⟨rfl, take_refines _ hu⟩
  | recv c | poll c | spurious c | cancel c =>
    obtain ⟨-, h⟩ := Option.ite_none_right_eq_some.mp h
    cases h
    exact ⟨hu, unchanged⟩

/-- **Handing over.** After every run of any number of clones, with dropped calls and spurious
wake-ups: every object returned was the last one sent, and had not been returned before; none
is returned more often than it was sent; and while the slot is full, a permit is stored or a
call of `recv` has been notified and will look, so that no call waits in the queue unless
another one is woken, and some call under way can go on to return the object. -/
theorem hands_over [DecidableEq T] (as : List (UpdaterAction T C)) (s : SharedUpdater T C)
    (hrun : (system T C).run new as = some s) :
    (∀ post v pre, s.history = post ++ .returned v :: pre → ∃ pre', pre = .sent v :: pre') ∧
    (∀ v, s.history.count (.returned v) ≤ s.history.count (.sent v)) ∧
    (s.object.isSome → s.notify.permit = true ∨ ∃ c, s.RecvWoken c) ∧
    (s.object.isSome → s.notify.waiters ≠ [] → ∃ c, s.RecvWoken c) ∧
    ∀ v c, s.object = some v → s.phase c ≠ .idle →
      ∃ d t, ((system T C).run s [.look d] = some t ∨
          (system T C).run s [.poll d, .look d] = some t) ∧
        t.history = .returned v :: s.history := by
  have hs : s.Inv := System.invariant (fun _ _ _ => inv_step) inv_new hrun
  refine ⟨?_, ?_, hs.exists_woken, ?_, fun v c ho hc => exists_recv_run hs ho hc⟩
  · intro post v pre heq
    exact hs.handed.sent_before heq
  · intro v
    have := hs.handed.count_returned_le v
    omega
  · intro ho hw
    rcases hs.exists_woken ho with hp | hwoken
    · exact absurd (s.notify.waiters_eq_nil hp) hw
    · exact hwoken

/-- Two objects are sent while two clones wait; the second clone is notified for the second
object, gives up, and the first one gets that object. -/
theorem hands_over_two :
    ∃ s : SharedUpdater ℕ ℕ, (system ℕ ℕ).run new
        [.recv 0, .recv 1, .poll 0, .poll 1, .send 7, .send 8, .cancel 1, .poll 0, .look 0] =
        some s ∧ s.object = none ∧ s.notify.permit = true ∧
      s.history = [.returned 8, .sent 8, .sent 7] ∧
      ∀ v, s.history.count (.returned v) ≤ s.history.count (.sent v) := by
  refine ⟨_, rfl, by decide, by decide, by decide, ?_⟩
  exact (hands_over [.recv 0, .recv 1, .poll 0, .poll 1, .send 7, .send 8, .cancel 1, .poll 0,
    .look 0] _ rfl).2.1

end SharedUpdater

end SignalSim.Mgen
