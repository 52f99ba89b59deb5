import SignalSim.Foundations.Transition
import SignalSim.Mgen.Messenger.Run

/-!
# The end of an active period

The conversation machine with time: a timer does not expire before the instant it was set to,
and the readings of the clock in a round come after the round has begun. Recorded with the
state are the times at which messages were sent or received, what `W` yielded for the active
period at hand, and the ends of active periods.

The distribution `W` is documented as the time without a message after which an active period
ends. The machine sets the timeout when it enters the period and keeps it from then on, so
what it bounds is the length of the period.

## Main definitions

* `TimedThread.system` — the machine with time
* `ActiveEnd.Inactive` — the documented meaning of `W` at the end of an active period
* `TimedThread.Quiet` — a round that sends and receives nothing once a period has begun

## Main results

* `TimedThread.inactive_iff_along_quiet` — in which runs periods end for lack of messages
-/

namespace SignalSim.Mgen

open SignalSim.Result

namespace StateThread

variable {R M S : Type} [StreamMap M] [MessageHolder S]

/-- The round sends or receives a message that is not a receipt. -/
def isMessage (thread : StateThread R) (t : Moment) : Bool :=
  match t.wakeup with
  | .inbound msg => msg.body ≠ .receipt
  | .timer =>
    match thread.machine with
    | .idle _ => true
    | .active c => c.delay < c.state.wait

/-- The instant until which the machine sleeps. -/
def deadline (thread : StateThread R) : Instant :=
  match thread.machine with
  | .idle c => c.delay
  | .active c => if c.delay < c.state.wait then c.delay else c.state.wait

/-- What `W` yields in a round that enters an active period, and the reading of the clock that
it is added to. -/
def sampledWait (dists : Distributions R) (thread : StateThread R) (t : Moment) :
    Instant × Duration :=
  match t.wakeup with
  | .timer => (t.now₂, (dists.w (dists.aS (dists.s (dists.m thread.rng).2).2).2).1)
  | .inbound _ => (t.now₁, (dists.w (dists.r thread.rng).2).1)

/-! ### How a round enters and leaves an active period -/

section

variable {conf : ThreadConfig R M} {thread thread' : StateThread R} {t : Moment}
  {out : RoundOutput S}

theorem sendAction_machine {T : Type} [SampledState T] {c : Conversation T} {rng : R}
    (h : sendAction conf t c rng = .ok (out, thread')) :
    thread'.machine = (SampledState.sent conf.dists c t (conf.dists.m rng).2).1 := by
  obtain ⟨x, -, h⟩ := bind_eq_ok h
  obtain ⟨puts, -, h⟩ := bind_eq_ok h
  cases h
  rfl

theorem receiveAction_machine {T : Type} [SampledState T] {c : Conversation T} {rng : R}
    {msg : MessageHeader} {group : Option String}
    (h : receiveAction conf t msg c group rng = .ok (out, thread')) :
    thread'.machine = if msg.body = .receipt then SampledState.toMachine c
      else (SampledState.received conf.dists c t rng).1 := by
  unfold receiveAction at h
  split at h
  case h_1 size hb =>
    obtain ⟨w, -, h⟩ := bind_eq_ok h
    obtain ⟨x, -, h⟩ := bind_eq_ok h
    obtain ⟨put, -, h⟩ := bind_eq_ok h
    cases h
    rw [hb, if_neg (by simp)]
    rfl
  case h_2 hb =>
    cases h
    rw [hb, if_pos rfl]

/-- A round that enters an active period sets its timeout to what `W` yields from then on. -/
theorem wait_of_enter {c : Conversation Idle} {c' : Conversation Active}
    (hidle : thread.machine = .idle c) (hactive : thread'.machine = .active c')
    (h : manage conf thread t = .ok (out, thread')) :
    c'.state.wait = (thread.sampledWait conf.dists t).1 + (thread.sampledWait conf.dists t).2 := by
  simp only [manage, hidle, manageIdleConversation] at h
  obtain ⟨⟨out', thread''⟩, haction, heq⟩ := map_eq_ok h
  cases heq
  unfold sampledWait
  cases hwake : t.wakeup with
  | timer =>
    rw [hwake] at haction
    have hmachine := (sendAction_machine haction).symm.trans hactive
    by_cases hs : (conf.dists.s (conf.dists.m thread.rng).2).1 = true
    · simp only [SampledState.sent, hs, if_true] at hmachine
      cases hmachine
      rfl
    · simp only [SampledState.sent, hs, Bool.false_eq_true, if_false] at hmachine
      cases hmachine
  | inbound msg =>
    rw [hwake] at haction
    have hmachine := (receiveAction_machine haction).symm.trans hactive
    by_cases hb : msg.body = .receipt
    · rw [if_pos hb] at hmachine
      cases hmachine
    · rw [if_neg hb] at hmachine
      by_cases hr : (conf.dists.r thread.rng).1 = true
      · simp only [SampledState.received, hr, if_true] at hmachine
        cases hmachine
        rfl
      · simp only [SampledState.received, hr, Bool.false_eq_true, if_false] at hmachine
        cases hmachine

/-- In an active period a round keeps the timeout, or it is the timeout. -/
theorem active_cases {c : Conversation Active} (hactive : thread.machine = .active c)
    (h : manage conf thread t = .ok (out, thread')) :
    (∃ c', thread'.machine = .active c' ∧ c'.state = c.state) ∨
    (∃ c', thread'.machine = .idle c') ∧ t.wakeup = .timer ∧ ¬ c.delay < c.state.wait := by
  simp only [manage, hactive, manageActiveConversation] at h
  cases hwake : t.wakeup with
  | timer =>
    rw [hwake] at h
    by_cases hd : c.delay < c.state.wait
    · simp only [Conversation.sleep, if_pos hd] at h
      exact .inl ⟨_, sendAction_machine h, rfl⟩
    · simp only [Conversation.sleep, if_neg hd] at h
      cases h
      exact .inr ⟨⟨_, rfl⟩, rfl, hd⟩
  | inbound msg =>
    rw [hwake] at h
    have hmachine := receiveAction_machine h
    by_cases hb : msg.body = .receipt
    · rw [if_pos hb] at hmachine
      exact .inl ⟨c, hmachine, rfl⟩
    · rw [if_neg hb] at hmachine
      exact .inl ⟨_, hmachine, rfl⟩

end

end StateThread

/-- The end of an active period: when it was, what `W` had yielded for the period, and when
messages had been sent or received by then. -/
structure ActiveEnd where
  time : Instant
  w : Duration
  messages : List Instant
  deriving DecidableEq

/-- No message was sent or received during the last `w`. -/
def ActiveEnd.Inactive (e : ActiveEnd) : Prop := ∀ τ ∈ e.messages, τ + e.w ≤ e.time

instance (e : ActiveEnd) : Decidable e.Inactive := inferInstanceAs (Decidable (∀ _ ∈ _, _))

/-- The thread of a conversation, and what happened when. -/
structure TimedThread (R : Type) where
  thread : StateThread R
  /-- The clock has come at least as far as this. -/
  clock : Instant
  messages : List Instant
  w : Duration
  ends : List ActiveEnd

namespace TimedThread

variable {R M : Type} [StreamMap M]

/-- `StateMachine::start`. -/
def start (dists : Distributions R) (now : Instant) (rng : R) : TimedThread R :=
  ⟨.start dists now rng, now, [], 0, []⟩

/-- The round can begin when it does. -/
def Possible (s : TimedThread R) (t : Moment) : Prop :=
  s.clock ≤ t.time ∧ t.time ≤ t.now₁ ∧ t.now₁ ≤ t.now₂ ∧
    (t.wakeup = .timer → s.thread.deadline ≤ t.time)

instance (s : TimedThread R) (t : Moment) : Decidable (s.Possible t) :=
  inferInstanceAs (Decidable (_ ∧ _ ∧ _ ∧ (_ → _)))

/-- The record after a round that ends in the given state of the thread. -/
def after (dists : Distributions R) (s : TimedThread R) (t : Moment) (thread : StateThread R) :
    TimedThread R where
  thread := thread
  clock := t.now₂
  -- a message counts at the time of its round
  messages := if s.thread.isMessage t then t.time :: s.messages else s.messages
  -- what `W` yielded on entering the period stays on record until the next one
  w := if s.thread.machine.name = .idle then (s.thread.sampledWait dists t).2 else s.w
  ends :=
    if s.thread.machine.name = .active ∧ thread.machine.name = .idle then
      ⟨t.time, s.w, s.messages⟩ :: s.ends
    else s.ends

section

variable (S : Type) [MessageHolder S]

/-- One round. A panic ends the run. -/
def step (conf : ThreadConfig R M) (s : TimedThread R) (t : Moment) : Option (TimedThread R) :=
  if s.Possible t then
    match StateThread.manage (S := S) conf s.thread t with
    | .ok (_, thread) => some (s.after conf.dists t thread)
    | .error _ => none
  else none

/-- The machine with time. -/
def system (conf : ThreadConfig R M) : System (TimedThread R) Moment := ⟨step S conf⟩

end

/-- In an active period no message is sent or received after the reading of the clock that the
timeout of the period was set from. -/
def Quiet (s : TimedThread R) (t : Moment) : Prop :=
  ∀ c, s.thread.machine = .active c → s.thread.isMessage t = true → t.time + s.w ≤ c.state.wait

instance (s : TimedThread R) (t : Moment) : Decidable (s.Quiet t) :=
  match h : s.thread.machine with
  | .idle _ => .isTrue fun _ h' => by cases h.symm.trans h'
  | .active c => decidable_of_iff
      (s.thread.isMessage t = true → t.time + s.w ≤ c.state.wait)
      ⟨fun hq _ h' => by cases h.symm.trans h'; exact hq, fun hq => hq c h⟩

/-- A timer that ends an active period does so on time. -/
def Punctual (s : TimedThread R) (t : Moment) : Prop :=
  ∀ c, s.thread.machine = .active c → t.wakeup = .timer → s.thread.isMessage t = false →
    t.time = c.state.wait

/-! ### Runs -/

variable {S : Type} [MessageHolder S] {conf : ThreadConfig R M} {s u : TimedThread R}
  {t : Moment} {τ : Instant}

theorem step_eq_some (h : step S conf s t = some u) :
    s.Possible t ∧ ∃ (out : RoundOutput S) (thread : StateThread R),
      StateThread.manage conf s.thread t = .ok (out, thread) ∧
      u = s.after conf.dists t thread := by
  obtain ⟨hpossible, h⟩ := Option.ite_none_right_eq_some.mp h
  cases hround : StateThread.manage (S := S) conf s.thread t with
  | error p =>
    rw [hround] at h
    cases h
  | ok round =>
    rw [hround] at h
    exact ⟨hpossible, round.1, round.2, rfl, (Option.some_inj.mp h).symm⟩

/-- Messages are recorded when the clock has come that far. -/
def Past (s : TimedThread R) : Prop := ∀ τ ∈ s.messages, τ ≤ s.clock

/-- In an active period no message is more recent than the timeout allows, and all periods
that have ended did so for lack of messages. -/
structure Tidy (s : TimedThread R) : Prop where
  active : ∀ c, s.thread.machine = .active c → ∀ τ ∈ s.messages, τ + s.w ≤ c.state.wait
  ends : ∀ e ∈ s.ends, e.Inactive

/-- A message on record after a round is an earlier one, or of this round. -/
theorem mem_messages_after {dists : Distributions R} {thread : StateThread R} :
    τ ∈ (s.after dists t thread).messages ↔
      (s.thread.isMessage t = true ∧ τ = t.time) ∨ τ ∈ s.messages := by
  simp only [after]
  split
  · rename_i h
    simp [h]
  · rename_i h
    simp [h]

theorem past_step (hs : s.Past) (h : step S conf s t = some u) : u.Past := by
  obtain ⟨⟨hclock, hnow₁, hnow₂, -⟩, out, thread, -, rfl⟩ := step_eq_some h
  have hnow : t.time ≤ t.now₂ := Nat.le_trans hnow₁ hnow₂
  intro τ hτ
  rcases mem_messages_after.mp hτ with ⟨-, rfl⟩ | hτ
  · exact hnow
  · exact Nat.le_trans (Nat.le_trans (hs τ hτ) hclock) hnow

theorem tidy_step (hpast : s.Past) (hs : s.Tidy) (hquiet : s.Quiet t)
    (h : step S conf s t = some u) : u.Tidy := by
  obtain ⟨⟨hclock, hnow₁, hnow₂, hdeadline⟩, out, thread, hround, rfl⟩ := step_eq_some h
  cases hmachine : s.thread.machine with
  | idle c =>
    refine ⟨?_, by simpa [after, hmachine, StateMachine.name] using hs.ends⟩
    intro c' hactive τ hτ
    -- the timeout is set after every message up to now
    have hwait := StateThread.wait_of_enter hmachine hactive hround
    have hτ : τ ≤ t.time := by
      rcases mem_messages_after.mp hτ with ⟨-, rfl⟩ | hτ
      · exact Nat.le_refl _
      · exact Nat.le_trans (hpast τ hτ) hclock
    -- the clock is read after the round has begun
    have hreading : t.time ≤ (s.thread.sampledWait conf.dists t).1 := by
      unfold StateThread.sampledWait
      cases t.wakeup with
      | timer => exact Nat.le_trans hnow₁ hnow₂
      | inbound msg => exact hnow₁
    rw [hwait]
    simp only [after, hmachine, StateMachine.name, if_true]
    exact Nat.add_le_add_right (Nat.le_trans hτ hreading) _
  | active c =>
    rcases StateThread.active_cases hmachine hround with ⟨c', hc', hstate⟩ | ⟨⟨c', hc'⟩, hwake, hd⟩
    · constructor
      · intro c'' hactive τ hτ
        cases hactive.symm.trans hc'
        rw [hstate]
        simp only [after, hmachine, StateMachine.name, reduceCtorEq, if_false]
        rcases mem_messages_after.mp hτ with ⟨hmessage, rfl⟩ | hτ
        · exact hquiet c hmachine hmessage
        · exact hs.active c hmachine τ hτ
      · simpa [after, hmachine, hc', StateMachine.name] using hs.ends
    · constructor
      · intro c'' hactive
        cases hactive.symm.trans hc'
      · -- the period that ends now
        have htime : c.state.wait ≤ t.time := by
          have := hdeadline hwake
          simpa only [StateThread.deadline, hmachine, if_neg hd] using this
        have hends : (s.after conf.dists t thread).ends = ⟨t.time, s.w, s.messages⟩ :: s.ends := by
          simp [after, hmachine, hc', StateMachine.name]
        rw [hends]
        intro e he
        rcases List.mem_cons.mp he with rfl | he
        · intro τ hτ
          exact Nat.le_trans (hs.active c hmachine τ hτ) htime
        · exact hs.ends e he

/-- A message that is not quiet is more recent than the timeout allows. -/
theorem not_tidy_of_not_quiet (hquiet : ¬ s.Quiet t) (h : step S conf s t = some u) :
    ¬ u.Tidy := by
  obtain ⟨-, out, thread, hround, rfl⟩ := step_eq_some h
  intro htidy
  apply hquiet
  intro c hmachine hmessage
  rcases StateThread.active_cases hmachine hround with ⟨c', hc', hstate⟩ | ⟨-, hwake, hd⟩
  -- the message is on record after the round, and the timeout is the old one
  · have := htidy.active c' hc' t.time (mem_messages_after.mpr (.inl ⟨hmessage, rfl⟩))
    rw [hstate] at this
    simpa [after, hmachine, StateMachine.name] using this
  · -- the timeout is no message
    simp [StateThread.isMessage, hwake, hmachine, hd] at hmessage

/-- With timers on time, an active period with such a message ends too early. -/
theorem not_tidy_step (hs : ¬ s.Tidy) (hpunctual : s.Punctual t)
    (h : step S conf s t = some u) : ¬ u.Tidy := by
  obtain ⟨-, out, thread, hround, rfl⟩ := step_eq_some h
  intro htidy
  apply hs
  constructor
  · intro c hmachine τ hτ
    rcases StateThread.active_cases hmachine hround with
      ⟨c', hc', hstate⟩ | ⟨⟨c', hc'⟩, hwake, hd⟩
    -- the period goes on with the timeout that it had
    · have := htidy.active c' hc' τ (mem_messages_after.mpr (.inr hτ))
      rw [hstate] at this
      simpa [after, hmachine, StateMachine.name] using this
    -- the period ends now, at its timeout
    · have hends : (⟨t.time, s.w, s.messages⟩ : ActiveEnd) ∈
          (s.after conf.dists t thread).ends := by
        simp [after, hmachine, hc', StateMachine.name]
      have htime := hpunctual c hmachine hwake (by
        simp [StateThread.isMessage, hwake, hmachine, hd])
      rw [← htime]
      exact htidy.ends _ hends τ hτ
  · intro e he
    apply htidy.ends
    simp only [after]
    split
    · exact List.mem_cons_of_mem _ he
    · exact he

theorem tidy_start (dists : Distributions R) (now : Instant) (rng : R) :
    (start dists now rng).Tidy where
  active c hc := by cases hc
  ends e he := by cases he

theorem past_start (dists : Distributions R) (now : Instant) (rng : R) :
    (start dists now rng).Past := by
  intro τ hτ
  cases hτ

/-- **Inactivity timeout.** In a run whose active periods are quiet, every active period ends
after a time without messages that is at least what `W` yielded for it. Conversely, in a run
whose timers are on time and whose active periods are over, all of them end so only if all of
them were quiet. -/
theorem inactive_iff_along_quiet (S : Type) [MessageHolder S] (conf : ThreadConfig R M)
    (now : Instant) (rng : R) (ts : List Moment) (s : TimedThread R)
    (hrun : (system S conf).run (start conf.dists now rng) ts = some s) :
    ((system S conf).Along Quiet (start conf.dists now rng) ts → ∀ e ∈ s.ends, e.Inactive) ∧
    ((system S conf).Along Punctual (start conf.dists now rng) ts →
      s.thread.machine.name = .idle → (∀ e ∈ s.ends, e.Inactive) →
      (system S conf).Along Quiet (start conf.dists now rng) ts) := by
  constructor
  · intro hquiet
    have hinv := System.invariant_along (I := fun s => s.Past ∧ s.Tidy)
      (fun s t u hs hq h => ⟨past_step hs.1 h, tidy_step hs.1 hs.2 hq h⟩)
      ⟨past_start conf.dists now rng, tidy_start conf.dists now rng⟩ hquiet hrun
    exact hinv.2.ends
  · intro hpunctual hidle hends
    have htidy : s.Tidy := by
      refine ⟨?_, hends⟩
      intro c hc
      rw [hc] at hidle
      cases hidle
    exact System.along_of_not_persistent_along (I := fun _ => True) (B := fun s => ¬ s.Tidy)
      (fun _ _ _ _ _ => trivial) (fun s t u _ h hq => not_tidy_of_not_quiet hq h)
      (fun s t u _ hs hp h => not_tidy_step hs hp h) trivial hpunctual hrun (not_not.mpr htidy)

/-- Distributions that always yield the same: active periods time out after 10. -/
def constantDists (aS : Duration) : Distributions Unit where
  m rng := (⟨1, one_le_maxBlocksInBody⟩, rng)
  i rng := (100, rng)
  w rng := (10, rng)
  aS rng := (aS, rng)
  aR rng := (aS, rng)
  s rng := (true, rng)
  r rng := (true, rng)

/-- A conversation in client-server mode. -/
def constantConfig (aS : Duration) : ThreadConfig Unit StateToWriter :=
  ⟨false, "a", "g", constantDists aS, ⟨0⟩⟩

/-- A timer that expires on time. -/
def timerAt (time : Instant) : Moment := ⟨.timer, time, time, time, fun _ => true⟩

/-- Sending every 3 keeps the conversation from being inactive, but the active period ends
after 10, and 1 after the last message. -/
theorem active_period_ends_early :
    ∃ s, (system (Box SerializedMessage) (constantConfig 3)).run (start (constantDists 3) 0 ())
        ([100, 103, 106, 109, 110].map timerAt) = some s ∧
      s.ends = [⟨110, 10, [109, 106, 103, 100]⟩] ∧ ∃ e ∈ s.ends, ¬ e.Inactive := by
  have hends : ((system (Box SerializedMessage) (constantConfig 3)).run
      (start (constantDists 3) 0 ()) ([100, 103, 106, 109, 110].map timerAt)).map (·.ends) =
        some [⟨110, 10, [109, 106, 103, 100]⟩] := by decide +kernel
  obtain ⟨s, hrun, hs⟩ := Option.map_eq_some_iff.mp hends
  refine ⟨s, hrun, hs, ⟨110, 10, [109, 106, 103, 100]⟩, ?_, by decide⟩
  rw [hs]
  exact List.mem_singleton_self _

/-- A conversation that goes quiet after the message that made it active. -/
theorem inactive_of_quiet_run :
    ∃ s, (system (Box SerializedMessage) (constantConfig 20)).run (start (constantDists 20) 0 ())
        ([100, 110, 210, 220].map timerAt) = some s ∧
      s.ends.length = 2 ∧ ∀ e ∈ s.ends, e.Inactive := by
  have hlength : ((system (Box SerializedMessage) (constantConfig 20)).run
      (start (constantDists 20) 0 ()) ([100, 110, 210, 220].map timerAt)).map (·.ends.length) =
        some 2 := by decide +kernel
  obtain ⟨s, hrun, hs⟩ := Option.map_eq_some_iff.mp hlength
  refine ⟨s, hrun, hs, ?_⟩
  exact (inactive_iff_along_quiet (Box SerializedMessage) (constantConfig 20) 0 () _ s hrun).1
    (by decide +kernel)

end TimedThread

end SignalSim.Mgen
