import Mathlib.Order.MinMax
import SignalSim.Mgen.Messenger.Manage

/-!
# The schedule of a conversation

When the rounds of a conversation take place: a task sleeps until its timer expires or a message
has arrived, whichever is first, and what it does then takes no time. The loops of `mgen-client` and
`mgen-peer` are the same, but the client draws its first idle time after the bootstrap period and
the peer before it, so the timer of the peer runs during the bootstrap.

## Main definitions

* `rounds` — rounds of a conversation task at the times when they take place
* `clientRounds`, `peerRounds` — the two functions `manage_conversation`
* `SameSchedule` — both send and change between idle and active at the same times
* `FirstSendAt` — when a conversation sends that nothing has made active before
* `wokenBy` — a message makes the conversation active before a timer expires

## Main results

* `rounds_eq_trace` — the times do not depend on the streams
* `exists_rounds` — conversations that know whom they answer do not panic
* `sameSchedule_iff` — when the schedules are the same
-/

namespace SignalSim.Mgen

open SignalSim.Result

/-- When messages arrive at a conversation task. -/
abbrev Inbox := List (Instant × MessageHeader)

/-- A round, as it is seen from outside. -/
structure RoundEvent where
  time : Instant
  action : ManageAction
  before : StateName
  after : StateName
  deriving DecidableEq

/-- A message is sent, or the state changes. -/
def RoundEvent.IsVisible (e : RoundEvent) : Prop := e.action = .send ∨ e.before ≠ e.after

instance (e : RoundEvent) : Decidable e.IsVisible := inferInstanceAs (Decidable (_ ∨ _))

/-- When the timer of a state expires. -/
def StateMachine.deadline : StateMachine → Instant
  | .idle c => c.delay
  | .active c => min c.delay c.state.wait

/-- A round at a time, with open channels. -/
def Moment.at (time : Instant) (wakeup : Wakeup) : Moment :=
  ⟨wakeup, time, time, time, fun _ => true⟩

/-- What a task that sleeps at a time wakes up for, and the messages that are left. If both the
timer and a message are ready, `select!` takes either. -/
def nextMoment (machine : StateMachine) (now : Instant) (inbox : Inbox) (takeMessage : Bool) :
    Moment × Inbox :=
  let timer := max now machine.deadline
  match inbox with
  | [] => (.at timer .timer, [])
  | (sent, msg) :: rest =>
    let arrival := max now sent
    if arrival < timer ∨ arrival = timer ∧ takeMessage then (.at arrival (.inbound msg), rest)
    else (.at timer .timer, inbox)

section Rounds

variable {R M S : Type} [StreamMap M] [MessageHolder S]

/-- Rounds of the loop of a conversation task. -/
def rounds (S : Type) [MessageHolder S] (conf : ThreadConfig R M) :
    ℕ → Instant → StateThread R → Inbox → (ℕ → Bool) → Except Panic (List RoundEvent)
  | 0, _, _, _, _ => .ok []
  | n + 1, now, thread, inbox, takes => do
    let next := nextMoment thread.machine now inbox (takes 0)
    let (out, thread') ← StateThread.manage (S := S) conf thread next.1
    let events ← rounds S conf n next.1.time thread' next.2 fun k => takes (k + 1)
    pure (⟨next.1.time, out.action, thread.machine.name, thread'.machine.name⟩ :: events)

/-- `manage_conversation` of a client, started at time 0: it sleeps, and then starts. -/
def clientRounds (conf : ThreadConfig R StateToWriter) (bootstrap : Duration) (rng : R)
    (inbox : Inbox) (takes : ℕ → Bool) (n : ℕ) : Except Panic (List RoundEvent) :=
  rounds (Box SerializedMessage) conf n bootstrap (.start conf.dists bootstrap rng) inbox takes

/-- `manage_conversation` of a peer, started at time 0: it starts, and then sleeps. -/
def peerRounds (conf : ThreadConfig R StreamTable) (bootstrap : Duration) (rng : R)
    (inbox : Inbox) (takes : ℕ → Bool) (n : ℕ) : Except Panic (List RoundEvent) :=
  rounds (Arc SerializedMessage) conf n bootstrap (.start conf.dists 0 rng) inbox takes

end Rounds

/-- What is seen of some rounds. -/
def visible (events : List RoundEvent) : List RoundEvent := events.filter fun e => e.IsVisible

/-- Of two runs of any lengths, what is seen of one is the beginning of what is seen of the
other. -/
def SameSchedule (client peer : ℕ → Except Panic (List RoundEvent)) : Prop :=
  ∀ n n' es es', client n = .ok es → peer n' = .ok es' →
    visible es <+: visible es' ∨ visible es' <+: visible es

/-- If a conversation sends before anything else is seen of it, then at the given time. -/
def FirstSendAt (time : Instant) (run : ℕ → Except Panic (List RoundEvent)) : Prop :=
  ∀ n es e, run n = .ok es → (visible es).head? = some e → e.action = .send → e.time = time

/-- Whether a message makes an idle conversation active, and the generator afterwards. -/
def wakes {R : Type} (dists : Distributions R) (msg : MessageHeader) (rng : R) : Bool × R :=
  match msg.body with
  | .size _ => dists.r rng
  | .receipt => (false, rng)

/-- Of the messages that an idle task takes until its timer expires at `limit`, one makes it
active. Those that arrive before are taken, and one that arrives at that time if `select!` takes
it. -/
def wokenBy {R : Type} (dists : Distributions R) (limit : Instant) :
    Instant → Inbox → R → (ℕ → Bool) → Bool
  | _, [], _, _ => false
  | now, (sent, msg) :: rest, rng, takes =>
    let arrival := max now sent
    if arrival < limit ∨ arrival = limit ∧ takes 0 then
      (wakes dists msg rng).1 ||
        wokenBy dists limit arrival rest (wakes dists msg rng).2 fun k => takes (k + 1)
    else false

/-! ### Without the streams -/

section Trace

variable {R T : Type}

def sendTransition [SampledState T] (dists : Distributions R) (c : Conversation T) (t : Moment)
    (rng : R) : StateThread R :=
  let (ret, rng) := SampledState.sent dists c t (dists.m rng).2
  ⟨ret, rng⟩

def receiveTransition [SampledState T] (dists : Distributions R) (msg : MessageHeader)
    (c : Conversation T) (t : Moment) (rng : R) : StateThread R :=
  match msg.body with
  | .size _ =>
    let (ret, rng) := SampledState.received dists c t rng
    ⟨ret, rng⟩
  | .receipt => ⟨SampledState.toMachine c, rng⟩

/-- What a round does to a thread. -/
def transition (dists : Distributions R) (thread : StateThread R) (t : Moment) :
    ManageAction × StateThread R :=
  match thread.machine, t.wakeup with
  | .idle c, .timer => (.send, sendTransition dists c t thread.rng)
  | .idle c, .inbound msg => (.receive msg, receiveTransition dists msg c t thread.rng)
  | .active c, .timer =>
    if c.delay < c.state.wait then (.send, sendTransition dists c t thread.rng)
    else
      let (c, rng) := c.sampledWaited dists t thread.rng
      (.idle, ⟨.idle c, rng⟩)
  | .active c, .inbound msg => (.receive msg, receiveTransition dists msg c t thread.rng)

/-- The rounds of a thread, whatever its streams. -/
def trace (dists : Distributions R) :
    ℕ → Instant → StateThread R → Inbox → (ℕ → Bool) → List RoundEvent
  | 0, _, _, _, _ => []
  | n + 1, now, thread, inbox, takes =>
    let next := nextMoment thread.machine now inbox (takes 0)
    let step := transition dists thread next.1
    ⟨next.1.time, step.1, thread.machine.name, step.2.machine.name⟩ ::
      trace dists n next.1.time step.2 next.2 fun k => takes (k + 1)

variable {M S : Type} [StreamMap M] [MessageHolder S] {conf : ThreadConfig R M} {t : Moment}
  {thread thread' : StateThread R} {out : RoundOutput S}

theorem sendAction_eq_transition [SampledState T] {c : Conversation T} {rng : R}
    (h : StateThread.sendAction conf t c rng = .ok (out, thread')) :
    (out.action, thread') = (.send, sendTransition conf.dists c t rng) := by
  obtain ⟨x, -, h⟩ := bind_eq_ok h
  obtain ⟨puts, -, h⟩ := bind_eq_ok h
  cases h
  rfl

theorem receiveAction_eq_transition [SampledState T] {c : Conversation T} {rng : R}
    {msg : MessageHeader} {group : Option String}
    (h : StateThread.receiveAction conf t msg c group rng = .ok (out, thread')) :
    (out.action, thread') = (.receive msg, receiveTransition conf.dists msg c t rng) := by
  unfold StateThread.receiveAction at h
  unfold receiveTransition
  cases hb : msg.body with
  | size size =>
    rw [hb] at h
    obtain ⟨stream, -, h⟩ := bind_eq_ok h
    obtain ⟨x, -, h⟩ := bind_eq_ok h
    obtain ⟨put, -, h⟩ := bind_eq_ok h
    cases h
    rfl
  | receipt =>
    rw [hb] at h
    cases h
    rfl

theorem manage_eq_transition (h : StateThread.manage conf thread t = .ok (out, thread')) :
    transition conf.dists thread t = (out.action, thread') := by
  unfold StateThread.manage at h
  unfold transition
  cases hmachine : thread.machine with
  | idle c =>
    simp only [hmachine, StateThread.manageIdleConversation] at h
    obtain ⟨⟨out', thread''⟩, haction, heq⟩ := map_eq_ok h
    cases heq
    cases hwake : t.wakeup with
    | timer =>
      rw [hwake] at haction
      exact (sendAction_eq_transition haction).symm
    | inbound msg =>
      rw [hwake] at haction
      exact (receiveAction_eq_transition haction).symm
  | active c =>
    simp only [hmachine, StateThread.manageActiveConversation] at h
    cases hwake : t.wakeup with
    | timer =>
      rw [hwake] at h
      by_cases hd : c.delay < c.state.wait
      · simp only [Conversation.sleep, if_pos hd] at h ⊢
        exact (sendAction_eq_transition h).symm
      · simp only [Conversation.sleep, if_neg hd] at h ⊢
        cases h
        rfl
    | inbound msg =>
      rw [hwake] at h
      exact (receiveAction_eq_transition h).symm

/-- **The streams do not matter.** Rounds that do not panic take place at times that depend on the
samples and on the inbox only. -/
theorem rounds_eq_trace {n : ℕ} {now : Instant} {inbox : Inbox} {takes : ℕ → Bool}
    {events : List RoundEvent} (h : rounds S conf n now thread inbox takes = .ok events) :
    events = trace conf.dists n now thread inbox takes := by
  induction n generalizing now thread inbox takes events with
  | zero => exact (Except.ok.inj h).symm
  | succ n ih =>
    rw [rounds] at h
    obtain ⟨⟨out, thread'⟩, hround, h⟩ := bind_eq_ok h
    obtain ⟨rest, hrest, h⟩ := bind_eq_ok h
    cases h
    rw [trace, manage_eq_transition hround, ih hrest]

end Trace

/-! ### Idle tasks that differ in their timers -/

section Idle

variable {R : Type} {dists : Distributions R} {d d' now limit : Instant} {id : UInt32} {rng : R}
  {inbox rest : Inbox} {takes : ℕ → Bool} {n n' : ℕ} {msg : MessageHeader} {sent : Instant}
  {thread : StateThread R}

/-- A thread that is idle until its timer expires. -/
def idleThread (d : Instant) (id : UInt32) (rng : R) : StateThread R := ⟨.idle ⟨d, id, ⟨⟩⟩, rng⟩

/-- A thread that a message has made active. -/
def wokenThread (dists : Distributions R) (id : UInt32) (now : Instant) (rng : R) :
    StateThread R :=
  let (w, rng) := dists.w rng
  let (aR, rng) := dists.aR rng
  ⟨.active ⟨now + aR, id, ⟨now + w⟩⟩, rng⟩

theorem receiveTransition_idle {t : Instant} {w : Wakeup} :
    receiveTransition dists msg (⟨d, id, ⟨⟩⟩ : Conversation Idle) (.at t w) rng =
      if (wakes dists msg rng).1 then wokenThread dists id t (wakes dists msg rng).2
      else idleThread d id (wakes dists msg rng).2 := by
  unfold receiveTransition wakes
  cases msg.body with
  | receipt => rfl
  | size size =>
    simp only [SampledState.received]
    cases (dists.r rng).1 <;> rfl

/-- What a thread does when its timer expires does not depend on when that is set to. -/
def sentThread (dists : Distributions R) (id : UInt32) (t : Instant) (rng : R) : StateThread R :=
  sendTransition dists (⟨t, id, ⟨⟩⟩ : Conversation Idle) (.at t .timer) rng

/-- A message is taken. -/
theorem trace_taken (h : max now sent < max now d ∨ max now sent = max now d ∧ takes 0) :
    trace dists (n + 1) now (idleThread d id rng) ((sent, msg) :: rest) takes =
      if (wakes dists msg rng).1 then
        ⟨max now sent, .receive msg, .idle, .active⟩ ::
          trace dists n (max now sent)
            (wokenThread dists id (max now sent) (wakes dists msg rng).2) rest
            fun k => takes (k + 1)
      else
        ⟨max now sent, .receive msg, .idle, .idle⟩ ::
          trace dists n (max now sent) (idleThread d id (wakes dists msg rng).2) rest
            fun k => takes (k + 1) := by
  have hnext : nextMoment (idleThread d id rng).machine now ((sent, msg) :: rest) (takes 0) =
      (.at (max now sent) (.inbound msg), rest) := if_pos h
  have hstep : transition dists (idleThread d id rng) (.at (max now sent) (.inbound msg)) =
      (.receive msg, if (wakes dists msg rng).1 then
          wokenThread dists id (max now sent) (wakes dists msg rng).2
        else idleThread d id (wakes dists msg rng).2) :=
    congrArg (Prod.mk _) receiveTransition_idle
  rw [trace, hnext, hstep]
  split <;> rfl

/-- The timer expires. -/
theorem trace_timer (h : ∀ sent msg rest, inbox = (sent, msg) :: rest →
    ¬ (max now sent < max now d ∨ max now sent = max now d ∧ takes 0)) :
    trace dists (n + 1) now (idleThread d id rng) inbox takes =
      ⟨max now d, .send, .idle, (sentThread dists id (max now d) rng).machine.name⟩ ::
        trace dists n (max now d) (sentThread dists id (max now d) rng) inbox
          fun k => takes (k + 1) := by
  have hnext : nextMoment (idleThread d id rng).machine now inbox (takes 0) =
      (.at (max now d) .timer, inbox) := by
    cases inbox with
    | nil => rfl
    | cons head rest => exact if_neg (h head.1 head.2 rest rfl)
  rw [trace, hnext]
  rfl

/-- Either the first message is taken, or the timer expires. -/
theorem taken_or_timer (now d : Instant) (inbox : Inbox) (takes : ℕ → Bool) :
    (∃ sent msg rest, inbox = (sent, msg) :: rest ∧
      (max now sent < max now d ∨ max now sent = max now d ∧ takes 0)) ∨
    ∀ sent msg rest, inbox = (sent, msg) :: rest →
      ¬ (max now sent < max now d ∨ max now sent = max now d ∧ takes 0) := by
  by_cases htaken : ∃ sent msg rest, inbox = (sent, msg) :: rest ∧
      (max now sent < max now d ∨ max now sent = max now d ∧ takes 0)
  · exact .inl htaken
  · exact .inr fun sent msg rest hinbox hcond => htaken ⟨sent, msg, rest, hinbox, hcond⟩

theorem isPrefix_trace (h : n ≤ n') :
    trace dists n now thread inbox takes <+: trace dists n' now thread inbox takes := by
  induction n generalizing n' now thread inbox takes with
  | zero => exact List.nil_prefix
  | succ n ih =>
    cases n' with
    | zero => omega
    | succ n' => exact List.cons_prefix_cons.mpr ⟨rfl, ih (Nat.le_of_succ_le_succ h)⟩

/-- Timers that expire together from now on make no difference. -/
theorem trace_congr (h : ∀ later, now ≤ later → max later d = max later d') :
    trace dists n now (idleThread d id rng) inbox takes =
      trace dists n now (idleThread d' id rng) inbox takes := by
  induction n generalizing now rng inbox takes with
  | zero => rfl
  | succ n ih =>
    rcases taken_or_timer now d inbox takes with ⟨sent, msg, rest, rfl, htaken⟩ | hnone
    · have htaken' := htaken
      rw [h now (Nat.le_refl _)] at htaken'
      rw [trace_taken htaken, trace_taken htaken']
      split
      · rfl
      · rw [ih fun later hlater => h later ((le_max_left _ _).trans hlater)]
    · have hnone' := hnone
      rw [h now (Nat.le_refl _)] at hnone'
      rw [trace_timer hnone, trace_timer hnone', h now (Nat.le_refl _)]

theorem max_eq_of_between {a : Instant} (hnow : now ≤ a) (hle : a ≤ max now d) :
    max a d = max now d :=
  le_antisymm (max_le hle (le_max_right _ _)) (max_le_max hnow le_rfl)

/-- The timer expires at the same time if a message is taken before. -/
theorem limit_eq_of_taken {sent : Instant} {b : Bool} (hlimit : limit = max now d)
    (htaken : max now sent < limit ∨ max now sent = limit ∧ b) :
    limit = max (max now sent) d := by
  have hle : max now sent ≤ limit := htaken.elim le_of_lt fun h => h.1.le
  rw [hlimit] at hle ⊢
  exact (max_eq_of_between (le_max_left _ _) hle).symm

/-- A task that is woken in time does not see when its timer would have expired. -/
theorem trace_of_wokenBy (hd : d ≤ d') (hlimit : limit = max now d)
    (h : wokenBy dists limit now inbox rng takes = true) :
    trace dists n now (idleThread d id rng) inbox takes =
      trace dists n now (idleThread d' id rng) inbox takes := by
  induction inbox generalizing n now rng takes with
  | nil => cases h
  | cons head rest ih =>
    obtain ⟨sent, msg⟩ := head
    cases n with
    | zero => rfl
    | succ n =>
      rw [wokenBy] at h
      split at h
      · rename_i htaken
        -- what is taken before one timer expires is taken before the later one
        have hle : limit ≤ max now d' := hlimit.trans_le (max_le_max le_rfl hd)
        have htaken' : max now sent < max now d' ∨ max now sent = max now d' ∧ takes 0 := by
          rcases htaken with hlt | ⟨heq, htake⟩
          · exact .inl (hlt.trans_le hle)
          · rcases hle.lt_or_eq with hlt | hlast
            · exact .inl (heq.trans_lt hlt)
            · exact .inr ⟨heq.trans hlast, htake⟩
        have harrival := limit_eq_of_taken hlimit htaken
        rw [hlimit] at htaken
        rw [trace_taken htaken, trace_taken htaken']
        split
        · rfl
        · rename_i hidle
          rw [Bool.not_eq_true] at hidle
          rw [hidle, Bool.false_or] at h
          rw [ih harrival h]
      · cases h

/-- A task that is not woken in time sends a message first, when its timer expires. -/
theorem exists_first_send (id : UInt32) (hlimit : limit = max now d)
    (h : wokenBy dists limit now inbox rng takes = false) :
    ∃ n after, (visible (trace dists n now (idleThread d id rng) inbox takes)).head? =
      some ⟨limit, .send, .idle, after⟩ := by
  induction inbox generalizing now rng takes with
  | nil =>
    refine ⟨1, (sentThread dists id (max now d) rng).machine.name, ?_⟩
    rw [trace_timer (by simp), hlimit]
    rfl
  | cons head rest ih =>
    obtain ⟨sent, msg⟩ := head
    rw [wokenBy] at h
    split at h
    · rename_i htaken
      obtain ⟨hidle, h⟩ := Bool.or_eq_false_iff.mp h
      have harrival := limit_eq_of_taken hlimit htaken
      obtain ⟨n, after, hfirst⟩ := ih harrival h
      rw [hlimit] at htaken
      refine ⟨n + 1, after, ?_⟩
      rw [trace_taken htaken, hidle]
      exact hfirst
    · rename_i htaken
      rw [hlimit] at htaken
      refine ⟨1, (sentThread dists id (max now d) rng).machine.name, ?_⟩
      rw [trace_timer fun _ _ _ hinbox => by cases hinbox; exact htaken, hlimit]
      rfl

/-- Something is seen of an idle task. -/
theorem exists_first (dists : Distributions R) (d : Instant) (id : UInt32) (now : Instant) (rng : R)
    (inbox : Inbox) (takes : ℕ → Bool) :
    ∃ n e, (visible (trace dists n now (idleThread d id rng) inbox takes)).head? = some e := by
  induction inbox generalizing now rng takes with
  | nil =>
    refine ⟨1, ⟨max now d, .send, .idle, (sentThread dists id (max now d) rng).machine.name⟩, ?_⟩
    rw [trace_timer (by simp)]
    rfl
  | cons head rest ih =>
    obtain ⟨sent, msg⟩ := head
    by_cases htaken : max now sent < max now d ∨ max now sent = max now d ∧ takes 0
    · cases hwoken : (wakes dists msg rng).1 with
      | true =>
        refine ⟨1, ⟨max now sent, .receive msg, .idle, .active⟩, ?_⟩
        rw [trace_taken htaken, hwoken]
        rfl
      | false =>
        obtain ⟨n, e, hfirst⟩ :=
          ih (max now sent) (wakes dists msg rng).2 fun k => takes (k + 1)
        refine ⟨n + 1, e, ?_⟩
        rw [trace_taken htaken, hwoken]
        exact hfirst
    · refine ⟨1, ⟨max now d, .send, .idle, (sentThread dists id (max now d) rng).machine.name⟩, ?_⟩
      rw [trace_timer fun _ _ _ hinbox => by cases hinbox; exact htaken]
      rfl

/-- If an idle task sends before anything else is seen of it, its timer has expired. -/
theorem time_of_first_send {e : RoundEvent}
    (hfirst : (visible (trace dists n now (idleThread d id rng) inbox takes)).head? = some e)
    (hsend : e.action = .send) : e.time = max now d := by
  induction n generalizing now rng inbox takes with
  | zero => cases hfirst
  | succ n ih =>
    rcases taken_or_timer now d inbox takes with ⟨sent, msg, rest, rfl, htaken⟩ | hnone
    · have hle : max now sent ≤ max now d := htaken.elim le_of_lt fun h => h.1.le
      rw [trace_taken htaken] at hfirst
      cases hwoken : (wakes dists msg rng).1 with
      | true =>
        rw [hwoken] at hfirst
        cases hfirst
        cases hsend
      | false =>
        rw [hwoken] at hfirst
        exact (ih hfirst).trans (max_eq_of_between (le_max_left _ _) hle)
    · rw [trace_timer hnone] at hfirst
      cases hfirst
      rfl

end Idle

/-! ### Rounds that do not panic -/

/-- What a conversation with open channels has to construct fits into messages, and it has a stream
for everyone it answers. -/
structure Answerable {R M : Type} [StreamMap M] (conf : ThreadConfig R M) (inbox : Inbox) :
    Prop where
  message : MessageHeader.Fits ⟨conf.ourId, conf.group, 0, .receipt⟩
  receipt : ∀ p ∈ inbox,
    MessageHeader.Fits ⟨conf.ourId, if conf.p2p then p.2.group else p.2.sender, 0, .receipt⟩
  stream : ∀ p ∈ inbox, ∃ w, StreamMap.channelFor conf.streams p.2.sender = .ok w

section Total

variable {R M S T : Type} [StreamMap M] [MessageHolder S] [LawfulStreams S M] [SampledState T]
  {conf : ThreadConfig R M} {inbox rest : Inbox} (time : Instant)

theorem Answerable.mono (h : Answerable conf inbox) (hsub : ∀ p ∈ rest, p ∈ inbox) :
    Answerable conf rest where
  message := h.message
  receipt p hp := h.receipt p (hsub p hp)
  stream p hp := h.stream p (hsub p hp)

theorem exists_sendOnAll (wakeup : Wakeup) {streams : List StateToWriter} (m : S)
    (hstreams : (∀ m : S, MessageHolder.clone m = .ok m) ∨ streams.length = 1) :
    ∃ puts, StateThread.sendOnAll (.at time wakeup) m streams = .ok puts := by
  cases h : StateThread.sendOnAll (.at time wakeup) m streams with
  | ok puts => exact ⟨puts, rfl⟩
  | error p =>
    obtain ⟨-, w, -, hclosed⟩ := StateThread.sendOnAll_eq_error hstreams h
    cases hclosed

theorem exists_sendAction (wakeup : Wakeup) (h : Answerable conf inbox) (c : Conversation T)
    (rng : R) :
    ∃ r, StateThread.sendAction (S := S) conf (.at time wakeup) c rng = .ok r := by
  obtain ⟨x, hx⟩ := exists_constructMessage h.message c.nextId (conf.dists.m rng).1
  obtain ⟨puts, hputs⟩ := exists_sendOnAll time wakeup (MessageHolder.new x : S)
    (LawfulStreams.clone_eq_or_length conf.streams)
  unfold StateThread.sendAction
  simp only [hx, orPanic, ok_bind, hputs]
  exact ⟨_, rfl⟩

omit [LawfulStreams S M] in
theorem exists_receiveAction (wakeup : Wakeup) (h : Answerable conf inbox)
    {p : Instant × MessageHeader} (hp : p ∈ inbox) (c : Conversation T) (rng : R) :
    ∃ r, StateThread.receiveAction (S := S) conf (.at time wakeup) p.2 c
      (if conf.p2p then none else some conf.group) rng = .ok r := by
  unfold StateThread.receiveAction
  cases p.2.body with
  | receipt => exact ⟨_, rfl⟩
  | size size =>
    obtain ⟨w, hw⟩ := h.stream p hp
    obtain ⟨x, hx⟩ := exists_constructReceipt (h.receipt p hp) p.2.id
    have hrecipient : (if (if conf.p2p then none else some conf.group : Option String).isNone then
        p.2.group else p.2.sender) = if conf.p2p then p.2.group else p.2.sender := by
      cases conf.p2p <;> rfl
    simp only [hw, hrecipient, hx, orPanic, ok_bind]
    exact ⟨_, rfl⟩

theorem exists_manage {wakeup : Wakeup} (h : Answerable conf inbox) (thread : StateThread R)
    (hwake : ∀ msg, wakeup = .inbound msg → ∃ p ∈ inbox, p.2 = msg) :
    ∃ r, StateThread.manage (S := S) conf thread (.at time wakeup) = .ok r := by
  unfold StateThread.manage
  cases thread.machine with
  | idle c =>
    cases wakeup with
    | timer =>
      obtain ⟨r, hr⟩ := exists_sendAction (S := S) time .timer h c thread.rng
      exact ⟨_, congrArg (Except.map _) hr⟩
    | inbound msg =>
      obtain ⟨p, hp, rfl⟩ := hwake msg rfl
      obtain ⟨r, hr⟩ := exists_receiveAction (S := S) time (.inbound p.2) h hp c thread.rng
      exact ⟨_, congrArg (Except.map _) hr⟩
  | active c =>
    cases wakeup with
    | timer =>
      by_cases hdelay : c.delay < c.state.wait
      · simp only [StateThread.manageActiveConversation, Conversation.sleep, if_pos hdelay]
        exact exists_sendAction time .timer h c thread.rng
      · simp only [StateThread.manageActiveConversation, Conversation.sleep, if_neg hdelay]
        exact ⟨_, rfl⟩
    | inbound msg =>
      obtain ⟨p, hp, rfl⟩ := hwake msg rfl
      exact exists_receiveAction time (.inbound p.2) h hp c thread.rng

/-- A task takes the first message or none. -/
theorem nextMoment_cases (machine : StateMachine) (now : Instant) (inbox : Inbox)
    (takeMessage : Bool) :
    (∃ sent msg rest, inbox = (sent, msg) :: rest ∧
      nextMoment machine now inbox takeMessage = (.at (max now sent) (.inbound msg), rest)) ∨
    nextMoment machine now inbox takeMessage = (.at (max now machine.deadline) .timer, inbox) := by
  cases inbox with
  | nil => exact .inr rfl
  | cons head rest =>
    unfold nextMoment
    dsimp only
    split
    · exact .inl ⟨head.1, head.2, rest, rfl, rfl⟩
    · exact .inr rfl

/-- Such a conversation never panics. -/
theorem exists_rounds (h : Answerable conf inbox) (n : ℕ) (now : Instant) (thread : StateThread R)
    (takes : ℕ → Bool) : ∃ events, rounds S conf n now thread inbox takes = .ok events := by
  induction n generalizing now thread inbox takes with
  | zero => exact ⟨[], rfl⟩
  | succ n ih =>
    rw [rounds]
    rcases nextMoment_cases thread.machine now inbox (takes 0) with
      ⟨sent, msg, rest, rfl, hnext⟩ | hnext
    · obtain ⟨⟨out, thread'⟩, hround⟩ := exists_manage (S := S) (max now sent) h thread
        fun m hm => ⟨(sent, msg), List.mem_cons_self, Wakeup.inbound.inj hm⟩
      obtain ⟨events, hevents⟩ := ih (h.mono fun p hp => List.mem_cons_of_mem _ hp) (max now sent)
        thread' fun k => takes (k + 1)
      simp only [hnext, hround, ok_bind]
      exact ⟨_, congrArg (· >>= _) hevents⟩
    · obtain ⟨⟨out, thread'⟩, hround⟩ := exists_manage (S := S)
        (max now thread.machine.deadline) h thread fun m (hm : Wakeup.timer = .inbound m) => by
          cases hm
      obtain ⟨events, hevents⟩ := ih h (max now thread.machine.deadline) thread'
        fun k => takes (k + 1)
      simp only [hnext, hround, ok_bind]
      exact ⟨_, congrArg (· >>= _) hevents⟩

end Total

/-! ### Client and peer -/

section

variable {R : Type} {client : ThreadConfig R StateToWriter} {peer : ThreadConfig R StreamTable}
  {bootstrap : Duration} {rng : R} {inbox : Inbox} {takes : ℕ → Bool} {n : ℕ}
  {es : List RoundEvent}

theorem clientRounds_eq_trace
    (h : clientRounds client bootstrap rng inbox takes n = .ok es) :
    es = trace client.dists n bootstrap
      (idleThread (bootstrap + (client.dists.i rng).1) 0 (client.dists.i rng).2) inbox takes :=
  rounds_eq_trace h

theorem peerRounds_eq_trace
    (h : peerRounds peer bootstrap rng inbox takes n = .ok es) :
    es = trace peer.dists n bootstrap
      (idleThread (0 + (peer.dists.i rng).1) 0 (peer.dists.i rng).2) inbox takes :=
  rounds_eq_trace h

theorem exists_clientRounds (h : Answerable client inbox) (bootstrap : Duration) (rng : R)
    (takes : ℕ → Bool) (n : ℕ) :
    ∃ es, clientRounds client bootstrap rng inbox takes n = .ok es :=
  exists_rounds h n _ _ takes

theorem exists_peerRounds (h : Answerable peer inbox) (bootstrap : Duration) (rng : R)
    (takes : ℕ → Bool) (n : ℕ) : ∃ es, peerRounds peer bootstrap rng inbox takes n = .ok es :=
  exists_rounds h n _ _ takes

theorem isPrefix_or_isPrefix_of_trace {dists : Distributions R} {now : Instant}
    {thread : StateThread R} (n n' : ℕ) :
    visible (trace dists n now thread inbox takes) <+:
        visible (trace dists n' now thread inbox takes) ∨
      visible (trace dists n' now thread inbox takes) <+:
        visible (trace dists n now thread inbox takes) := by
  rcases Nat.le_total n n' with hle | hle
  · exact .inl ((isPrefix_trace hle).filter _)
  · exact .inr ((isPrefix_trace hle).filter _)

/-- What begins with different things is not the beginning of each other. -/
theorem eq_of_isPrefix_or_isPrefix {l l' : List RoundEvent} {e e' : RoundEvent}
    (h : l <+: l' ∨ l' <+: l) (hl : l.head? = some e) (hl' : l'.head? = some e') : e = e' := by
  obtain ⟨tail, rfl⟩ := List.head?_eq_some_iff.mp hl
  obtain ⟨tail', rfl⟩ := List.head?_eq_some_iff.mp hl'
  rcases h with h | h
  · exact (List.cons_prefix_cons.mp h).1
  · exact (List.cons_prefix_cons.mp h).1.symm

/-- **Client and peer.** With the same samples, the same bootstrap and the same messages arriving,
their schedules are the same, and both send first one idle time after the bootstrap, exactly if
there is no bootstrap, or the first idle time is zero, or a message makes the conversation active
before the timer of the peer expires. -/
theorem sameSchedule_iff (hdists : peer.dists = client.dists) (hclient : Answerable client inbox)
    (hpeer : Answerable peer inbox) :
    (SameSchedule (clientRounds client bootstrap rng inbox takes)
        (peerRounds peer bootstrap rng inbox takes) ∧
      FirstSendAt (bootstrap + (client.dists.i rng).1)
        (clientRounds client bootstrap rng inbox takes) ∧
      FirstSendAt (bootstrap + (client.dists.i rng).1)
        (peerRounds peer bootstrap rng inbox takes)) ↔
      bootstrap = 0 ∨ (client.dists.i rng).1 = 0 ∨
        wokenBy client.dists (max bootstrap (client.dists.i rng).1) bootstrap inbox
          (client.dists.i rng).2 takes = true := by
  constructor
  · rintro ⟨hsame, -, -⟩
    by_contra hcond
    simp only [not_or, Bool.not_eq_true] at hcond
    obtain ⟨hbootstrap, hidle, hwoken⟩ := hcond
    have hlater : max bootstrap (client.dists.i rng).1 <
        max bootstrap (bootstrap + (client.dists.i rng).1) :=
      lt_max_of_lt_right (max_lt (Nat.lt_add_of_pos_right (Nat.pos_of_ne_zero hidle))
        (Nat.lt_add_of_pos_left (Nat.pos_of_ne_zero hbootstrap)))
    obtain ⟨n, e, hfirst⟩ := exists_first client.dists (bootstrap + (client.dists.i rng).1) 0
      bootstrap (client.dists.i rng).2 inbox takes
    obtain ⟨n', after, hfirst'⟩ := exists_first_send 0 rfl hwoken
    obtain ⟨es, hes⟩ := exists_clientRounds hclient bootstrap rng takes n
    obtain ⟨es', hes'⟩ := exists_peerRounds hpeer bootstrap rng takes n'
    have hpre := hsame n n' es es' hes hes'
    rw [clientRounds_eq_trace hes, peerRounds_eq_trace hes', hdists, Nat.zero_add] at hpre
    obtain rfl := eq_of_isPrefix_or_isPrefix hpre hfirst hfirst'
    exact hlater.ne (time_of_first_send hfirst rfl)
  · intro hcond
    have htrace (n : ℕ) : trace client.dists n bootstrap
        (idleThread (client.dists.i rng).1 0 (client.dists.i rng).2) inbox takes =
          trace client.dists n bootstrap
            (idleThread (bootstrap + (client.dists.i rng).1) 0 (client.dists.i rng).2) inbox
            takes := by
      rcases hcond with hbootstrap | hidle | hwoken
      · rw [hbootstrap, Nat.zero_add]
      · refine trace_congr fun later hlater => ?_
        rw [hidle, Nat.add_zero, max_eq_left hlater, max_eq_left (Nat.zero_le _)]
      · exact trace_of_wokenBy (Nat.le_add_left _ _) rfl hwoken
    have htime : max bootstrap (bootstrap + (client.dists.i rng).1) =
        bootstrap + (client.dists.i rng).1 := max_eq_right (Nat.le_add_right _ _)
    refine ⟨?_, ?_, ?_⟩
    · intro n n' es es' hes hes'
      rw [clientRounds_eq_trace hes, peerRounds_eq_trace hes', hdists, Nat.zero_add, htrace]
      exact isPrefix_or_isPrefix_of_trace n n'
    · intro n es e hes hfirst hsend
      rw [clientRounds_eq_trace hes] at hfirst
      exact (time_of_first_send hfirst hsend).trans htime
    · intro n es e hes hfirst hsend
      rw [peerRounds_eq_trace hes, hdists, Nat.zero_add, htrace] at hfirst
      exact (time_of_first_send hfirst hsend).trans htime

end

/-! ### Examples -/

/-- An idle time of three seconds, and the given answer to whether a message wakes. -/
def exampleDists (r : Bool) : Distributions Unit where
  m _ := (⟨1, one_le_maxBlocksInBody⟩, ())
  i _ := (3, ())
  w _ := (5, ())
  aS _ := (1, ())
  aR _ := (1, ())
  s _ := (false, ())
  r _ := (r, ())

def scheduleClient (r : Bool) : ThreadConfig Unit StateToWriter :=
  ⟨false, "A", "g", exampleDists r, ⟨0⟩⟩

def schedulePeer (r : Bool) : ThreadConfig Unit StreamTable :=
  ⟨true, "A", "g", exampleDists r, (∅ : StreamTable).insert "B" ⟨0⟩⟩

/-- After a bootstrap of two seconds the peer sends at three seconds and the client at five. -/
theorem not_sameSchedule : ¬ SameSchedule
    (clientRounds (scheduleClient true) 2 () [] fun _ => true)
    (peerRounds (schedulePeer true) 2 () [] fun _ => true) := by
  intro hsame
  have hpre := hsame 1 1 _ _ rfl rfl
  revert hpre
  decide

/-- A message at the end of the bootstrap makes both active. -/
theorem sameSchedule_of_message : SameSchedule
    (clientRounds (scheduleClient true) 2 () [(1, ⟨"B", "g", 0, .size ⟨160, by decide⟩⟩)]
      fun _ => true)
    (peerRounds (schedulePeer true) 2 () [(1, ⟨"B", "g", 0, .size ⟨160, by decide⟩⟩)]
      fun _ => true) := by
  refine ((sameSchedule_iff rfl ⟨by decide, ?_, ?_⟩ ⟨by decide, ?_, ?_⟩).mpr
    (.inr (.inr rfl))).1
  · intro p hp
    obtain rfl := List.mem_singleton.mp hp
    decide
  · intro p hp
    exact ⟨_, rfl⟩
  · intro p hp
    obtain rfl := List.mem_singleton.mp hp
    decide
  · intro p hp
    obtain rfl := List.mem_singleton.mp hp
    exact ⟨⟨0⟩, rfl⟩

end SignalSim.Mgen
