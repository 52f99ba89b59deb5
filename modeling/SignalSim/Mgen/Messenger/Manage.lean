import Mathlib.Data.List.AList
import SignalSim.Foundations.Result
import SignalSim.Mgen.Messenger.State

/-!
# Managing a conversation

The functions of `messenger/state.rs` with what `Messenger.State` abstracts from: the random
generator that the distributions draw from, every reading of the clock, the streams to the
writers with their two kinds of map and of message holder, and the log. What a writer's
channel gets is recorded round by round.

## Main definitions

* `MessageHolder`, `StreamMap` — the two traits, each with its two instances
* `Distributions` — what the distributions do with a generator
* `StateThread.manage` — one round of `manage_conversation`
* `StateThread.manageAll` — a run of rounds

## Main results

* `StateThread.manage_refines` — a round is one of the machine of `Messenger.State`
-/

namespace SignalSim.Mgen

open SignalSim.Result

/-! ### Streams -/

/-- How a state thread can panic. -/
inductive Panic
  /-- A message holder that should never be cloned is. -/
  | clone
  /-- The writer's end of a stream is closed. -/
  | closed
  /-- The stream map has no stream for a name. -/
  | unknownName
  /-- A message cannot be constructed. -/
  | construct
  deriving DecidableEq

/-- `std::boxed::Box`. -/
structure Box (α : Type) where
  val : α
  deriving DecidableEq

/-- `std::sync::Arc`. -/
structure Arc (α : Type) where
  val : α
  deriving DecidableEq

/-- The trait `MessageHolder`. -/
class MessageHolder (S : Type) where
  new : SerializedMessage → S
  clone : S → Except Panic S

instance : MessageHolder (Arc SerializedMessage) := ⟨.mk, .ok⟩

instance : MessageHolder (Box SerializedMessage) := ⟨.mk, fun _ => .error .clone⟩

/-- The sending half of the channel to a writer, by the number of the channel. -/
structure StateToWriter where
  channel : ℕ
  deriving DecidableEq

/-- The streams to the members of a group, by name. -/
abbrev StreamTable := AList fun _ : String => StateToWriter

/-- The trait `StreamMap`. -/
class StreamMap (M : Type) where
  channelFor : M → String → Except Panic StateToWriter
  values : M → List StateToWriter

instance : StreamMap StreamTable where
  channelFor streams name := (streams.lookup name).elim (.error .unknownName) .ok
  values streams := streams.entries.map (·.2)

instance : StreamMap StateToWriter where
  channelFor stream _ := .ok stream
  values stream := [stream]

/-- A holder goes with a map if cloning works or one stream never needs it. -/
class LawfulStreams (S M : Type) [MessageHolder S] [StreamMap M] : Prop where
  clone_eq_or_length (streams : M) :
    (∀ m : S, MessageHolder.clone m = .ok m) ∨ (StreamMap.values streams).length = 1
  eq_unknownName {streams : M} {name : String} {p : Panic} :
    StreamMap.channelFor streams name = .error p → p = .unknownName

instance : LawfulStreams (Arc SerializedMessage) StreamTable where
  clone_eq_or_length _ := .inl fun _ => rfl
  eq_unknownName {streams name p} h := by
    simp only [StreamMap.channelFor] at h
    cases hw : streams.lookup name with
    | none =>
      rw [hw] at h
      exact (Except.error.inj h).symm
    | some w =>
      rw [hw] at h
      cases h

instance : LawfulStreams (Box SerializedMessage) StateToWriter where
  clone_eq_or_length _ := .inr rfl
  eq_unknownName h := by cases h

/-- Put a message on the channel to a writer, whose receiving half may be closed. -/
def StateToWriter.send {S : Type} (isOpen : ℕ → Bool) (w : StateToWriter) (m : S) :
    Except Panic (ℕ × S) :=
  if isOpen w.channel then .ok (w.channel, m) else .error .closed

namespace StateToWriter

variable {S : Type} {isOpen : ℕ → Bool} {w : StateToWriter} {m : S}

theorem send_eq_ok {put : ℕ × S} (h : w.send isOpen m = .ok put) : put = (w.channel, m) := by
  unfold send at h
  split at h
  · exact (Except.ok.inj h).symm
  · cases h

theorem send_eq_error {p : Panic} (h : w.send isOpen m = .error p) :
    p = .closed ∧ isOpen w.channel = false := by
  unfold send at h
  split at h
  case isTrue => cases h
  case isFalse hclosed => exact ⟨(Except.error.inj h).symm, eq_false_of_ne_true hclosed⟩

end StateToWriter

/-! ### Sampling -/

/-- What the distributions of a conversation do with a random generator. -/
structure Distributions (R : Type) where
  m : R → {n : UInt32 // n ≤ maxBlocksInBody} × R
  i : R → Duration × R
  w : R → Duration × R
  aS : R → Duration × R
  aR : R → Duration × R
  s : R → Bool × R
  r : R → Bool × R

/-- One round: what the conversation wakes up for, when, what the clock shows afterwards, and
which channels are open. -/
structure Moment where
  wakeup : Wakeup
  time : Instant
  /-- The first and the second reading of the clock in the round. -/
  now₁ : Instant
  now₂ : Instant
  isOpen : ℕ → Bool

/-- The machine sends when its timer expires: an idle one always, an active one while its next
message is due before the end of the active period. -/
def StateMachine.SendsNext : StateMachine → Prop
  | .idle _ => True
  | .active c => c.delay < c.state.wait

/-- `State::NAME`. -/
inductive StateName
  | idle
  | active
  deriving DecidableEq

def StateMachine.name : StateMachine → StateName
  | .idle _ => .idle
  | .active _ => .active

/-- The trait `State`, with the generator and the clock. -/
class SampledState (S : Type) where
  name : StateName
  sent {R : Type} : Distributions R → Conversation S → Moment → R → StateMachine × R
  received {R : Type} : Distributions R → Conversation S → Moment → R → StateMachine × R
  toMachine : Conversation S → StateMachine

instance : SampledState Idle where
  name := .idle
  sent dists c t rng :=
    let nextId := c.nextId + 1
    let (s, rng) := dists.s rng
    if s then
      let (aS, rng) := dists.aS rng
      let delay := t.now₁ + aS
      let (w, rng) := dists.w rng
      let wait := t.now₂ + w
      (.active ⟨delay, nextId, ⟨wait⟩⟩, rng)
    else
      let (i, rng) := dists.i rng
      let delay := t.now₁ + i
      (.idle ⟨delay, nextId, ⟨⟩⟩, rng)
  received dists c t rng :=
    let (r, rng) := dists.r rng
    if r then
      let (w, rng) := dists.w rng
      let wait := t.now₁ + w
      let (aR, rng) := dists.aR rng
      let delay := t.now₂ + aR
      (.active ⟨delay, c.nextId, ⟨wait⟩⟩, rng)
    else (.idle c, rng)
  toMachine := .idle

instance : SampledState Active where
  name := .active
  sent dists c t rng :=
    let (aS, rng) := dists.aS rng
    let delay := t.now₁ + aS
    (.active ⟨delay, c.nextId + 1, c.state⟩, rng)
  received dists c t rng :=
    let (aR, rng) := dists.aR rng
    let delay := t.now₁ + aR
    (.active ⟨delay, c.nextId, c.state⟩, rng)
  toMachine := .active

/-- With the generator a state does what it does for some samples. -/
class LawfulSampledState (S : Type) [State S] [SampledState S] : Prop where
  exists_sent {R : Type} (dists : Distributions R) (c : Conversation S) (t : Moment) (rng : R)
    (m : {n : UInt32 // n ≤ maxBlocksInBody}) :
    ∃ v : Samples, v.m = m ∧ (SampledState.sent dists c t rng).1 = State.sent c 0 v
  exists_received {R : Type} (dists : Distributions R) (c : Conversation S) (t : Moment) (rng : R)
    (m : {n : UInt32 // n ≤ maxBlocksInBody}) :
    ∃ v : Samples, v.m = m ∧ (SampledState.received dists c t rng).1 = State.received c 0 v
  toMachine_eq (c : Conversation S) : SampledState.toMachine c = State.toMachine c

instance : LawfulSampledState Idle where
  exists_sent dists c t rng m := by
    let rng₁ := (dists.s rng).2
    refine ⟨⟨m, t.now₁ + (dists.i rng₁).1, t.now₂ + (dists.w (dists.aS rng₁).2).1,
      t.now₁ + (dists.aS rng₁).1, 0, (dists.s rng).1, true⟩, rfl, ?_⟩
    by_cases hs : (dists.s rng).1 = true <;> simp [SampledState.sent, State.sent, hs, rng₁]
  exists_received dists c t rng m := by
    let rng₁ := (dists.r rng).2
    refine ⟨⟨m, 0, t.now₁ + (dists.w rng₁).1, 0, t.now₂ + (dists.aR (dists.w rng₁).2).1, true,
      (dists.r rng).1⟩, rfl, ?_⟩
    by_cases hr : (dists.r rng).1 = true <;>
      simp [SampledState.received, State.received, hr, rng₁]
  toMachine_eq _ := rfl

instance : LawfulSampledState Active where
  exists_sent dists c t rng m :=
    ⟨⟨m, 0, 0, t.now₁ + (dists.aS rng).1, 0, true, true⟩, rfl, by
      simp [SampledState.sent, State.sent]⟩
  exists_received dists c t rng m :=
    ⟨⟨m, 0, 0, 0, t.now₁ + (dists.aR rng).1, true, true⟩, rfl, by
      simp [SampledState.received, State.received]⟩
  toMachine_eq _ := rfl

namespace Conversation

variable {R : Type}

def sampledStart (dists : Distributions R) (now : Instant) (rng : R) : Conversation Idle × R :=
  let (i, rng) := dists.i rng
  (⟨now + i, 0, ⟨⟩⟩, rng)

def sampledWaited (dists : Distributions R) (c : Conversation Active) (t : Moment) (rng : R) :
    Conversation Idle × R :=
  let (i, rng) := dists.i rng
  (⟨t.now₁ + i, c.nextId, ⟨⟩⟩, rng)

end Conversation

/-! ### Actions -/

/-- A line of the log, after the time. -/
inductive LogLine
  | idle (ourId group : String)
  | send (ourId group : String) (before after : StateName) (size id : UInt32)
  | receive (ourId group : String) (before after : StateName) (sender : String)
      (size id : UInt32)
  | receipt (ourId group : String) (state : StateName) (sender : String) (id : UInt32)
  deriving DecidableEq

/-- What a round was: `IdleGroupActions` and `ActiveGroupActions` together. -/
inductive ManageAction
  | send
  | receive (m : MessageHeader)
  | idle
  deriving DecidableEq

/-- What a round put on the channels, in order, and in the log. -/
structure RoundOutput (S : Type) where
  action : ManageAction
  puts : List (ℕ × S)
  log : List LogLine

/-- The arguments of a state thread that do not change. -/
structure ThreadConfig (R M : Type) where
  p2p : Bool
  ourId : String
  group : String
  dists : Distributions R
  streams : M

/-- The state of a conversation and the generator of its thread. -/
structure StateThread (R : Type) where
  machine : StateMachine
  rng : R
  deriving DecidableEq

/-- An argument of a panic, if there is no result. -/
def orPanic {α : Type} (p : Panic) : Option α → Except Panic α
  | none => .error p
  | some a => .ok a

/-! ### Names that fit -/

theorem exists_constructMessage {sender group : String}
    (h : MessageHeader.Fits ⟨sender, group, 0, .receipt⟩) (id : UInt32)
    (blocks : {n : UInt32 // n ≤ maxBlocksInBody}) :
    ∃ x, constructMessage sender group id blocks = some x := by
  obtain ⟨blocks, hblocks⟩ := blocks
  have hne : max blocks 1 * paddingBlockSize ≠ 0 := by
    intro hzero
    have hsize := toNat_bodySize hblocks
    rw [hzero, UInt32.toNat_zero] at hsize
    exact Nat.mul_ne_zero (Nat.one_le_iff_ne_zero.mp (le_max_right _ 1)) (by decide) hsize.symm
  have hfits : MessageHeader.Fits ⟨sender, group, id, .size ⟨_, hne⟩⟩ := h
  rw [constructMessage, NonZeroU32.new, dif_neg hne]
  exact ⟨_, MessageHeader.serialize_eq hfits⟩

theorem exists_constructReceipt {sender recipient : String}
    (h : MessageHeader.Fits ⟨sender, recipient, 0, .receipt⟩) (id : UInt32) :
    ∃ x, constructReceipt sender recipient id = some x :=
  ⟨_, MessageHeader.serialize_eq (m := ⟨sender, recipient, id, .receipt⟩) h⟩

namespace StateThread

section Actions

variable {R M S T : Type} [StreamMap M] [MessageHolder S] [SampledState T]
  (conf : ThreadConfig R M) (t : Moment)

/-- Put a message on all streams. A single stream gets it as it is. -/
def sendOnAll (m : S) : List StateToWriter → Except Panic (List (ℕ × S))
  | [stream] => do
    let put ← stream.send t.isOpen m
    pure [put]
  -- with more than one stream each gets a clone
  | streams => streams.mapM fun stream => do
    let m ← MessageHolder.clone m
    stream.send t.isOpen m

/-- `send_action`. -/
def sendAction (c : Conversation T) (rng : R) :
    Except Panic (RoundOutput S × StateThread R) := do
  let (size, rng) := conf.dists.m rng
  let id := c.nextId
  let m ← orPanic .construct (constructMessage conf.ourId conf.group id size)
  let puts ← sendOnAll t (MessageHolder.new m) (StreamMap.values conf.streams)
  let (ret, rng) := SampledState.sent conf.dists c t rng
  pure (⟨.send, puts,
    [.send conf.ourId conf.group (SampledState.name T) ret.name size id]⟩, ⟨ret, rng⟩)

/-- `receive_action`. The group is given in client-server mode only. -/
def receiveAction (msg : MessageHeader) (c : Conversation T) (group : Option String) (rng : R) :
    Except Panic (RoundOutput S × StateThread R) :=
  match msg.body with
  | .size size => do
    let (ret, rng) := SampledState.received conf.dists c t rng
    let stream ← StreamMap.channelFor conf.streams msg.sender
    -- peers get the receipt under the group's name, clients under the sender's
    let recipient := if group.isNone then msg.group else msg.sender
    let m ← orPanic .construct (constructReceipt conf.ourId recipient msg.id)
    let put ← stream.send t.isOpen (MessageHolder.new m)
    pure (⟨.receive msg, [put], [.receive conf.ourId msg.group (SampledState.name T) ret.name
      msg.sender size.1 msg.id]⟩, ⟨ret, rng⟩)
  | .receipt =>
    let group := group.getD msg.group
    .ok (⟨.receive msg, [], [.receipt conf.ourId group (SampledState.name T) msg.sender msg.id]⟩,
      ⟨SampledState.toMachine c, rng⟩)

/-- `manage_idle_conversation`. -/
def manageIdleConversation (c : Conversation Idle) (rng : R) :
    Except Panic (RoundOutput S × StateThread R) :=
  let start := LogLine.idle conf.ourId conf.group
  let result := match t.wakeup with
    | .timer => sendAction conf t c rng
    | .inbound m => receiveAction conf t m c (if conf.p2p then none else some conf.group) rng
  result.map fun (out, thread) => ({ out with log := start :: out.log }, thread)

/-- `manage_active_conversation`. -/
def manageActiveConversation (c : Conversation Active) (rng : R) :
    Except Panic (RoundOutput S × StateThread R) :=
  let action : ActiveGroupActions :=
    match t.wakeup with
    | .timer => Conversation.sleep c.delay c.state.wait
    | .inbound m => .receive m
  match action with
  | .send => sendAction conf t c rng
  | .receive m => receiveAction conf t m c (if conf.p2p then none else some conf.group) rng
  | .idle =>
    let (c, rng) := c.sampledWaited conf.dists t rng
    .ok (⟨.idle, [], []⟩, ⟨.idle c, rng⟩)

end Actions

variable {R M S : Type} [StreamMap M] [MessageHolder S]

/-- `StateMachine::start`. -/
def start (dists : Distributions R) (now : Instant) (rng : R) : StateThread R :=
  let (c, rng) := Conversation.sampledStart dists now rng
  ⟨.idle c, rng⟩

/-- One round of the loop of `manage_conversation`. -/
def manage (conf : ThreadConfig R M) (thread : StateThread R) (t : Moment) :
    Except Panic (RoundOutput S × StateThread R) :=
  match thread.machine with
  | .idle c => manageIdleConversation conf t c thread.rng
  | .active c => manageActiveConversation conf t c thread.rng

/-- A run of rounds: what each of them put out, and the thread after them. -/
def manageAll (conf : ThreadConfig R M) :
    StateThread R → List Moment → Except Panic (List (RoundOutput S) × StateThread R)
  | thread, [] => .ok ([], thread)
  | thread, t :: ts => do
    let (out, thread) ← manage conf thread t
    let (outs, thread) ← manageAll conf thread ts
    pure (out :: outs, thread)

/-! ### Where a round can panic -/

/-- The ways in which a round can panic, each with its cause: the writer's end of a channel that
the round needs is closed, a name that it writes is too long for a header, or a message came from
a user without a stream. -/
inductive Excused (conf : ThreadConfig R M) (machine : StateMachine) (t : Moment) : Panic → Prop
  | sendClosed {w : StateToWriter} : t.wakeup = .timer → machine.SendsNext →
      w ∈ StreamMap.values conf.streams → t.isOpen w.channel = false →
      Excused conf machine t .closed
  | sendTooLong : t.wakeup = .timer → machine.SendsNext →
      ¬ MessageHeader.Fits ⟨conf.ourId, conf.group, 0, .receipt⟩ →
      Excused conf machine t .construct
  | replyClosed {msg : MessageHeader} {w : StateToWriter} : t.wakeup = .inbound msg →
      msg.body ≠ .receipt → StreamMap.channelFor conf.streams msg.sender = .ok w →
      t.isOpen w.channel = false → Excused conf machine t .closed
  | replyTooLong {msg : MessageHeader} : t.wakeup = .inbound msg → msg.body ≠ .receipt →
      ¬ MessageHeader.Fits ⟨conf.ourId, if conf.p2p then msg.group else msg.sender, 0, .receipt⟩ →
      Excused conf machine t .construct
  | unknownName {msg : MessageHeader} : t.wakeup = .inbound msg → msg.body ≠ .receipt →
      (∀ w, StreamMap.channelFor conf.streams msg.sender ≠ .ok w) →
      Excused conf machine t .unknownName

variable {R M S T : Type} [StreamMap M] [MessageHolder S] [LawfulStreams S M] [SampledState T]
  {conf : ThreadConfig R M} {machine : StateMachine} {t : Moment} {p : Panic}
  {puts : List (ℕ × S)} {m : S} {streams : List StateToWriter}

/-- Every stream gets the message as it is. -/
theorem sendOnAll_eq (hstreams : (∀ m : S, MessageHolder.clone m = .ok m) ∨ streams.length = 1) :
    sendOnAll t m streams = streams.mapM fun w => w.send t.isOpen m := by
  unfold sendOnAll
  split
  case h_1 stream => simp only [List.mapM_cons, List.mapM_nil, pure_bind]
  case h_2 hne =>
    have hclone := hstreams.resolve_right fun hlen => by
      obtain ⟨stream, rfl⟩ := List.length_eq_one_iff.mp hlen
      exact hne stream rfl
    simp only [hclone, ok_bind]

/-- Only a closed channel keeps a message from the streams. -/
theorem sendOnAll_eq_error (hstreams : (∀ m : S, MessageHolder.clone m = .ok m) ∨
    streams.length = 1) (h : sendOnAll t m streams = .error p) :
    p = .closed ∧ ∃ w ∈ streams, t.isOpen w.channel = false := by
  rw [sendOnAll_eq hstreams] at h
  obtain ⟨w, hw, hsend⟩ := mapM_eq_error h
  obtain ⟨hp, hclosed⟩ := StateToWriter.send_eq_error hsend
  exact ⟨hp, w, hw, hclosed⟩

/-- Every stream gets the message once. -/
theorem sendOnAll_eq_ok (hstreams : (∀ m : S, MessageHolder.clone m = .ok m) ∨
    streams.length = 1) (h : sendOnAll t m streams = .ok puts) :
    puts = streams.map fun w => (w.channel, m) := by
  rw [sendOnAll_eq hstreams] at h
  -- stream by stream, in the order of the map
  have hputs := mapM_eq_ok h
  clear h hstreams
  induction hputs with
  | nil => rfl
  | cons hput _ ih => rw [List.map_cons, ← ih, StateToWriter.send_eq_ok hput]

theorem orPanic_eq_error {α : Type} {q : Panic} {o : Option α} (h : orPanic q o = .error p) :
    p = q ∧ o = none := by
  cases o with
  | none => exact ⟨(Except.error.inj h).symm, rfl⟩
  | some a => cases h

/-- A round in which the machine sends panics for a name that is too long or a closed channel. -/
theorem sendAction_eq_error {c : Conversation T} {rng : R}
    (h : sendAction (S := S) conf t c rng = .error p) :
    (p = .construct ∧ ¬ MessageHeader.Fits ⟨conf.ourId, conf.group, 0, .receipt⟩) ∨
      (p = .closed ∧ ∃ w ∈ StreamMap.values conf.streams, t.isOpen w.channel = false) := by
  rcases bind_eq_error h with hm | ⟨x, -, h⟩
  · obtain ⟨hp, hnone⟩ := orPanic_eq_error hm
    refine .inl ⟨hp, fun hfits => ?_⟩
    obtain ⟨x, hx⟩ := exists_constructMessage hfits c.nextId (conf.dists.m rng).1
    rw [hx] at hnone
    cases hnone
  · rcases bind_eq_error h with hputs | ⟨puts, -, h⟩
    · exact .inr (sendOnAll_eq_error (LawfulStreams.clone_eq_or_length conf.streams) hputs)
    · cases h

/-- A round that a message begins panics for a name that is too long, a closed channel or a sender
without a stream. -/
theorem receiveAction_eq_error {c : Conversation T} {rng : R} {msg : MessageHeader}
    (hwake : t.wakeup = .inbound msg) (h : receiveAction (S := S) conf t msg c
      (if conf.p2p then none else some conf.group) rng = .error p) :
    Excused conf machine t p := by
  unfold receiveAction at h
  split at h
  case h_1 size hb =>
    have hne : msg.body ≠ .receipt := by simp [hb]
    rcases bind_eq_error h with hw | ⟨w, hw, h⟩
    · -- the map has no stream for the sender
      obtain rfl := LawfulStreams.eq_unknownName S hw
      refine .unknownName hwake hne fun w hok => ?_
      rw [hok] at hw
      cases hw
    -- a name is too long, or the channel is closed
    · rcases bind_eq_error h with hm | ⟨x, -, h⟩
      · obtain ⟨rfl, hnone⟩ := orPanic_eq_error hm
        refine .replyTooLong hwake hne fun hfits => ?_
        have hrecipient : (if (if conf.p2p then none else some conf.group : Option String).isNone
            then msg.group else msg.sender) = if conf.p2p then msg.group else msg.sender := by
          cases conf.p2p <;> rfl
        obtain ⟨x, hx⟩ := exists_constructReceipt hfits msg.id
        rw [hrecipient, hx] at hnone
        cases hnone
      · rcases bind_eq_error h with hput | ⟨put, -, h⟩
        · obtain ⟨rfl, hclosed⟩ := StateToWriter.send_eq_error hput
          exact .replyClosed hwake hne hw hclosed
        · cases h
  case h_2 => cases h

theorem excused_of_sendAction {c : Conversation T} {rng : R} (hwake : t.wakeup = .timer)
    (hsends : machine.SendsNext) (h : sendAction (S := S) conf t c rng = .error p) :
    Excused conf machine t p := by
  rcases sendAction_eq_error h with ⟨rfl, hlong⟩ | ⟨rfl, w, hw, hclosed⟩
  · exact .sendTooLong hwake hsends hlong
  · exact .sendClosed hwake hsends hw hclosed

/-- A round panics for one of the causes only. -/
theorem manage_eq_error {thread : StateThread R} (h : manage (S := S) conf thread t = .error p) :
    Excused conf thread.machine t p := by
  unfold manage at h
  cases hmachine : thread.machine with
  | idle c =>
    simp only [hmachine, manageIdleConversation] at h
    -- what woke the thread decides what the round does
    cases hwake : t.wakeup with
    | timer =>
      rw [hwake] at h
      exact excused_of_sendAction hwake trivial (map_eq_error h)
    | inbound msg =>
      rw [hwake] at h
      exact receiveAction_eq_error hwake (map_eq_error h)
  | active c =>
    simp only [hmachine, manageActiveConversation] at h
    cases hwake : t.wakeup with
    | timer =>
      rw [hwake] at h
      by_cases hd : c.delay < c.state.wait
      · simp only [Conversation.sleep, if_pos hd] at h
        exact excused_of_sendAction hwake hd h
      · simp only [Conversation.sleep, if_neg hd] at h
        cases h
    | inbound msg =>
      rw [hwake] at h
      exact receiveAction_eq_error hwake h

/-! ### A round is one of the abstract machine -/

/-- What an action of the abstract machine is on the channels. -/
inductive Emits (conf : ThreadConfig R M) :
    Wakeup → ManageAction → Option Outgoing → List (ℕ × S) → Prop
  | send (x : SerializedMessage) : Emits conf .timer .send (some (.broadcast x))
      ((StreamMap.values conf.streams).map fun w => (w.channel, MessageHolder.new x))
  | reply (msg : MessageHeader) (w : StateToWriter) (x : SerializedMessage) :
      msg.body ≠ .receipt → StreamMap.channelFor conf.streams msg.sender = .ok w →
      Emits conf (.inbound msg) (.receive msg) (some (.reply msg.sender x))
        [(w.channel, MessageHolder.new x)]
  | receipt (msg : MessageHeader) : msg.body = .receipt →
      Emits conf (.inbound msg) (.receive msg) none []
  | idle : Emits conf .timer .idle none []

variable [State T] [LawfulSampledState T] {out : RoundOutput S} {thread thread' : StateThread R}

theorem orPanic_eq_ok {α : Type} {q : Panic} {o : Option α} {a : α} (h : orPanic q o = .ok a) :
    o = some a := by
  cases o with
  | none => cases h
  | some b => rw [Except.ok.inj h]

theorem sendAction_refines {c : Conversation T} {rng : R}
    (h : sendAction conf t c rng = .ok (out, thread')) :
    ∃ v o, Mgen.sendAction c conf.ourId conf.group 0 v = some (o, thread'.machine) ∧
      Emits conf .timer out.action o out.puts := by
  obtain ⟨x, hx, h⟩ := bind_eq_ok h
  obtain ⟨puts, hputs, h⟩ := bind_eq_ok h
  cases h
  obtain ⟨v, hm, hv⟩ := LawfulSampledState.exists_sent conf.dists c t (conf.dists.m rng).2
    (conf.dists.m rng).1
  refine ⟨v, some (.broadcast x), ?_, ?_⟩
  · rw [Mgen.sendAction, hm, orPanic_eq_ok hx, Option.map_some, ← hv]
    rfl
  · rw [sendOnAll_eq_ok (LawfulStreams.clone_eq_or_length conf.streams) hputs]
    exact .send x

omit [LawfulStreams S M] in
theorem receiveAction_refines {c : Conversation T} {rng : R} {msg : MessageHeader}
    {group : Option String} (h : receiveAction conf t msg c group rng = .ok (out, thread')) :
    ∃ v o, Mgen.receiveAction msg c conf.ourId group 0 v = some (o, thread'.machine) ∧
      Emits conf (.inbound msg) out.action o out.puts := by
  obtain ⟨v, -, hv⟩ := LawfulSampledState.exists_received conf.dists c t rng ⟨0, by decide⟩
  unfold receiveAction at h
  unfold Mgen.receiveAction
  cases hb : msg.body with
  | size size =>
    rw [hb] at h
    obtain ⟨w, hw, h⟩ := bind_eq_ok h
    obtain ⟨x, hx, h⟩ := bind_eq_ok h
    obtain ⟨put, hput, h⟩ := bind_eq_ok h
    cases h
    refine ⟨v, some (.reply msg.sender x), ?_, ?_⟩
    · simp only [orPanic_eq_ok hx, Option.map_some, ← hv]
      rfl
    · rw [StateToWriter.send_eq_ok hput]
      exact .reply msg w x (by simp [hb]) hw
  | receipt =>
    rw [hb] at h
    cases h
    exact ⟨v, none, by rw [LawfulSampledState.toMachine_eq], .receipt msg hb⟩

/-- **Refinement.** What a round does is what the abstract machine does for some samples. -/
theorem manage_refines (h : manage conf thread t = .ok (out, thread')) :
    ∃ v o, thread.machine.manage conf.p2p t.wakeup conf.ourId conf.group 0 v =
        some (o, thread'.machine) ∧ Emits conf t.wakeup out.action o out.puts := by
  unfold manage at h
  cases hmachine : thread.machine with
  | idle c =>
    simp only [hmachine, manageIdleConversation] at h
    obtain ⟨⟨out', thread''⟩, haction, heq⟩ := map_eq_ok h
    cases heq
    cases hwake : t.wakeup with
    | timer =>
      rw [hwake] at haction
      obtain ⟨v, o, hround, hemits⟩ := sendAction_refines haction
      exact ⟨v, o, hround, hemits⟩
    | inbound msg =>
      rw [hwake] at haction
      obtain ⟨v, o, hround, hemits⟩ := receiveAction_refines haction
      exact ⟨v, o, hround, hemits⟩
  | active c =>
    simp only [hmachine, manageActiveConversation] at h
    simp only [StateMachine.manage, Mgen.manageActiveConversation]
    cases hwake : t.wakeup with
    | timer =>
      rw [hwake] at h
      by_cases hd : c.delay < c.state.wait
      · simp only [Conversation.sleep, if_pos hd] at h ⊢
        exact sendAction_refines h
      · simp only [Conversation.sleep, if_neg hd] at h ⊢
        cases h
        refine ⟨⟨⟨0, by decide⟩, t.now₁ + (conf.dists.i thread.rng).1, 0, 0, 0, true, true⟩, none,
          ?_, .idle⟩
        simp [Conversation.waited, Conversation.sampledWaited]
    | inbound msg =>
      rw [hwake] at h
      exact receiveAction_refines h

end StateThread

end SignalSim.Mgen
