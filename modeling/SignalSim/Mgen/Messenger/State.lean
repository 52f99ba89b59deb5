import SignalSim.Mgen.Wire.Message

/-!
# The conversation state machine

`messenger/state.rs` and `messenger/message.rs`: one end of a conversation is idle or active,
sends a message when its timer fires and answers every message with a receipt. What the
distributions yield and what the clock shows are arguments. Logging is left out.

## Main definitions

* `constructMessage`, `constructReceipt`
* `StateMachine`, `Conversation` — the states
* `sendAction`, `receiveAction` — what is put on the streams, and the next state
* `StateMachine.manage` — one round of the loop of `manage_conversation`

## Main results

* `StateMachine.manage_cases` — what a round can have been
* `StateMachine.manage_receipt` — a receipt changes nothing
-/

namespace SignalSim.Mgen

/-- Points in time and lengths of time, in nanoseconds. -/
abbrev Instant := ℕ
abbrev Duration := ℕ

/-- `NonZeroU32::new`. -/
def NonZeroU32.new (n : UInt32) : Option NonZeroU32 :=
  if h : n = 0 then none else some ⟨n, h⟩

/-- Construct and serialize a message with the given number of blocks. A result `none` is a
panic. -/
def constructMessage (sender group : String) (id blocks : UInt32) : Option SerializedMessage :=
  (NonZeroU32.new (max blocks 1 * paddingBlockSize)).bind fun size =>
    MessageHeader.serialize ⟨sender, group, id, .size size⟩

def constructReceipt (sender recipient : String) (id : UInt32) : Option SerializedMessage :=
  MessageHeader.serialize ⟨sender, recipient, id, .receipt⟩

theorem toNat_max_one (n : UInt32) : (max n 1).toNat = max n.toNat 1 := by
  rw [show max n 1 = if n ≤ 1 then 1 else n from rfl, apply_ite UInt32.toNat]
  simp only [UInt32.le_iff_toNat_le, UInt32.toNat_one]
  split <;> omega

/-- The size of a body does not wrap around. -/
theorem toNat_bodySize {blocks : UInt32} (h : blocks ≤ maxBlocksInBody) :
    (max blocks 1 * paddingBlockSize).toNat = max blocks.toNat 1 * 160 := by
  have hle : blocks.toNat ≤ maxBlocksInBody.toNat := UInt32.le_iff_toNat_le.mp h
  have hblock : paddingBlockSize.toNat = 160 := by decide
  have hmax : maxBlocksInBody.toNat = 655360 := by decide
  have hlt : max blocks.toNat 1 * 160 < 2 ^ 32 := by omega
  rw [UInt32.toNat_mul, toNat_max_one, hblock, Nat.mod_eq_of_lt hlt]

/-- The body of a message that is constructed. -/
theorem body_of_constructMessage {sender group : String} {id blocks : UInt32}
    {x : SerializedMessage} (h : constructMessage sender group id blocks = some x)
    (hblocks : blocks ≤ maxBlocksInBody) : x.body.totalSize = max blocks.toNat 1 * 160 := by
  obtain ⟨size, hsize, hx⟩ := Option.bind_eq_some_iff.mp h
  unfold NonZeroU32.new at hsize
  split at hsize
  case isTrue => cases hsize
  case isFalse =>
    obtain rfl := Option.some_inj.mp hsize
    obtain ⟨-, hx⟩ := Option.ite_none_right_eq_some.mp hx
    obtain rfl := Option.some_inj.mp hx
    exact toNat_bodySize hblocks

/-! ### States -/

/-- What the distributions of a conversation yield when they are sampled next. -/
structure Samples where
  /-- The number of blocks; the distribution caps what it samples. -/
  m : {n : UInt32 // n ≤ maxBlocksInBody}
  i : Duration
  w : Duration
  aS : Duration
  aR : Duration
  s : Bool
  r : Bool

structure Idle where
  deriving DecidableEq

structure Active where
  wait : Instant
  deriving DecidableEq

/-- The conversation state and its transitions. -/
structure Conversation (S : Type) where
  delay : Instant
  nextId : UInt32
  state : S
  deriving DecidableEq

/-- All possible conversation states. -/
inductive StateMachine
  | idle (conversation : Conversation Idle)
  | active (conversation : Conversation Active)
  deriving DecidableEq

/-- The trait `State`: how the machine goes on from a state. -/
class State (S : Type) where
  sent : Conversation S → Instant → Samples → StateMachine
  received : Conversation S → Instant → Samples → StateMachine
  toMachine : Conversation S → StateMachine

instance : State Idle where
  sent c now v :=
    let nextId := c.nextId + 1
    if v.s then .active ⟨now + v.aS, nextId, ⟨now + v.w⟩⟩
    else .idle ⟨now + v.i, nextId, ⟨⟩⟩
  received c now v :=
    if v.r then .active ⟨now + v.aR, c.nextId, ⟨now + v.w⟩⟩ else .idle c
  toMachine := .idle

instance : State Active where
  sent c now v := .active ⟨now + v.aS, c.nextId + 1, c.state⟩
  received c now v := .active ⟨now + v.aR, c.nextId, c.state⟩
  toMachine := .active

namespace Conversation

def start (now : Instant) (v : Samples) : Conversation Idle := ⟨now + v.i, 0, ⟨⟩⟩

def waited (c : Conversation Active) (now : Instant) (v : Samples) : Conversation Idle :=
  ⟨now + v.i, c.nextId, ⟨⟩⟩

end Conversation

namespace StateMachine

def start (now : Instant) (v : Samples) : StateMachine := .idle (.start now v)

/-- The id of the next message. -/
def nextId : StateMachine → UInt32
  | idle c => c.nextId
  | active c => c.nextId

end StateMachine

/-! ### Actions -/

/-- What an action puts on the streams of the conversation. In client-server mode there is
one stream. -/
inductive Outgoing
  /-- On every stream. -/
  | broadcast (m : SerializedMessage)
  /-- On the stream to a member. -/
  | reply (name : String) (m : SerializedMessage)
  deriving DecidableEq

def Outgoing.message : Outgoing → SerializedMessage
  | broadcast m | reply _ m => m

/-- What is put on the streams, if anything, and the next state; `none` is a panic. -/
abbrev Outcome := Option (Option Outgoing × StateMachine)

section Actions

variable {S : Type} [State S]

def sendAction (c : Conversation S) (ourId group : String) (now : Instant) (v : Samples) :
    Outcome :=
  (constructMessage ourId group c.nextId v.m).map fun m =>
    (some (.broadcast m), State.sent c now v)

/-- The group is given in client-server mode only. -/
def receiveAction (msg : MessageHeader) (c : Conversation S) (ourId : String)
    (group : Option String) (now : Instant) (v : Samples) : Outcome :=
  match msg.body with
  | .size _ =>
    let recipient := if group.isNone then msg.group else msg.sender
    (constructReceipt ourId recipient msg.id).map fun m =>
      (some (.reply msg.sender m), State.received c now v)
  | .receipt => some (none, State.toMachine c)

end Actions

/-- What a conversation waits for. -/
inductive Wakeup
  | timer
  | inbound (m : MessageHeader)
  deriving DecidableEq

inductive IdleGroupActions
  | send
  | receive (m : MessageHeader)

inductive ActiveGroupActions
  | send
  | receive (m : MessageHeader)
  | idle

/-- What the end of the sleep of an active conversation means. -/
def Conversation.sleep (delay wait : Instant) : ActiveGroupActions :=
  if delay < wait then .send else .idle

/-- Handle a state transition from idle. -/
def manageIdleConversation (p2p : Bool) (c : Conversation Idle) (wakeup : Wakeup)
    (ourId group : String) (now : Instant) (v : Samples) : Outcome :=
  let action : IdleGroupActions :=
    match wakeup with
    | .timer => .send
    | .inbound m => .receive m
  match action with
  | .send => sendAction c ourId group now v
  | .receive m => receiveAction m c ourId (if p2p then none else some group) now v

/-- Handle a state transition from active. -/
def manageActiveConversation (p2p : Bool) (c : Conversation Active) (wakeup : Wakeup)
    (ourId group : String) (now : Instant) (v : Samples) : Outcome :=
  let action : ActiveGroupActions :=
    match wakeup with
    | .timer => Conversation.sleep c.delay c.state.wait
    | .inbound m => .receive m
  match action with
  | .send => sendAction c ourId group now v
  | .receive m => receiveAction m c ourId (if p2p then none else some group) now v
  | .idle => some (none, .idle (c.waited now v))

namespace StateMachine

/-- One round of the loop of `manage_conversation`. -/
def manage (p2p : Bool) (machine : StateMachine) (wakeup : Wakeup) (ourId group : String)
    (now : Instant) (v : Samples) : Outcome :=
  match machine with
  | idle c => manageIdleConversation p2p c wakeup ourId group now v
  | active c => manageActiveConversation p2p c wakeup ourId group now v

end StateMachine

/-! ### What a round can have been -/

/-- The rounds of a conversation whose next message has the id `n`: what they put on the
streams, and the next id after them. -/
inductive Round (p2p : Bool) (ourId group : String) (n : UInt32) :
    Wakeup → Option Outgoing → UInt32 → Prop
  | sent {size x} : MessageHeader.serialize ⟨ourId, group, n, .size size⟩ = some x →
      Round p2p ourId group n .timer (some (.broadcast x)) (n + 1)
  | waited : Round p2p ourId group n .timer none n
  | received {m : MessageHeader} {x} : m.body ≠ .receipt →
      constructReceipt ourId (if p2p then m.group else m.sender) m.id = some x →
      Round p2p ourId group n (.inbound m) (some (.reply m.sender x)) n
  | receipt {m : MessageHeader} : m.body = .receipt → Round p2p ourId group n (.inbound m) none n

/-- Neither state changes the id but by sending. -/
class LawfulState (S : Type) [State S] : Prop where
  nextId_sent (c : Conversation S) (now : Instant) (v : Samples) :
    (State.sent c now v).nextId = c.nextId + 1
  nextId_received (c : Conversation S) (now : Instant) (v : Samples) :
    (State.received c now v).nextId = c.nextId
  nextId_toMachine (c : Conversation S) : (State.toMachine c).nextId = c.nextId

instance : LawfulState Idle where
  nextId_sent c now v := by
    unfold State.sent
    by_cases hs : v.s = true <;> simp [instStateIdle, hs, StateMachine.nextId]
  nextId_received c now v := by
    by_cases hr : v.r = true <;> simp [State.received, hr, StateMachine.nextId]
  nextId_toMachine _ := rfl

instance : LawfulState Active where
  nextId_sent _ _ _ := rfl
  nextId_received _ _ _ := rfl
  nextId_toMachine _ := rfl

section Actions

variable {S : Type} [State S] [LawfulState S] {c : Conversation S} {p2p : Bool}
  {ourId group : String} {now : Instant} {v : Samples} {o : Option Outgoing} {t : StateMachine}

theorem sendAction_cases (h : sendAction c ourId group now v = some (o, t)) :
    Round p2p ourId group c.nextId .timer o t.nextId := by
  obtain ⟨x, hx, heq⟩ := Option.map_eq_some_iff.mp h
  obtain ⟨rfl, rfl⟩ := Prod.mk.inj heq
  obtain ⟨size, -, hx⟩ := Option.bind_eq_some_iff.mp hx
  rw [LawfulState.nextId_sent]
  exact .sent hx

theorem receiveAction_cases {m : MessageHeader}
    (h : receiveAction m c ourId (if p2p then none else some group) now v = some (o, t)) :
    Round p2p ourId group c.nextId (.inbound m) o t.nextId := by
  unfold receiveAction at h
  split at h
  case h_1 size hb =>
    obtain ⟨x, hx, heq⟩ := Option.map_eq_some_iff.mp h
    obtain ⟨rfl, rfl⟩ := Prod.mk.inj heq
    rw [LawfulState.nextId_received]
    refine .received (by simp [hb]) ?_
    cases p2p <;> exact hx
  case h_2 hb =>
    obtain ⟨rfl, rfl⟩ := Prod.mk.inj (Option.some_inj.mp h)
    rw [LawfulState.nextId_toMachine]
    exact .receipt hb

end Actions

namespace StateMachine

variable {p2p : Bool} {machine t : StateMachine} {wakeup : Wakeup} {ourId group : String}
  {now : Instant} {v : Samples} {o : Option Outgoing} {m : MessageHeader}

/-- **Inversion.** What a round can have been. -/
theorem manage_cases (h : machine.manage p2p wakeup ourId group now v = some (o, t)) :
    Round p2p ourId group machine.nextId wakeup o t.nextId := by
  cases machine with
  | idle c =>
    cases wakeup with
    | timer => exact sendAction_cases (S := Idle) h
    | inbound m => exact receiveAction_cases (S := Idle) h
  | active c =>
    cases wakeup with
    | timer =>
      -- the sleep ends at the next send or at the end of the active period
      by_cases hd : c.delay < c.state.wait
      · simp only [manage, manageActiveConversation, Conversation.sleep, hd, if_true] at h
        exact sendAction_cases (S := Active) h
      · simp only [manage, manageActiveConversation, Conversation.sleep, hd, if_false] at h
        obtain ⟨rfl, rfl⟩ := Prod.mk.inj (Option.some_inj.mp h)
        exact .waited
    | inbound m => exact receiveAction_cases (S := Active) h

/-- A receipt changes nothing and is not answered. -/
theorem manage_receipt (hm : m.body = .receipt) :
    machine.manage p2p (.inbound m) ourId group now v = some (none, machine) := by
  cases machine with
  | idle c => simp only [manage, manageIdleConversation, receiveAction, hm]; rfl
  | active c => simp only [manage, manageActiveConversation, receiveAction, hm]; rfl

end StateMachine

end SignalSim.Mgen
