import SignalSim.Mgen.Messenger.State
import SignalSim.Mgen.Server.Registration

/-!
# Conversations and the server

Any number of conversations of `mgen-client.rs`, one for each pair of a user and a group, with
the server between them. As long as no connection breaks, the channel to the writer, the writer
and the connection to the server hand messages on one by one and in order, and so do the
connection from the server, the reader and the channel to the conversation. Either chain is kept
as one channel. Time is not kept: a timer may fire at any moment.

## Main definitions

* `Network` — the server, the conversations and the messages in flight
* `Network.step` — one step of any of them
* `Network.Undisturbed` — every pair is configured once, all register in time and no connection
  breaks

## Main results

* `Network.step_cases` — the inversion lemma of `Network.step`
-/

namespace SignalSim.Mgen

open Function (update)

/-- Where `manage_conversation` is. -/
inductive ConversationTask
  /-- Sleeps for the bootstrap period. -/
  | asleep
  | running (machine : StateMachine)
  | panicked
  deriving DecidableEq

/-- The id of the conversation's next message, unless it has panicked. -/
def ConversationTask.nextId? : ConversationTask → Option UInt32
  | asleep => some 0
  | running machine => some machine.nextId
  | panicked => none

/-- The server and the conversations. -/
structure Network where
  server : Server
  conversation : Handshake → ConversationTask
  /-- From the conversation to the receiver of its connection. -/
  outbound : Handshake → Fifo SerializedMessage
  /-- From the sender of its connection to the conversation. -/
  inbound : Handshake → Fifo MessageHeader

inductive NetworkAction
  /-- A step of the server. What it reads and writes are messages of the conversations. -/
  | server (a : ServerAction)
  /-- The bootstrap period of a conversation is over. -/
  | awake (h : Handshake) (now : Instant) (v : Samples)
  /-- The timer of a conversation fires. -/
  | timer (h : Handshake) (now : Instant) (v : Samples)
  /-- A conversation takes a message from its channel. -/
  | receive (h : Handshake) (now : Instant) (v : Samples)

namespace Network

def init : Network where
  server := .init
  conversation _ := .asleep
  outbound _ := .empty
  inbound _ := .empty

/-- The stream of a conversation after something may have been put on it. -/
def stream (s : Network) (h : Handshake) : Option Outgoing → Fifo SerializedMessage
  | none => s.outbound h
  | some o => (s.outbound h).push o.message

/-- The conversation has come to the end of a round. -/
def settle (s : Network) (h : Handshake) : Outcome → Network
  | none => { s with conversation := update s.conversation h .panicked }
  | some (o, machine) =>
    { s with conversation := update s.conversation h (.running machine)
             outbound := update s.outbound h (s.stream h o) }

/-- The server reads a message that the client of `h` has written. -/
def readFrom (s : Network) (h : Handshake) (q : Fifo SerializedMessage) (t : Server) : Network :=
  { s with server := t, outbound := update s.outbound h q }

/-- The server writes a message to the client of `h`. -/
def writeTo (s : Network) (h : Handshake) (m : MessageHeader) (t : Server) : Network :=
  { s with server := t, inbound := update s.inbound h ((s.inbound h).push m) }

/-- The conversation takes a message. -/
def take (s : Network) (h : Handshake) (q : Fifo MessageHeader) : Network :=
  { s with inbound := update s.inbound h q }

/-- One step. -/
def step (s : Network) : NetworkAction → Option Network
  | .server (.read i m) =>
    match s.server.handshake i with
    | some h =>
      match (s.outbound h).pop? with
      | some (x, q) =>
        if x.header? = some m then (s.server.step (.read i m)).map (s.readFrom h q) else none
      | none => none
    | none => none
  | .server (.written i) =>
    match s.server.sender i with
    | .writing k m =>
      match s.server.handshake k with
      | some h => (s.server.step (.written i)).map (s.writeTo h m)
      | none => none
    | _ => none
  -- conversations put only messages on their streams
  | .server (.readMalformed ..) => none
  | .server a => (s.server.step a).map fun t => { s with server := t }
  | .awake h now v =>
    match s.conversation h with
    | .asleep =>
      some { s with conversation := update s.conversation h (.running (.start now v)) }
    | _ => none
  | .timer h now v =>
    match s.conversation h with
    | .running machine =>
      some (s.settle h (machine.manage false .timer h.sender h.group now v))
    | _ => none
  | .receive h now v =>
    match s.conversation h, (s.inbound h).pop? with
    | .running machine, some (m, q) => some
        ((s.take h q).settle h (machine.manage false (.inbound m) h.sender h.group now v))
    | _, _ => none

/-- The step is one in which the server reads from a client or writes to it. -/
def Transfers : ServerAction → Prop
  | .read _ _ | .readMalformed _ _ | .written _ => True
  | _ => False

/-- The ways in which the network steps. -/
inductive Step (s : Network) : NetworkAction → Network → Prop
  | server {a t} : ¬ Transfers a → Server.Step s.server a t →
      Step s (.server a) { s with server := t }
  | read {i h x q m t} : s.server.handshake i = some h → (s.outbound h).pop? = some (x, q) →
      x.header? = some m → Server.Step s.server (.read i m) t →
      Step s (.server (.read i m)) (s.readFrom h q t)
  | written {i k m h t} : s.server.sender i = .writing k m → s.server.handshake k = some h →
      Server.Step s.server (.written i) t → Step s (.server (.written i)) (s.writeTo h m t)
  | awake {h now v} : s.conversation h = .asleep → Step s (.awake h now v)
      { s with conversation := update s.conversation h (.running (.start now v)) }
  | timer {h now v machine} : s.conversation h = .running machine → Step s (.timer h now v)
      (s.settle h (machine.manage false .timer h.sender h.group now v))
  | receive {h now v machine m q} : s.conversation h = .running machine →
      (s.inbound h).pop? = some (m, q) → Step s (.receive h now v)
        ((s.take h q).settle h (machine.manage false (.inbound m) h.sender h.group now v))

/-- **Inversion.** What a step can have been. -/
theorem step_cases {s t : Network} {a : NetworkAction} (h : s.step a = some t) : Step s a t := by
  cases a with
  | server a =>
    cases a with
    | read i m =>
      simp only [step] at h
      split at h
      · split at h
        · obtain ⟨hx, h⟩ := Option.ite_none_right_eq_some.mp h
          obtain ⟨u, hu, rfl⟩ := Option.map_eq_some_iff.mp h
          exact .read ‹_› ‹_› hx (Server.step_cases hu)
        · cases h
      · cases h
    | written i =>
      simp only [step] at h
      split at h
      · split at h
        · obtain ⟨u, hu, rfl⟩ := Option.map_eq_some_iff.mp h
          exact .written ‹_› ‹_› (Server.step_cases hu)
        · cases h
      · cases h
    | readMalformed i bytes => cases h
    | _ =>
      simp only [step] at h
      obtain ⟨u, hu, rfl⟩ := Option.map_eq_some_iff.mp h
      exact .server id (Server.step_cases hu)
  | awake h' now v =>
    simp only [step] at h
    split at h
    · exact Option.some_inj.mp h ▸ .awake ‹_›
    · cases h
  | timer h' now v =>
    simp only [step] at h
    split at h
    · exact Option.some_inj.mp h ▸ .timer ‹_›
    · cases h
  | receive h' now v =>
    simp only [step] at h
    split at h
    · exact Option.some_inj.mp h ▸ .receive ‹_› ‹_›
    · cases h

/-- Only configured conversations connect and wake up, each connects once, all are registered
when the registration phase ends, and no connection breaks. -/
def Undisturbed (config : List Handshake) (s : Network) : NetworkAction → Prop
  | .server (.handshake _ h) =>
    h ∈ config ∧ ∀ j < s.server.accepted, s.server.handshake j ≠ some h
  | .server .endRegistration => ∀ h ∈ config, (s.server.storedChannel h).isSome
  | .server (.disconnect _) => False
  | .awake h _ _ => h ∈ config
  | _ => True

instance (config : List Handshake) (s : Network) (a : NetworkAction) :
    Decidable (s.Undisturbed config a) :=
  match a with
  | .server (.handshake ..) => inferInstanceAs (Decidable (_ ∧ ∀ j < _, _))
  | .server .endRegistration => inferInstanceAs (Decidable (∀ h ∈ _, _))
  | .server (.disconnect _) => .isFalse id
  | .awake .. => inferInstanceAs (Decidable (_ ∈ _))
  | .server .accept | .server (.refuse _) | .server (.handle _) | .server (.poll _)
  | .server (.snapshot ..) | .server (.read ..) | .server (.readError _)
  | .server (.readMalformed ..) | .server (.put _) | .server (.terminate _)
  | .server (.takeSocket _) | .server (.takeMessage _) | .server (.channelClosed _)
  | .server (.written _) | .server (.writeError _) | .timer .. | .receive .. =>
    .isTrue trivial

end Network

/-- The conversations and the server as a transition system. -/
def networkSystem : System Network NetworkAction := ⟨Network.step⟩

end SignalSim.Mgen
