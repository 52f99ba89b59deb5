import SignalSim.Foundations.Fifo
import SignalSim.Foundations.Transition
import SignalSim.Mgen.Messenger.Run
import SignalSim.Mgen.Peer.ProcessConfig
import SignalSim.Mgen.Updater

/-!
# A network of peers

The tasks that `process_config` has spawned for any number of users, and the connections between
them: the conversations with their state machines, and for each recipient a reader and a writer,
with one listener for each user. Tasks and channels go by the numbers that they have in the tables
of their user.

Every message carries the conversation that it is from. Nothing looks at that. A connection that a
writer gives up before `connect` returns is left out, and so is what a conversation has put on some
of its channels before it panics.

## Main definitions

* `Net` — the tasks of all users and the connections between them
* `Net.step` — one step of a task or of the network
* `peerNetwork` — the network as a transition system
-/

namespace SignalSim.Mgen.Peer

open Function (update)

/-- A connection, which one user has opened to the listener of another. Connections are numbered. -/
structure Conn (ι : Type) where
  id : ℕ
  opener : ι
  acceptor : ι
  deriving DecidableEq

/-- One end of a connection: that of the user who has opened it or the other. -/
structure End (ι : Type) where
  conn : Conn ι
  opened : Bool
  deriving DecidableEq

namespace End

variable {ι : Type}

def other (h : End ι) : End ι := ⟨h.conn, !h.opened⟩

/-- The user at this end. -/
def here (h : End ι) : ι := if h.opened then h.conn.opener else h.conn.acceptor

/-- The user at the other end. -/
def there (h : End ι) : ι := h.other.here

end End

/-- A value of a user's conversation, by the number of the conversation. -/
structure Tagged (ι α : Type) where
  user : ι
  conversation : ℕ
  val : α
  deriving DecidableEq

/-- Where a conversation is. -/
inductive ConversationState (R : Type)
  | running (thread : StateThread R)
  | panicked (p : Panic)

/-- Where a writer is. Without a stream it is in `establish_connection`. -/
inductive WriterState (ι : Type)
  /-- Waits for its first message. -/
  | first
  /-- `maybe_recv`. -/
  | checking (m : Tagged ι (Arc SerializedMessage))
  /-- Connects for the first time, or gets a stream from the listener. -/
  | attempting (m : Tagged ι (Arc SerializedMessage))
  /-- Waits to try again, or gets a stream from the listener. -/
  | sleeping (m : Tagged ι (Arc SerializedMessage))
  /-- Connects after having waited. -/
  | connecting (m : Tagged ι (Arc SerializedMessage))
  /-- About to write the identifier, on the first attempt or a later one. -/
  | identifying (m : Tagged ι (Arc SerializedMessage)) (stream : End ι) (again : Bool)
  /-- About to send the read half to the reader. -/
  | handing (m : Tagged ι (Arc SerializedMessage)) (stream : End ι)
  | writing (m : Tagged ι (Arc SerializedMessage)) (stream : End ι)
  /-- Waits for the next message. -/
  | receiving (stream : End ι)
  | panicked

/-- The ways in which a reader panics. -/
inductive ReaderPanic
  | unknownGroup (group : String)
  | channelClosed
  deriving DecidableEq

/-- Where a reader is. -/
inductive ReaderState (ι : Type)
  /-- Waits for a stream. -/
  | waiting
  | reading (stream : End ι)
  | panicked (p : ReaderPanic)
  deriving DecidableEq

/-- Where a listener is. -/
inductive ListenerState (ι : Type)
  | accepting
  /-- Reads the identifier. -/
  | parsing (stream : End ι)
  /-- About to send the read half to the reader, and then the write half to the writer. -/
  | handRd (stream : End ι) (updaters : ℕ × ℕ)
  | handWr (stream : End ι) (updaters : ℕ × ℕ)
  /-- Got a connection from an unknown contact. -/
  | panicked (name : String)
  deriving DecidableEq

/-- The tasks of all users, by the user and the number of the task, channel or updater. -/
structure Net (ι R : Type) where
  conversation : ι × ℕ → ConversationState R
  /-- From the readers to a conversation. -/
  inbox : ι × ℕ → Fifo (Tagged ι MessageHeader)
  /-- From the conversations to a writer. -/
  outbox : ι × ℕ → Fifo (Tagged ι (Arc SerializedMessage))
  writer : ι × ℕ → WriterState ι
  /-- From the listener to a writer. -/
  wrUpdater : ι × ℕ → Updater (End ι)
  /-- From the listener and a writer to a reader. -/
  rdUpdater : ι × ℕ → Updater (End ι)
  reader : ι × ℕ → ReaderState ι
  listener : ι → ListenerState ι
  /-- The connections that wait to be accepted. -/
  backlog : ι → List (Conn ι)
  /-- How many connections there have been. -/
  opened : ℕ
  /-- What has been written as the identifier. -/
  identifier : Conn ι → Option String
  broken : Conn ι → Bool
  /-- What has been written at an end, and how much of it has been read at the other. -/
  link : End ι → Fifo (Tagged ι (Arc SerializedMessage))

inductive NetAction (ι : Type)
  /-- A round of a conversation. -/
  | round (i : ι) (k : ℕ) (t : Moment)
  | takeMessage (i : ι) (n : ℕ)
  /-- `maybe_recv`. -/
  | check (i : ι) (n : ℕ)
  /-- `connect` reaches the listener of a user. -/
  | connect (i : ι) (n : ℕ) (j : ι)
  /-- `connect` fails with a recoverable error. -/
  | connectFailed (i : ι) (n : ℕ)
  /-- `connect` fails with a fatal error. -/
  | connectFatal (i : ι) (n : ℕ)
  /-- The updater interrupts the first attempt or the wait. -/
  | takeStream (i : ι) (n : ℕ)
  /-- The wait is over. -/
  | wake (i : ι) (n : ℕ)
  | identify (i : ι) (n : ℕ)
  | identifyError (i : ι) (n : ℕ)
  | handOver (i : ι) (n : ℕ)
  /-- `write_all_to` succeeds. -/
  | write (i : ι) (n : ℕ)
  | writeError (i : ι) (n : ℕ)
  | accept (i : ι)
  /-- `parse_identifier` succeeds. -/
  | parse (i : ι)
  | parseError (i : ι)
  | handRd (i : ι)
  | handWr (i : ι)
  | takeReadHalf (i : ι) (n : ℕ)
  /-- `get_message` succeeds. -/
  | read (i : ι) (n : ℕ)
  | readError (i : ι) (n : ℕ)
  /-- The network breaks a connection, or the tasks of one user have dropped it. -/
  | disconnect (c : Conn ι)

/-- The header that `get_message` finds in a message as it is sent. -/
def decode (m : Arc SerializedMessage) : Except Error MessageHeader :=
  MessageHeader.deserialize (m.val.header.drop 4)

namespace Net

variable {ι R : Type} [DecidableEq ι]

section

variable (s : Net ι R)

def toWriter (x : ι × ℕ) (w : WriterState ι) : Net ι R := { s with writer := update s.writer x w }

def toReader (x : ι × ℕ) (r : ReaderState ι) : Net ι R := { s with reader := update s.reader x r }

def toListener (i : ι) (l : ListenerState ι) : Net ι R :=
  { s with listener := update s.listener i l }

def toConversation (x : ι × ℕ) (c : ConversationState R) : Net ι R :=
  { s with conversation := update s.conversation x c }

def setWrUpdater (x : ι × ℕ) (u : Updater (End ι)) : Net ι R :=
  { s with wrUpdater := update s.wrUpdater x u }

def setRdUpdater (x : ι × ℕ) (u : Updater (End ι)) : Net ι R :=
  { s with rdUpdater := update s.rdUpdater x u }

def setInbox (x : ι × ℕ) (q : Fifo (Tagged ι MessageHeader)) : Net ι R :=
  { s with inbox := update s.inbox x q }

def setOutbox (x : ι × ℕ) (q : Fifo (Tagged ι (Arc SerializedMessage))) : Net ι R :=
  { s with outbox := update s.outbox x q }

def setLink (h : End ι) (q : Fifo (Tagged ι (Arc SerializedMessage))) : Net ι R :=
  { s with link := update s.link h q }

def setBacklog (i : ι) (cs : List (Conn ι)) : Net ι R :=
  { s with backlog := update s.backlog i cs }

end

/-- Put what a round has put out on the channels to the writers. -/
def putAll (s : Net ι R) (i : ι) (k : ℕ) : List (ℕ × Arc SerializedMessage) → Net ι R
  | [] => s
  | (channel, m) :: puts =>
    putAll (s.setOutbox (i, channel) ((s.outbox (i, channel)).push ⟨i, k, m⟩)) i k puts

/-- What a conversation wakes up for: its timer, or the first message that waits. -/
def wakeUp (s : Net ι R) (x : ι × ℕ) : Wakeup → Option (Net ι R)
  | .timer => some s
  | .inbound msg =>
    (s.inbox x).pop?.bind fun (m, q) => if m.val = msg then some (s.setInbox x q) else none

/-- One round of a conversation. -/
def round (s : Net ι R) (i : ι) (k : ℕ) (task : ConversationTask R) (t : Moment) :
    Option (Net ι R) :=
  match s.conversation (i, k) with
  | .panicked _ => none
  | .running thread =>
    (s.wakeUp (i, task.stateFromReader) t.wakeup).map fun s =>
      match StateThread.manage task.conf thread t with
      | .error p => s.toConversation (i, k) (.panicked p)
      | .ok (out, thread) => (s.putAll i k out.puts).toConversation (i, k) (.running thread)

/-- A conversation has not panicked. -/
def isRunning (s : Net ι R) (x : ι × ℕ) : Bool :=
  match s.conversation x with
  | .running _ => true
  | .panicked _ => false

/-- A reader gets a message. -/
def deliver (s : Net ι R) (i : ι) (n : ℕ) (io : IoThreads) (m : Tagged ι MessageHeader) :
    Net ι R :=
  match io.readerToStates.lookup m.val.group with
  | none => s.toReader (i, n) (.panicked (.unknownGroup m.val.group))
  | some channel =>
    if s.isRunning (i, channel) then s.setInbox (i, channel) ((s.inbox (i, channel)).push m)
    else s.toReader (i, n) (.panicked .channelClosed)

/-- A writer has opened a connection to the listener of `j`. -/
def connected (s : Net ι R) (i : ι) (n : ℕ) (j : ι) (m : Tagged ι (Arc SerializedMessage))
    (again : Bool) : Net ι R :=
  let c : Conn ι := ⟨s.opened, i, j⟩
  { (s.toWriter (i, n) (.identifying m ⟨c, true⟩ again)).setBacklog j (s.backlog j ++ [c]) with
    opened := s.opened + 1 }

/-- One step. `net` has the tasks of the users, and `forwards` the listening addresses that a
connection to an address can reach. -/
def step (net : ι → Option (Spawned R)) (forwards : String → String → Bool) (s : Net ι R) :
    NetAction ι → Option (Net ι R)
  | .round i k t => do
    let p ← net i
    let task ← p.conversations[k]?
    s.round i k task t
  | .takeMessage i n => do
    let p ← net i
    let io ← p.io[n]?
    let (m, q) ← (s.outbox (i, io.writerFromState)).pop?
    match s.writer (i, n) with
    | .first => some ((s.setOutbox (i, io.writerFromState) q).toWriter (i, n) (.checking m))
    | .receiving h => some ((s.setOutbox (i, io.writerFromState) q).toWriter (i, n) (.writing m h))
    | _ => none
  | .check i n => do
    let p ← net i
    let io ← p.io[n]?
    match s.writer (i, n), (s.wrUpdater (i, io.writerUpdater)).maybeRecv with
    | .checking m, (some h, u) =>
      some ((s.setWrUpdater (i, io.writerUpdater) u).toWriter (i, n) (.writing m h))
    | .checking m, (none, u) =>
      some ((s.setWrUpdater (i, io.writerUpdater) u).toWriter (i, n) (.attempting m))
    | _, _ => none
  | .connect i n j => do
    let p ← net i
    let io ← p.io[n]?
    let q ← net j
    if forwards io.strParams.target q.address then
      match s.writer (i, n) with
      | .attempting m => some (s.connected i n j m false)
      | .connecting m => some (s.connected i n j m true)
      | _ => none
    else none
  | .connectFailed i n =>
    match s.writer (i, n) with
    | .attempting m | .connecting m => some (s.toWriter (i, n) (.sleeping m))
    | _ => none
  | .connectFatal i n =>
    match s.writer (i, n) with
    | .attempting _ | .connecting _ => some (s.toWriter (i, n) .panicked)
    | _ => none
  | .takeStream i n => do
    let p ← net i
    let io ← p.io[n]?
    match s.writer (i, n), (s.wrUpdater (i, io.writerUpdater)).recv with
    | .attempting m, (some h, u) | .sleeping m, (some h, u) =>
      some ((s.setWrUpdater (i, io.writerUpdater) u).toWriter (i, n) (.writing m h))
    | _, _ => none
  | .wake i n =>
    match s.writer (i, n) with
    | .sleeping m => some (s.toWriter (i, n) (.connecting m))
    | _ => none
  | .identify i n => do
    let p ← net i
    let io ← p.io[n]?
    match s.writer (i, n) with
    | .identifying m h _ =>
      some { s.toWriter (i, n) (.handing m h) with
        identifier := update s.identifier h.conn (some io.strParams.user) }
    | _ => none
  | .identifyError i n =>
    match s.writer (i, n) with
    | .identifying m h again =>
      if s.broken h.conn then
        -- only on a later attempt is the error a recoverable one
        some (s.toWriter (i, n) (if again then .sleeping m else .panicked))
      else none
    | _ => none
  | .handOver i n => do
    let p ← net i
    let io ← p.io[n]?
    match s.writer (i, n) with
    | .handing m h => some ((s.setRdUpdater (i, io.readerUpdater)
        ((s.rdUpdater (i, io.readerUpdater)).send h)).toWriter (i, n) (.writing m h))
    | _ => none
  | .write i n => do
    let p ← net i
    let _ ← p.io[n]?
    match s.writer (i, n) with
    | .writing m h => some ((s.setLink h ((s.link h).push m)).toWriter (i, n) (.receiving h))
    | _ => none
  | .writeError i n =>
    match s.writer (i, n) with
    | .writing m h =>
      if s.broken h.conn then some (s.toWriter (i, n) (.checking m)) else none
    | _ => none
  | .accept i =>
    match s.listener i, s.backlog i with
    | .accepting, c :: rest => some ((s.setBacklog i rest).toListener i (.parsing ⟨c, false⟩))
    | _, _ => none
  | .parse i => do
    let p ← net i
    match s.listener i with
    | .parsing h =>
      (s.identifier h.conn).map fun name =>
        match p.nameToIoThreads.lookup name with
        | none => s.toListener i (.panicked name)
        | some updaters => s.toListener i (.handRd h updaters)
    | _ => none
  | .parseError i =>
    match s.listener i with
    | .parsing h => if s.broken h.conn then some (s.toListener i .accepting) else none
    | _ => none
  | .handRd i =>
    match s.listener i with
    | .handRd h u => some ((s.setRdUpdater (i, u.1) ((s.rdUpdater (i, u.1)).send h)).toListener i
        (.handWr h u))
    | _ => none
  | .handWr i =>
    match s.listener i with
    | .handWr h u => some ((s.setWrUpdater (i, u.2) ((s.wrUpdater (i, u.2)).send h)).toListener i
        .accepting)
    | _ => none
  | .takeReadHalf i n => do
    let p ← net i
    let io ← p.io[n]?
    match s.reader (i, n), (s.rdUpdater (i, io.readerUpdater)).recv with
    | .waiting, (some h, u) =>
      some ((s.setRdUpdater (i, io.readerUpdater) u).toReader (i, n) (.reading h))
    | _, _ => none
  | .read i n => do
    let p ← net i
    let io ← p.io[n]?
    match s.reader (i, n) with
    | .reading h =>
      (s.link h.other).pop?.map fun (m, q) =>
        match decode m.val with
        -- what cannot be decoded ends the loop over the messages of the stream
        | .error _ => (s.setLink h.other q).toReader (i, n) .waiting
        | .ok msg => (s.setLink h.other q).deliver i n io ⟨m.user, m.conversation, msg⟩
    | _ => none
  | .readError i n =>
    match s.reader (i, n) with
    | .reading h => if s.broken h.conn then some (s.toReader (i, n) .waiting) else none
    | _ => none
  | .disconnect c =>
    if c.id < s.opened then some { s with broken := update s.broken c true } else none

/-- All users before their first message. The conversations have started at the given times and
with the given generators. -/
def init (net : ι → Option (Spawned R)) (start : ι × ℕ → Instant × R) : Net ι R where
  conversation x :=
    match (net x.1).bind (·.conversations[x.2]?) with
    | some task => .running (.start task.conf.dists (start x).1 (start x).2)
    | none => .panicked .closed
  inbox _ := .empty
  outbox _ := .empty
  writer _ := .first
  wrUpdater _ := .new
  rdUpdater _ := .new
  reader _ := .waiting
  listener _ := .accepting
  backlog _ := []
  opened := 0
  identifier _ := none
  broken _ := false
  link _ := .empty

end Net

/-- A network of peers as a transition system. -/
def peerNetwork {ι R : Type} [DecidableEq ι] (net : ι → Option (Spawned R))
    (forwards : String → String → Bool) : System (Net ι R) (NetAction ι) :=
  ⟨fun s a => s.step net forwards a⟩

end SignalSim.Mgen.Peer
