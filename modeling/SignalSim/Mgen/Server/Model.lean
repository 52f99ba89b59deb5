import Mathlib.Data.List.AList
import Mathlib.Logic.Function.Basic
import SignalSim.Foundations.Fifo
import SignalSim.Foundations.Transition
import SignalSim.Mgen.Updater
import SignalSim.Mgen.Wire.Stream

/-!
# The message server

`mgen-server.rs` as a transition system over the main task, the handshake tasks, the
message receivers (`get_messages` inside `spawn_message_receiver`) and the message senders
(`send_messages`). A step is what a task does between two awaits, or less where other
tasks could see the difference.

Connections are numbered in the order in which they are accepted. Each handshake task
creates at most one message channel, one updater, one group table, one receiver and one
sender, so all of these go by the number of the connection they were created for. A hash
map is an association list without duplicate keys; cloning one may permute it.

The phase notification is tokio's: `notify_waiters` wakes the receivers that have polled
their `notified()` by then and leaves nothing behind for later ones.

## Main definitions

* `Server` — the shared tables, the tasks and what they have done so far
* `Server.step` — one step of one task, or of the network
* `Server.Step` — the same as a relation, one constructor for each way to step
-/

namespace SignalSim.Mgen

open Function (update)

/-- Names of users and groups. -/
abbrev ID := String

/-- A table of message channels, by the user they lead to. -/
abbrev GroupSnds := AList fun _ : ID => ℕ

/-- Where `handle_handshake` is for a connection. -/
inductive HandshakeTask
  | absent
  /-- In the TLS handshake or in `get_handshake`. -/
  | accepting
  /-- About to read `writer_db`. -/
  | checkWriterDb (h : Handshake)
  /-- Known client: holds `writer_db` for reading, waits for `snd_db`. -/
  | known (h : Handshake) (updater : ℕ)
  /-- Known client: the new receiver is spawned, the write half is still here. -/
  | handOver (h : Handshake) (updater : ℕ)
  /-- New client: waits to read `snd_db`. -/
  | register (h : Handshake)
  /-- New client: waits for the table of its existing group. -/
  | joinGroup (h : Handshake) (group : ℕ)
  /-- New client: found no group, waits to write `snd_db`. -/
  | createGroup (h : Handshake)
  /-- New client: holds `snd_db` for writing, waits for the table of its group. -/
  | joinNewGroup (h : Handshake) (group : ℕ)
  /-- New client: its channel is in the table of its group. -/
  | spawn (h : Handshake) (group : ℕ)
  /-- New client: its tasks run, waits to write `writer_db`. -/
  | publish (h : Handshake)
  | finished
  deriving DecidableEq

/-- Where the receiver of a connection is. -/
inductive ReceiverTask
  | absent
  /-- Spawned and never polled. -/
  | spawned (group : ℕ)
  /-- Polled: waits for the phase notification. -/
  | waiting (group : ℕ)
  /-- Notified, about to clone the table of its group. -/
  | woken (group : ℕ)
  /-- Waits for a message, with its copy of the table. -/
  | receiving (db : GroupSnds)
  /-- In the loop that forwards a message, with the channels that are left. -/
  | forwarding (db : GroupSnds) (m : MessageHeader) (recipients : List ℕ)
  | ended
  | panicked

/-- Where the sender of a client is. -/
inductive SenderTask
  | absent
  /-- Waits for its first socket. -/
  | starting
  /-- Waits for a message, with its current socket. -/
  | idle (socket : ℕ)
  /-- About to write a message. -/
  | writing (socket : ℕ) (m : MessageHeader)
  /-- The write failed: the message is cached, a new socket is awaited. -/
  | reconnecting (socket : ℕ) (m : MessageHeader)
  /-- The expectation "message channel closed" failed. -/
  | panicked
  deriving DecidableEq

/-- The state of the server. -/
structure Server where
  /-- How many connections have been accepted. -/
  accepted : ℕ
  /-- Whether the registration phase is over and its waiters have been notified. -/
  phaseOver : Bool
  /-- `REGISTRATION_PHASE` of the handshake task of a connection. -/
  registration : ℕ → Bool
  /-- The handshake read on a connection, an argument of its tasks. -/
  handshake : ℕ → Option Handshake
  handler : ℕ → HandshakeTask
  receiver : ℕ → ReceiverTask
  sender : ℕ → SenderTask
  /-- Maps the (sender, group) pair to the socket updater. -/
  writerDb : AList fun _ : Handshake => ℕ
  /-- How many tasks hold `writer_db` for reading across an await. -/
  writerDbReaders : ℕ
  /-- Maps group name to the table of message channels. -/
  sndDb : AList fun _ : ID => ℕ
  /-- Whether a task holds `snd_db` for writing across an await. -/
  sndDbWriter : Bool
  groupSnds : ℕ → GroupSnds
  socketUpdater : ℕ → Updater ℕ
  /-- Whether the socket notify of a connection has been notified. -/
  socketNotify : ℕ → Bool
  /-- The message channels; a message comes with the connection it was received on. -/
  channel : ℕ → Fifo (ℕ × MessageHeader)
  /-- Whether the connection is unbroken. -/
  alive : ℕ → Bool
  /-- The messages that the receiver of a connection has read. -/
  received : ℕ → List MessageHeader
  /-- The messages that a sender has reported as sent, with the socket they went to. -/
  sent : ℕ → List (ℕ × MessageHeader)

/-- The steps of the server's tasks and of the network. -/
inductive ServerAction
  /-- The main task accepts a connection. -/
  | accept
  /-- The main task ends the registration phase. -/
  | endRegistration
  /-- The TLS handshake and `get_handshake` succeed. -/
  | handshake (i : ℕ) (h : Handshake)
  /-- The TLS handshake or `get_handshake` fails. -/
  | refuse (i : ℕ)
  /-- The handshake task takes its next step. -/
  | handle (i : ℕ)
  /-- The receiver is polled for the first time. -/
  | poll (i : ℕ)
  /-- The receiver clones the table of its group, in some order. -/
  | snapshot (i : ℕ) (db : GroupSnds)
  /-- `get_message_bytes` returns a message. -/
  | read (i : ℕ) (m : MessageHeader)
  /-- `get_message_bytes` returns an I/O error. -/
  | readError (i : ℕ)
  /-- The bytes on the connection are no message. -/
  | readMalformed (i : ℕ) (bytes : Bytes)
  /-- The receiver puts the message at hand on the next channel. -/
  | put (i : ℕ)
  /-- The receiver is ended by its socket notify. -/
  | terminate (i : ℕ)
  /-- The sender takes a socket from its updater. -/
  | takeSocket (i : ℕ)
  /-- The sender takes a message from its channel. -/
  | takeMessage (i : ℕ)
  /-- The sender finds its channel empty and without senders. -/
  | channelClosed (i : ℕ)
  /-- The sender's write and flush succeed. -/
  | written (i : ℕ)
  /-- The sender's write or flush fails. -/
  | writeError (i : ℕ)
  /-- The connection breaks. -/
  | disconnect (i : ℕ)

namespace ReceiverTask

/-- The copy of the table that the receiver works with. -/
def db? : ReceiverTask → Option GroupSnds
  | receiving db => some db
  | forwarding db _ _ => some db
  | _ => none

/-- The receiver is past its wait for the phase notification. -/
def PastWait : ReceiverTask → Prop
  | woken _ | receiving _ | forwarding _ _ _ => True
  | _ => False

/-- The receiver can be ended at an await. -/
def AtAwait : ReceiverTask → Bool
  | spawned _ | waiting _ | woken _ | receiving _ => true
  | _ => false

/-- What `notify_waiters` does to a receiver. -/
def wake : ReceiverTask → ReceiverTask
  | waiting g => woken g
  | r => r

end ReceiverTask

/-- The channels in a table. -/
def GroupSnds.channels (db : GroupSnds) : List ℕ := db.entries.map (·.2)

/-- The channels to all members of the table but the given one. -/
def GroupSnds.messageChannels (db : GroupSnds) (sender : ID) : List ℕ :=
  (db.entries.filter fun e => e.1 ≠ sender).map (·.2)

namespace Server

/-- The server before the first connection. -/
def init : Server where
  accepted := 0
  phaseOver := false
  registration _ := false
  handshake _ := none
  handler _ := .absent
  receiver _ := .absent
  sender _ := .absent
  writerDb := ∅
  writerDbReaders := 0
  sndDb := ∅
  sndDbWriter := false
  groupSnds _ := ∅
  socketUpdater _ := .new
  socketNotify _ := false
  channel _ := .empty
  alive _ := false
  received _ := []
  sent _ := []

section

variable (s : Server) (i : ℕ)

/-! ### What the steps do -/

/-- The main task accepts the next connection and spawns its handshake task. -/
def accept : Server :=
  { s with
    accepted := s.accepted + 1
    registration := update s.registration s.accepted (!s.phaseOver)
    handler := update s.handler s.accepted .accepting
    alive := update s.alive s.accepted true }

/-- `phase_notify.notify_waiters()`. -/
def endRegistration : Server :=
  { s with phaseOver := true, receiver := fun j => (s.receiver j).wake }

def setHandler (t : HandshakeTask) : Server := { s with handler := update s.handler i t }

def setReceiver (t : ReceiverTask) : Server := { s with receiver := update s.receiver i t }

def setSender (t : SenderTask) : Server := { s with sender := update s.sender i t }

/-- The connection ends. -/
def disconnect : Server := { s with alive := update s.alive i false }

def shakeHands (h : Handshake) : Server :=
  { s.setHandler i (.checkWriterDb h) with handshake := update s.handshake i (some h) }

/-- The updater of the client is found; the read lock on `writer_db` is kept. -/
def findUpdater (h : Handshake) (u : ℕ) : Server :=
  { s.setHandler i (.known h u) with writerDbReaders := s.writerDbReaders + 1 }

/-- The receiver of the new connection is spawned. -/
def respawn (h : Handshake) (u g : ℕ) : Server :=
  (s.setHandler i (.handOver h u)).setReceiver i (.spawned g)

/-- `&handshake.group` is missing in `snd_db`: the task panics and drops its guard. -/
def missGroup : Server :=
  { (s.setHandler i .finished).disconnect i with writerDbReaders := s.writerDbReaders - 1 }

/-- The write half goes to the sender's updater. -/
def sendSocket (u : ℕ) : Server :=
  { s.setHandler i .finished with
    socketUpdater := update s.socketUpdater u ((s.socketUpdater u).send i)
    writerDbReaders := s.writerDbReaders - 1 }

/-- The client's channel goes into the table of its group. -/
def insertSnd (h : Handshake) (g : ℕ) : Server :=
  { s.setHandler i (.spawn h g) with
    groupSnds := update s.groupSnds g ((s.groupSnds g).insert h.sender i) }

/-- `entry(group).or_insert_with(..)`; the write lock on `snd_db` is kept. -/
def enterGroup (h : Handshake) : Server :=
  { s.setHandler i (.joinNewGroup h ((s.sndDb.lookup h.group).getD i)) with
    sndDb := if (s.sndDb.lookup h.group).isSome then s.sndDb else s.sndDb.insert h.group i
    sndDbWriter := true }

/-- The updater gets the write half; receiver and sender are spawned. -/
def spawnTasks (h : Handshake) (g : ℕ) : Server :=
  { ((s.setHandler i (.publish h)).setReceiver i (.spawned g)).setSender i .starting with
    socketUpdater := update s.socketUpdater i (Updater.new.send i) }

/-- The updater goes into `writer_db`. -/
def insertUpdater (h : Handshake) : Server :=
  { s.setHandler i .finished with writerDb := s.writerDb.insert h i }

/-- The receiver has read a message and starts to forward it. -/
def receive (m : MessageHeader) (t : ReceiverTask) : Server :=
  { s.setReceiver i t with received := update s.received i (s.received i ++ [m]) }

/-- The message at hand goes on a channel. -/
def forward (db : GroupSnds) (m : MessageHeader) (c : ℕ) (cs : List ℕ) : Server :=
  { s.setReceiver i (if cs = [] then .receiving db else .forwarding db m cs) with
    channel := update s.channel c ((s.channel c).push (i, m)) }

def takeSocket (t : SenderTask) : Server :=
  { s.setSender i t with socketUpdater := update s.socketUpdater i (s.socketUpdater i).recv.2 }

def takeMessage (k : ℕ) (m : MessageHeader) (q : Fifo (ℕ × MessageHeader)) : Server :=
  { s.setSender i (.writing k m) with channel := update s.channel i q }

def written (k : ℕ) (m : MessageHeader) : Server :=
  { s.setSender i (.idle k) with sent := update s.sent i (s.sent i ++ [(k, m)]) }

/-- The message is cached and the receiver of the failed socket notified. -/
def writeError (k : ℕ) (m : MessageHeader) : Server :=
  { s.setSender i (.reconnecting k m) with socketNotify := update s.socketNotify k true }

attribute [simp] accept endRegistration setHandler setReceiver setSender disconnect shakeHands
  findUpdater respawn missGroup sendSocket insertSnd enterGroup spawnTasks insertUpdater receive
  forward takeSocket takeMessage written writeError

/-! ### Which steps are enabled -/

/-- Some task still holds a sending end of the channel. -/
def channelOpen (c : ℕ) : Bool :=
  (List.range s.accepted).any fun j =>
    (s.groupSnds j).channels.contains c ||
      ((s.receiver j).db?.elim false fun db => db.channels.contains c)

/-- What the receiver does with a message it has read. -/
def dispatch (sender group : ID) (db : GroupSnds) (m : MessageHeader) : ReceiverTask :=
  if m.sender ≠ sender then .panicked
  else match m.body with
  | .size _ =>
    if m.group ≠ group then .panicked
    else match db.messageChannels sender with
      | [] => .receiving db
      | cs => .forwarding db m cs
  | .receipt =>
    match db.lookup m.group with
    | none => .panicked
    | some c => .forwarding db m [c]

/-- `get_message_bytes` panics over these bytes, or returns an error other than of I/O, over which
the receiver panics. -/
def malformed (bytes : Bytes) : Bool :=
  match (getMessageBytes false).run bytes with
  | .ok _ | .error (.error (.io _)) => false
  | .error _ => true

/-- The next step of a handshake task. -/
def handle : Option Server :=
  match s.handler i with
  | .checkWriterDb h =>
    match s.writerDb.lookup h with
    | some u => some (s.findUpdater i h u)
    | none =>
      if s.registration i then some (s.setHandler i (.register h))
      -- the panic of a late registration drops the connection
      else some ((s.setHandler i .finished).disconnect i)
  | .known h u =>
    if s.sndDbWriter then none
    else match s.sndDb.lookup h.group with
      | some g => some (s.respawn i h u g)
      | none => some (s.missGroup i)
  | .handOver _ u => some (s.sendSocket i u)
  | .register h =>
    if s.sndDbWriter then none
    else match s.sndDb.lookup h.group with
      | some g => some (s.setHandler i (.joinGroup h g))
      | none => some (s.setHandler i (.createGroup h))
  | .joinGroup h g => some (s.insertSnd i h g)
  | .createGroup h => if s.sndDbWriter then none else some (s.enterGroup i h)
  | .joinNewGroup h g => some { s.insertSnd i h g with sndDbWriter := false }
  | .spawn h g => some (s.spawnTasks i h g)
  | .publish h => if s.writerDbReaders = 0 then some (s.insertUpdater i h) else none
  | _ => none

/-- One step of the server. -/
def step (s : Server) : ServerAction → Option Server
  | .accept => some s.accept
  | .endRegistration => if s.phaseOver then none else some s.endRegistration
  | .handshake i h => if s.handler i = .accepting then some (s.shakeHands i h) else none
  | .refuse i =>
    if s.handler i = .accepting then some ((s.setHandler i .finished).disconnect i) else none
  | .handle i => s.handle i
  | .poll i =>
    match s.receiver i with
    | .spawned g => some (s.setReceiver i (.waiting g))
    | _ => none
  | .snapshot i db =>
    match s.receiver i with
    | .woken g =>
      if db.entries.Perm (s.groupSnds g).entries then some (s.setReceiver i (.receiving db))
      else none
    | _ => none
  | .read i m =>
    match s.receiver i, s.handshake i with
    | .receiving db, some h => some (s.receive i m (dispatch h.sender h.group db m))
    | _, _ => none
  | .readError i =>
    match s.receiver i with
    | .receiving _ => if s.alive i then none else some (s.setReceiver i .ended)
    | _ => none
  | .readMalformed i bytes =>
    match s.receiver i with
    | .receiving _ => if malformed bytes then some (s.setReceiver i .panicked) else none
    | _ => none
  | .put i =>
    match s.receiver i with
    | .forwarding db m (c :: cs) =>
      if s.sender c = .panicked then some (s.setReceiver i .panicked)
      else some (s.forward i db m c cs)
    | _ => none
  | .terminate i =>
    if s.socketNotify i && (s.receiver i).AtAwait then some (s.setReceiver i .ended) else none
  | .takeSocket i =>
    match s.sender i, (s.socketUpdater i).recv.1 with
    | .starting, some k => some (s.takeSocket i (.idle k))
    | .reconnecting _ m, some k => some (s.takeSocket i (.writing k m))
    | _, _ => none
  | .takeMessage i =>
    match s.sender i, (s.channel i).pop? with
    | .idle k, some ((_, m), q) => some (s.takeMessage i k m q)
    | _, _ => none
  | .channelClosed i =>
    match s.sender i with
    | .idle _ =>
      if (s.channel i).pending = [] ∧ s.channelOpen i = false then
        some (s.setSender i .panicked)
      else none
    | _ => none
  | .written i =>
    match s.sender i with
    | .writing k m => some (s.written i k m)
    | _ => none
  | .writeError i =>
    match s.sender i with
    | .writing k m => if s.alive k then none else some (s.writeError i k m)
    | _ => none
  | .disconnect i => some (s.disconnect i)

end

/-- The ways in which the server steps: for each the guard that lets it happen and what it
does. -/
inductive Step (s : Server) : ServerAction → Server → Prop
  | accept : Step s .accept s.accept
  | endRegistration : s.phaseOver = false → Step s .endRegistration s.endRegistration
  | handshake {i h} : s.handler i = .accepting → Step s (.handshake i h) (s.shakeHands i h)
  | refuse {i} : s.handler i = .accepting →
      Step s (.refuse i) ((s.setHandler i .finished).disconnect i)
  | findUpdater {i h u} : s.handler i = .checkWriterDb h → s.writerDb.lookup h = some u →
      Step s (.handle i) (s.findUpdater i h u)
  | register {i h} : s.handler i = .checkWriterDb h → s.writerDb.lookup h = none →
      s.registration i = true → Step s (.handle i) (s.setHandler i (.register h))
  | lateRegistration {i h} : s.handler i = .checkWriterDb h → s.writerDb.lookup h = none →
      s.registration i = false →
      Step s (.handle i) ((s.setHandler i .finished).disconnect i)
  | respawn {i h u g} : s.handler i = .known h u → s.sndDb.lookup h.group = some g →
      Step s (.handle i) (s.respawn i h u g)
  | missGroup {i h u} : s.handler i = .known h u → s.sndDb.lookup h.group = none →
      Step s (.handle i) (s.missGroup i)
  | sendSocket {i h u} : s.handler i = .handOver h u → Step s (.handle i) (s.sendSocket i u)
  | findGroup {i h g} : s.handler i = .register h → s.sndDb.lookup h.group = some g →
      Step s (.handle i) (s.setHandler i (.joinGroup h g))
  | findNoGroup {i h} : s.handler i = .register h → s.sndDb.lookup h.group = none →
      Step s (.handle i) (s.setHandler i (.createGroup h))
  | joinGroup {i h g} : s.handler i = .joinGroup h g → Step s (.handle i) (s.insertSnd i h g)
  | enterGroup {i h} : s.handler i = .createGroup h → Step s (.handle i) (s.enterGroup i h)
  | joinNewGroup {i h g} : s.handler i = .joinNewGroup h g →
      Step s (.handle i) { s.insertSnd i h g with sndDbWriter := false }
  | spawnTasks {i h g} : s.handler i = .spawn h g → Step s (.handle i) (s.spawnTasks i h g)
  | publish {i h} : s.handler i = .publish h → s.writerDbReaders = 0 →
      Step s (.handle i) (s.insertUpdater i h)
  | poll {i g} : s.receiver i = .spawned g → Step s (.poll i) (s.setReceiver i (.waiting g))
  | snapshot {i g db} : s.receiver i = .woken g → db.entries.Perm (s.groupSnds g).entries →
      Step s (.snapshot i db) (s.setReceiver i (.receiving db))
  | read {i db h m} : s.receiver i = .receiving db → s.handshake i = some h →
      Step s (.read i m) (s.receive i m (dispatch h.sender h.group db m))
  | readError {i db} : s.receiver i = .receiving db → s.alive i = false →
      Step s (.readError i) (s.setReceiver i .ended)
  | readMalformed {i db bytes} : s.receiver i = .receiving db → malformed bytes = true →
      Step s (.readMalformed i bytes) (s.setReceiver i .panicked)
  | putFailed {i db m c cs} : s.receiver i = .forwarding db m (c :: cs) →
      s.sender c = .panicked → Step s (.put i) (s.setReceiver i .panicked)
  | put {i db m c cs} : s.receiver i = .forwarding db m (c :: cs) → s.sender c ≠ .panicked →
      Step s (.put i) (s.forward i db m c cs)
  | terminate {i} : s.socketNotify i = true → (s.receiver i).AtAwait = true →
      Step s (.terminate i) (s.setReceiver i .ended)
  | takeFirstSocket {i k} : s.sender i = .starting → (s.socketUpdater i).object = some k →
      Step s (.takeSocket i) (s.takeSocket i (.idle k))
  | takeNextSocket {i j m k} : s.sender i = .reconnecting j m →
      (s.socketUpdater i).object = some k → Step s (.takeSocket i) (s.takeSocket i (.writing k m))
  | takeMessage {i k j m q} : s.sender i = .idle k → (s.channel i).pop? = some ((j, m), q) →
      Step s (.takeMessage i) (s.takeMessage i k m q)
  | channelClosed {i k} : s.sender i = .idle k → (s.channel i).pending = [] →
      s.channelOpen i = false → Step s (.channelClosed i) (s.setSender i .panicked)
  | written {i k m} : s.sender i = .writing k m → Step s (.written i) (s.written i k m)
  | writeError {i k m} : s.sender i = .writing k m → s.alive k = false →
      Step s (.writeError i) (s.writeError i k m)
  | disconnect {i} : Step s (.disconnect i) (s.disconnect i)

theorem handle_cases {s t : Server} {i : ℕ} (h : s.handle i = some t) :
    Step s (.handle i) t := by
  unfold handle at h
  split at h
  case h_1 hs hh =>
    split at h
    · exact Option.some_inj.mp h ▸ .findUpdater hh ‹_›
    · split at h
      · exact Option.some_inj.mp h ▸ .register hh ‹_› ‹_›
      · exact Option.some_inj.mp h ▸ .lateRegistration hh ‹_› (Bool.not_eq_true _ ▸ ‹_›)
  case h_2 hs u hh =>
    split at h
    · cases h
    · split at h
      · exact Option.some_inj.mp h ▸ .respawn hh ‹_›
      · exact Option.some_inj.mp h ▸ .missGroup hh ‹_›
  case h_3 hs u hh => exact Option.some_inj.mp h ▸ .sendSocket hh
  case h_4 hs hh =>
    split at h
    · cases h
    · split at h
      · exact Option.some_inj.mp h ▸ .findGroup hh ‹_›
      · exact Option.some_inj.mp h ▸ .findNoGroup hh ‹_›
  case h_5 hs g hh => exact Option.some_inj.mp h ▸ .joinGroup hh
  case h_6 hs hh =>
    split at h
    · cases h
    · exact Option.some_inj.mp h ▸ .enterGroup hh
  case h_7 hs g hh => exact Option.some_inj.mp h ▸ .joinNewGroup hh
  case h_8 hs g hh => exact Option.some_inj.mp h ▸ .spawnTasks hh
  case h_9 hs hh =>
    split at h
    · exact Option.some_inj.mp h ▸ .publish hh ‹_›
    · cases h
  case h_10 => cases h

/-- **Inversion.** What a step can have been. -/
theorem step_cases {s t : Server} {a : ServerAction} (h : s.step a = some t) : Step s a t := by
  cases a with
  | accept => exact Option.some_inj.mp h ▸ .accept
  | endRegistration =>
    obtain ⟨hp, ⟨⟩⟩ := Option.ite_none_left_eq_some.mp h
    exact .endRegistration (by simpa using hp)
  | handshake i hs =>
    obtain ⟨hh, ⟨⟩⟩ := Option.ite_none_right_eq_some.mp h
    exact .handshake hh
  | refuse i =>
    obtain ⟨hh, ⟨⟩⟩ := Option.ite_none_right_eq_some.mp h
    exact .refuse hh
  | handle i => exact handle_cases h
  | poll i =>
    simp only [step] at h
    split at h
    · exact Option.some_inj.mp h ▸ .poll ‹_›
    · cases h
  | snapshot i db =>
    simp only [step] at h
    split at h
    · obtain ⟨hp, ⟨⟩⟩ := Option.ite_none_right_eq_some.mp h
      exact .snapshot ‹_› hp
    · cases h
  | read i m =>
    simp only [step] at h
    split at h
    · exact Option.some_inj.mp h ▸ .read ‹_› ‹_›
    · cases h
  | readError i =>
    simp only [step] at h
    split at h
    · obtain ⟨ha, ⟨⟩⟩ := Option.ite_none_left_eq_some.mp h
      exact .readError ‹_› (by simpa using ha)
    · cases h
  | readMalformed i bytes =>
    simp only [step] at h
    split at h
    · obtain ⟨hb, ⟨⟩⟩ := Option.ite_none_right_eq_some.mp h
      exact .readMalformed ‹_› hb
    · cases h
  | put i =>
    simp only [step] at h
    split at h
    · split at h
      · exact Option.some_inj.mp h ▸ .putFailed ‹_› ‹_›
      · exact Option.some_inj.mp h ▸ .put ‹_› ‹_›
    · cases h
  | terminate i =>
    obtain ⟨hn, ⟨⟩⟩ := Option.ite_none_right_eq_some.mp h
    rw [Bool.and_eq_true] at hn
    exact .terminate hn.1 hn.2
  | takeSocket i =>
    simp only [step, Updater.recv_fst] at h
    split at h
    · exact Option.some_inj.mp h ▸ .takeFirstSocket ‹_› ‹_›
    · exact Option.some_inj.mp h ▸ .takeNextSocket ‹_› ‹_›
    · cases h
  | takeMessage i =>
    simp only [step] at h
    split at h
    · exact Option.some_inj.mp h ▸ .takeMessage ‹_› ‹_›
    · cases h
  | channelClosed i =>
    simp only [step] at h
    split at h
    · obtain ⟨hc, ⟨⟩⟩ := Option.ite_none_right_eq_some.mp h
      exact .channelClosed ‹_› hc.1 hc.2
    · cases h
  | written i =>
    simp only [step] at h
    split at h
    · exact Option.some_inj.mp h ▸ .written ‹_›
    · cases h
  | writeError i =>
    simp only [step] at h
    split at h
    · obtain ⟨ha, ⟨⟩⟩ := Option.ite_none_left_eq_some.mp h
      exact .writeError ‹_› (by simpa using ha)
    · cases h
  | disconnect i => exact Option.some_inj.mp h ▸ .disconnect

end Server

/-- The server as a transition system. -/
def serverSystem : System Server ServerAction := ⟨Server.step⟩

end SignalSim.Mgen
