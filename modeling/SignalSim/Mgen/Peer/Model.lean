import SignalSim.Foundations.Fifo
import SignalSim.Foundations.Transition
import SignalSim.Mgen.Updater
import SignalSim.Mgen.Wire.Message

/-!
# Two peers

The tasks of `mgen-peer.rs` that two users who list each other run for each other: on either
side a writer, a reader and a listener, joined by the two updaters through which the halves of
a connection reach the reader and the writer. Either writer may open a connection, and either
listener hands on both halves of one that it accepts.

A connection that a writer gives up before `connect` returns is left out: the listener reads no
identifier from it and drops it. Other contacts of a user have a reader and a writer of their
own, and share only the listener, which they delay.

## Main definitions

* `Peers` — both sides and the connections between them
* `Peers.step` — one step of a task or of the network

## Main results

* `Peers.step_cases` — the inversion lemma of `Peers.step`
-/

namespace SignalSim.Mgen

open Function (update)

/-- One of the two users. -/
inductive Side
  | left
  | right
  deriving DecidableEq

/-- The user that this one talks to. -/
def Side.other : Side → Side
  | left => right
  | right => left

/-- Where the writer is. Connections are numbered. -/
inductive PeerWriter
  /-- Waits for its first message. -/
  | first
  /-- Enters `establish_connection`, with a message to write. -/
  | checking (m : MessageHeader)
  /-- Connects for the first time, or gets a stream from the listener. -/
  | attempting (m : MessageHeader)
  /-- Waits to try again, or gets a stream from the listener. -/
  | sleeping (m : MessageHeader)
  /-- Connects after having waited. -/
  | connecting (m : MessageHeader)
  /-- About to write the identifier, on the first attempt or a later one. -/
  | identifying (m : MessageHeader) (connection : ℕ) (again : Bool)
  /-- About to send the read half to the reader. -/
  | handing (m : MessageHeader) (connection : ℕ)
  /-- About to write the message. -/
  | writing (m : MessageHeader) (connection : ℕ)
  /-- Waits for the next message. -/
  | receiving (connection : ℕ)
  | panicked
  deriving DecidableEq

/-- Where the reader is. -/
inductive PeerReader
  /-- Waits for a stream. -/
  | waiting
  | reading (connection : ℕ)
  | panicked
  deriving DecidableEq

/-- Where the listener is. -/
inductive Listener
  /-- Waits for a connection. -/
  | accepting
  /-- Reads the identifier. -/
  | parsing (connection : ℕ)
  /-- About to send the read half to the reader. -/
  | handRd (connection : ℕ)
  /-- About to send the write half to the writer. -/
  | handWr (connection : ℕ)
  deriving DecidableEq

/-- The tasks of the two users, and the connections. -/
structure Peers where
  /-- `messages_to_send`, from the state threads. -/
  messages : Side → Fifo MessageHeader
  writer : Side → PeerWriter
  /-- From the listener to the writer. -/
  wrUpdater : Side → Updater ℕ
  /-- From the listener and the writer to the reader. -/
  rdUpdater : Side → Updater ℕ
  reader : Side → PeerReader
  listener : Side → Listener
  /-- The connections that wait to be accepted. -/
  backlog : Side → List ℕ
  /-- How many connections there have been. -/
  opened : ℕ
  /-- Whose writer opened the connection. -/
  opener : ℕ → Side
  /-- The identifier has been written. -/
  identified : ℕ → Bool
  broken : ℕ → Bool
  /-- What a side has written to the connection, and how much of it the other side has read. -/
  link : ℕ → Side → Fifo MessageHeader

inductive PeersAction
  /-- A state thread sends a message to the writer. -/
  | enqueue (x : Side) (m : MessageHeader)
  | takeMessage (x : Side)
  /-- `maybe_recv`. -/
  | check (x : Side)
  | connect (x : Side)
  /-- `connect` fails with a recoverable error. -/
  | connectFailed (x : Side)
  /-- `connect` fails with a fatal error. -/
  | connectFatal (x : Side)
  /-- The updater interrupts the first attempt or the wait. -/
  | takeStream (x : Side)
  /-- The wait is over. -/
  | wake (x : Side)
  | identify (x : Side)
  | identifyError (x : Side)
  | handOver (x : Side)
  /-- `write_all_to` succeeds. -/
  | write (x : Side)
  | writeError (x : Side)
  | accept (x : Side)
  /-- `parse_identifier` succeeds. -/
  | parse (x : Side)
  | parseError (x : Side)
  | handRd (x : Side)
  | handWr (x : Side)
  | takeReadHalf (x : Side)
  /-- `get_message` succeeds, and the message goes to its conversation. -/
  | read (x : Side)
  | readError (x : Side)
  /-- The network breaks a connection, or the tasks of one side have dropped it. -/
  | disconnect (connection : ℕ)
  deriving DecidableEq

namespace Peers

/-- Both users before their first message. -/
def init : Peers where
  messages _ := .empty
  writer _ := .first
  wrUpdater _ := .new
  rdUpdater _ := .new
  reader _ := .waiting
  listener _ := .accepting
  backlog _ := []
  opened := 0
  opener _ := .left
  identified _ := false
  broken _ := false
  link _ _ := .empty

/-- The writer of `x` moves on. -/
def toWriter (s : Peers) (x : Side) (w : PeerWriter) : Peers :=
  { s with writer := update s.writer x w }

/-- The listener of `x` moves on. -/
def toListener (s : Peers) (x : Side) (l : Listener) : Peers :=
  { s with listener := update s.listener x l }

/-- The writer of `x` takes its next message. -/
def took (s : Peers) (x : Side) (q : Fifo MessageHeader) (w : PeerWriter) : Peers :=
  { s with messages := update s.messages x q, writer := update s.writer x w }

/-- The writer of `x` has opened a connection. -/
def connected (s : Peers) (x : Side) (m : MessageHeader) (again : Bool) : Peers :=
  { s with
    writer := update s.writer x (.identifying m s.opened again)
    backlog := update s.backlog x.other (s.backlog x.other ++ [s.opened])
    opened := s.opened + 1
    opener := update s.opener s.opened x }

/-- The writer of `x` gets a stream from the listener, and its updater is left as `u`. -/
def gotStream (s : Peers) (x : Side) (u : Updater ℕ) (m : MessageHeader) (c : ℕ) : Peers :=
  { s with writer := update s.writer x (.writing m c), wrUpdater := update s.wrUpdater x u }

/-- What `y` writes to a connection changes. -/
def setLink (s : Peers) (c : ℕ) (y : Side) (q : Fifo MessageHeader) : Peers :=
  { s with link := update s.link c (update (s.link c) y q) }

/-- One step. The users' conversations are in the given groups: a state thread sends messages
of its own group only, and the reader panics when it gets one of an unknown group. -/
def step (groups : Side → List String) (s : Peers) : PeersAction → Option Peers
  | .enqueue x m =>
    if m.group ∈ groups x then
      some { s with messages := update s.messages x ((s.messages x).push m) }
    else none
  | .takeMessage x =>
    match s.writer x, (s.messages x).pop? with
    | .first, some (m, q) => some (s.took x q (.checking m))
    | .receiving c, some (m, q) => some (s.took x q (.writing m c))
    | _, _ => none
  | .check x =>
    match s.writer x, (s.wrUpdater x).maybeRecv with
    | .checking m, (some c, u) => some (s.gotStream x u m c)
    | .checking m, (none, u) => some
        { s with writer := update s.writer x (.attempting m)
                 wrUpdater := update s.wrUpdater x u }
    | _, _ => none
  | .connect x =>
    match s.writer x with
    | .attempting m => some (s.connected x m false)
    | .connecting m => some (s.connected x m true)
    | _ => none
  | .connectFailed x =>
    match s.writer x with
    | .attempting m | .connecting m => some (s.toWriter x (.sleeping m))
    | _ => none
  | .connectFatal x =>
    match s.writer x with
    | .attempting _ | .connecting _ => some (s.toWriter x .panicked)
    | _ => none
  | .takeStream x =>
    match s.writer x, (s.wrUpdater x).recv with
    | .attempting m, (some c, u) | .sleeping m, (some c, u) => some (s.gotStream x u m c)
    | _, _ => none
  | .wake x =>
    match s.writer x with
    | .sleeping m => some (s.toWriter x (.connecting m))
    | _ => none
  | .identify x =>
    match s.writer x with
    | .identifying m c _ =>
      some { s.toWriter x (.handing m c) with identified := update s.identified c true }
    | _ => none
  | .identifyError x =>
    match s.writer x with
    | .identifying m c again =>
      if s.broken c then
        -- only on a later attempt is the error a recoverable one
        some (s.toWriter x (if again then .sleeping m else .panicked))
      else none
    | _ => none
  | .handOver x =>
    match s.writer x with
    | .handing m c => some
        { s.toWriter x (.writing m c) with
          rdUpdater := update s.rdUpdater x ((s.rdUpdater x).send c) }
    | _ => none
  | .write x =>
    match s.writer x with
    | .writing m c => some ((s.setLink c x ((s.link c x).push m)).toWriter x (.receiving c))
    | _ => none
  | .writeError x =>
    match s.writer x with
    | .writing m c => if s.broken c then some (s.toWriter x (.checking m)) else none
    | _ => none
  | .accept x =>
    match s.listener x, s.backlog x with
    | .accepting, c :: rest =>
      some { s.toListener x (.parsing c) with backlog := update s.backlog x rest }
    | _, _ => none
  | .parse x =>
    match s.listener x with
    | .parsing c => if s.identified c then some (s.toListener x (.handRd c)) else none
    | _ => none
  | .parseError x =>
    match s.listener x with
    | .parsing c => if s.broken c then some (s.toListener x .accepting) else none
    | _ => none
  | .handRd x =>
    match s.listener x with
    | .handRd c => some
        { s.toListener x (.handWr c) with
          rdUpdater := update s.rdUpdater x ((s.rdUpdater x).send c) }
    | _ => none
  | .handWr x =>
    match s.listener x with
    | .handWr c => some
        { s.toListener x .accepting with
          wrUpdater := update s.wrUpdater x ((s.wrUpdater x).send c) }
    | _ => none
  | .takeReadHalf x =>
    match s.reader x, (s.rdUpdater x).recv with
    | .waiting, (some c, u) => some
        { s with reader := update s.reader x (.reading c)
                 rdUpdater := update s.rdUpdater x u }
    | _, _ => none
  | .read x =>
    match s.reader x with
    | .reading c => ((s.link c x.other).pop?).map fun (m, q) =>
        { s.setLink c x.other q with
          reader := update s.reader x (if m.group ∈ groups x then .reading c else .panicked) }
    | _ => none
  | .readError x =>
    match s.reader x with
    | .reading c =>
      if s.broken c then some { s with reader := update s.reader x .waiting } else none
    | _ => none
  | .disconnect c =>
    if c < s.opened then some { s with broken := update s.broken c true } else none

/-- The ways in which two peers step. -/
inductive Step (groups : Side → List String) (s : Peers) : PeersAction → Peers → Prop
  | enqueue {x m} : m.group ∈ groups x → Step groups s (.enqueue x m)
      { s with messages := update s.messages x ((s.messages x).push m) }
  | takeFirst {x m q} : s.writer x = .first → (s.messages x).pop? = some (m, q) →
      Step groups s (.takeMessage x) (s.took x q (.checking m))
  | takeNext {x c m q} : s.writer x = .receiving c → (s.messages x).pop? = some (m, q) →
      Step groups s (.takeMessage x) (s.took x q (.writing m c))
  | checkSome {x m c} : s.writer x = .checking m → (s.wrUpdater x).object = some c →
      Step groups s (.check x) (s.gotStream x (s.wrUpdater x).maybeRecv.2 m c)
  | checkNone {x m} : s.writer x = .checking m → (s.wrUpdater x).object = none →
      Step groups s (.check x)
        { s with writer := update s.writer x (.attempting m)
                 wrUpdater := update s.wrUpdater x (s.wrUpdater x).maybeRecv.2 }
  | connect (again : Bool) {x m} :
      s.writer x = (if again then .connecting m else .attempting m) →
      Step groups s (.connect x) (s.connected x m again)
  | connectFailed {x m} : s.writer x = .attempting m ∨ s.writer x = .connecting m →
      Step groups s (.connectFailed x) (s.toWriter x (.sleeping m))
  | connectFatal {x m} : s.writer x = .attempting m ∨ s.writer x = .connecting m →
      Step groups s (.connectFatal x) (s.toWriter x .panicked)
  | takeStream {x m c} : s.writer x = .attempting m ∨ s.writer x = .sleeping m →
      (s.wrUpdater x).object = some c →
      Step groups s (.takeStream x) (s.gotStream x (s.wrUpdater x).recv.2 m c)
  | wake {x m} : s.writer x = .sleeping m →
      Step groups s (.wake x) (s.toWriter x (.connecting m))
  | identify {x m c again} : s.writer x = .identifying m c again → Step groups s (.identify x)
      { s.toWriter x (.handing m c) with identified := update s.identified c true }
  | identifyError {x m c again} : s.writer x = .identifying m c again → s.broken c = true →
      Step groups s (.identifyError x)
        (s.toWriter x (if again then .sleeping m else .panicked))
  | handOver {x m c} : s.writer x = .handing m c → Step groups s (.handOver x)
      { s.toWriter x (.writing m c) with
        rdUpdater := update s.rdUpdater x ((s.rdUpdater x).send c) }
  | write {x m c} : s.writer x = .writing m c → Step groups s (.write x)
      ((s.setLink c x ((s.link c x).push m)).toWriter x (.receiving c))
  | writeError {x m c} : s.writer x = .writing m c → s.broken c = true →
      Step groups s (.writeError x) (s.toWriter x (.checking m))
  | accept {x c rest} : s.listener x = .accepting → s.backlog x = c :: rest →
      Step groups s (.accept x)
        { s.toListener x (.parsing c) with backlog := update s.backlog x rest }
  | parse {x c} : s.listener x = .parsing c → s.identified c = true →
      Step groups s (.parse x) (s.toListener x (.handRd c))
  | parseError {x c} : s.listener x = .parsing c → s.broken c = true →
      Step groups s (.parseError x) (s.toListener x .accepting)
  | handRd {x c} : s.listener x = .handRd c → Step groups s (.handRd x)
      { s.toListener x (.handWr c) with
        rdUpdater := update s.rdUpdater x ((s.rdUpdater x).send c) }
  | handWr {x c} : s.listener x = .handWr c → Step groups s (.handWr x)
      { s.toListener x .accepting with
        wrUpdater := update s.wrUpdater x ((s.wrUpdater x).send c) }
  | takeReadHalf {x c} : s.reader x = .waiting → (s.rdUpdater x).object = some c →
      Step groups s (.takeReadHalf x)
        { s with reader := update s.reader x (.reading c)
                 rdUpdater := update s.rdUpdater x (s.rdUpdater x).recv.2 }
  | read {x c m q} : s.reader x = .reading c → (s.link c x.other).pop? = some (m, q) →
      Step groups s (.read x)
        { s.setLink c x.other q with
          reader := update s.reader x
            (if m.group ∈ groups x then .reading c else .panicked) }
  | readError {x c} : s.reader x = .reading c → s.broken c = true →
      Step groups s (.readError x) { s with reader := update s.reader x .waiting }
  | disconnect {c} : c < s.opened →
      Step groups s (.disconnect c) { s with broken := update s.broken c true }

variable {groups : Side → List String} {s t : Peers} {a : PeersAction}

/-- **Inversion.** What a step can have been. -/
theorem step_cases (h : s.step groups a = some t) : Step groups s a t := by
  cases a with
  | enqueue x m =>
    obtain ⟨hm, ⟨⟩⟩ := Option.ite_none_right_eq_some.mp h
    exact .enqueue hm
  | takeMessage x =>
    simp only [step] at h
    split at h
    · exact Option.some_inj.mp h ▸ .takeFirst ‹_› ‹_›
    · exact Option.some_inj.mp h ▸ .takeNext ‹_› ‹_›
    · cases h
  | check x =>
    simp only [step, Updater.maybeRecv] at h
    split at h
    case h_1 m c u hw hu =>
      obtain ⟨ho, rfl⟩ := Prod.mk.inj hu
      exact Option.some_inj.mp h ▸ .checkSome hw ho
    case h_2 m u hw hu =>
      obtain ⟨ho, rfl⟩ := Prod.mk.inj hu
      exact Option.some_inj.mp h ▸ .checkNone hw ho
    case h_3 => cases h
  | connect x =>
    simp only [step] at h
    split at h
    · exact Option.some_inj.mp h ▸ .connect false ‹_›
    · exact Option.some_inj.mp h ▸ .connect true ‹_›
    · cases h
  | connectFailed x =>
    simp only [step] at h
    split at h
    · exact Option.some_inj.mp h ▸ .connectFailed (.inl ‹_›)
    · exact Option.some_inj.mp h ▸ .connectFailed (.inr ‹_›)
    · cases h
  | connectFatal x =>
    simp only [step] at h
    split at h
    · exact Option.some_inj.mp h ▸ .connectFatal (.inl ‹_›)
    · exact Option.some_inj.mp h ▸ .connectFatal (.inr ‹_›)
    · cases h
  | takeStream x =>
    simp only [step] at h
    split at h
    case h_1 m c u hw hu =>
      obtain ⟨ho, rfl⟩ := Updater.recv_eq_some hu
      exact Option.some_inj.mp h ▸ .takeStream (.inl hw) ho
    case h_2 m c u hw hu =>
      obtain ⟨ho, rfl⟩ := Updater.recv_eq_some hu
      exact Option.some_inj.mp h ▸ .takeStream (.inr hw) ho
    case h_3 => cases h
  | wake x =>
    simp only [step] at h
    split at h
    · exact Option.some_inj.mp h ▸ .wake ‹_›
    · cases h
  | identify x =>
    simp only [step] at h
    split at h
    · exact Option.some_inj.mp h ▸ .identify ‹_›
    · cases h
  | identifyError x =>
    simp only [step] at h
    split at h
    · obtain ⟨hb, ⟨⟩⟩ := Option.ite_none_right_eq_some.mp h
      exact .identifyError ‹_› hb
    · cases h
  | handOver x =>
    simp only [step] at h
    split at h
    · exact Option.some_inj.mp h ▸ .handOver ‹_›
    · cases h
  | write x =>
    simp only [step] at h
    split at h
    · exact Option.some_inj.mp h ▸ .write ‹_›
    · cases h
  | writeError x =>
    simp only [step] at h
    split at h
    · obtain ⟨hb, ⟨⟩⟩ := Option.ite_none_right_eq_some.mp h
      exact .writeError ‹_› hb
    · cases h
  | accept x =>
    simp only [step] at h
    split at h
    · exact Option.some_inj.mp h ▸ .accept ‹_› ‹_›
    · cases h
  | parse x =>
    simp only [step] at h
    split at h
    · obtain ⟨hi, ⟨⟩⟩ := Option.ite_none_right_eq_some.mp h
      exact .parse ‹_› hi
    · cases h
  | parseError x =>
    simp only [step] at h
    split at h
    · obtain ⟨hb, ⟨⟩⟩ := Option.ite_none_right_eq_some.mp h
      exact .parseError ‹_› hb
    · cases h
  | handRd x =>
    simp only [step] at h
    split at h
    · exact Option.some_inj.mp h ▸ .handRd ‹_›
    · cases h
  | handWr x =>
    simp only [step] at h
    split at h
    · exact Option.some_inj.mp h ▸ .handWr ‹_›
    · cases h
  | takeReadHalf x =>
    simp only [step] at h
    split at h
    case h_1 c u hr hu =>
      obtain ⟨ho, rfl⟩ := Updater.recv_eq_some hu
      exact Option.some_inj.mp h ▸ .takeReadHalf hr ho
    case h_2 => cases h
  | read x =>
    simp only [step] at h
    split at h
    · obtain ⟨⟨m, q⟩, hq, rfl⟩ := Option.map_eq_some_iff.mp h
      exact .read ‹_› hq
    · cases h
  | readError x =>
    simp only [step] at h
    split at h
    · obtain ⟨hb, ⟨⟩⟩ := Option.ite_none_right_eq_some.mp h
      exact .readError ‹_› hb
    · cases h
  | disconnect c =>
    obtain ⟨hc, ⟨⟩⟩ := Option.ite_none_right_eq_some.mp h
    exact .disconnect hc

end Peers

/-- Two peers as a transition system. -/
def peersSystem (groups : Side → List String) : System Peers PeersAction :=
  ⟨fun s a => s.step groups a⟩

end SignalSim.Mgen
