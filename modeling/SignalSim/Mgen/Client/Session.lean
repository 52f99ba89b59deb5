import SignalSim.Mgen.Client.Writer
import SignalSim.Mgen.Server.Invariants

/-!
# A client and the server

One conversation of `mgen-client.rs` next to the whole server: `socket_updater` connects,
writes the handshake and hands the two halves of the connection to the reader and to the
writer; these report errors on one error channel; each error makes `socket_updater` connect
again. A connection closes when the client has dropped both halves of it.

Errors that `socket_updater` treats as fatal end the process and are left out, and so is what
the reader does with a message, which changes nothing here.

## Main definitions

* `Session` — the threads of the conversation, and the server
* `Session.step` — one step of either side
* `Session.Quiescent` — nothing left to do without a new message or a new break
* `Session.Agrees` — then the server writes to the connection the client reads
* `Session.HandsOverFreely` — a new half goes to a thread that has no unbroken connection

## Main results

* `Session.agrees_of_along` — runs whose hand-overs meet the condition keep both sides in
  agreement
* `Session.connections_cross` — a stale error
-/

namespace SignalSim.Mgen

open Function (update update_self update_of_ne)

/-- Where `socket_updater` is. -/
inductive SocketUpdater
  /-- Connects, or waits to try again. -/
  | connecting
  /-- About to send the read half to the reader. -/
  | handRd (connection : ℕ)
  /-- About to send the write half to the writer. -/
  | handWr (connection : ℕ)
  /-- Waits for an error. -/
  | awaiting (connection : ℕ)
  deriving DecidableEq

/-- Where the reader's `worker` is. -/
inductive ReaderWorker
  /-- Waits for a socket. -/
  | waiting
  | reading (socket : ℕ)
  deriving DecidableEq

/-- The threads of a conversation and the server. -/
structure Session where
  server : Server
  /-- The connections that the conversation has opened. -/
  mine : ℕ → Bool
  updater : SocketUpdater
  /-- `reader_channel`. -/
  rdUpdater : Updater ℕ
  reader : ReaderWorker
  /-- The writer, with `writer_channel`. -/
  writer : ClientWriter
  /-- How many errors are on the error channel. -/
  errors : ℕ

inductive SessionAction
  /-- A task of the server, another client or the network takes a step. -/
  | server (a : ServerAction)
  /-- `socket_updater` connects and writes the handshake. -/
  | connect
  /-- The server accepts a connection on which the client fails to do that. -/
  | connectFailed
  | handRd
  | handWr
  /-- `socket_updater` takes an error. -/
  | takeError
  | readerTake
  /-- `get_message` fails. -/
  | readerError
  | writer (a : WriterAction)
  /-- The last half of the connection at the client is dropped. -/
  | close (connection : ℕ)

namespace SocketUpdater

/-- The connection of which `socket_updater` itself has a half. -/
def connection? : SocketUpdater → Option ℕ
  | handRd c | handWr c => some c
  | _ => none

end SocketUpdater

/-- The connection that the reader reads. -/
def ReaderWorker.socket? : ReaderWorker → Option ℕ
  | waiting => none
  | reading k => some k

/-- The connection of a server task that takes a step without a new message or a new break. -/
def ServerAction.internal? : ServerAction → Option ℕ
  | handshake i _ | refuse i | handle i | poll i | snapshot i _ | readError i | put i
  | terminate i | takeSocket i | takeMessage i | channelClosed i | written i
  | writeError i => some i
  | accept | endRegistration | read _ _ | readMalformed _ _ | disconnect _ => none

/-- The receiver is there and has not come to an end. -/
def ReceiverTask.Running : ReceiverTask → Prop
  | absent | ended | panicked => False
  | _ => True

namespace Session

/-- Everything before the client's first connection. -/
def init : Session where
  server := .init
  mine _ := false
  updater := .connecting
  rdUpdater := .new
  reader := .waiting
  writer := .init
  errors := 0

/-- Some thread of the client has a half of the connection, or an updater has it for one. -/
def Holds (s : Session) (k : ℕ) : Prop :=
  s.updater.connection? = some k ∨ s.rdUpdater.object = some k ∨ s.reader.socket? = some k ∨
    s.writer.sockets.object = some k ∨ s.writer.task.socket? = some k

instance (s : Session) (k : ℕ) : Decidable (s.Holds k) :=
  inferInstanceAs (Decidable (_ ∨ _))

/-- The client writes its own handshake on its connections, and nobody else does. -/
def HandshakeOk (me : Handshake) (s : Session) : ServerAction → Prop
  | .handshake i h => s.mine i = true ↔ h = me
  | _ => True

instance (me : Handshake) (s : Session) (a : ServerAction) :
    Decidable (s.HandshakeOk me a) :=
  match a with
  | .handshake .. => inferInstanceAs (Decidable (_ ↔ _))
  | .accept | .endRegistration | .refuse _ | .handle _ | .poll _ | .snapshot .. | .read ..
  | .readError _ | .readMalformed .. | .put _ | .terminate _ | .takeSocket _ | .takeMessage _
  | .channelClosed _ | .written _ | .writeError _ | .disconnect _ => .isTrue trivial

/-- The server accepts a connection of the client. -/
def opened (s : Session) : Session :=
  { s with server := s.server.accept, mine := update s.mine s.server.accepted true }

/-- One step of the client, the server or the network. -/
def step (me : Handshake) (s : Session) : SessionAction → Option Session
  | .server a =>
    if s.HandshakeOk me a then (s.server.step a).map fun t => { s with server := t } else none
  | .connect =>
    match s.updater with
    | .connecting => some { s.opened with updater := .handRd s.server.accepted }
    | _ => none
  | .connectFailed =>
    match s.updater with
    | .connecting =>
      some { s.opened with server := s.server.accept.disconnect s.server.accepted }
    | _ => none
  | .handRd =>
    match s.updater with
    | .handRd c => some { s with rdUpdater := s.rdUpdater.send c, updater := .handWr c }
    | _ => none
  | .handWr =>
    match s.updater with
    | .handWr c => (s.writer.step (.newSocket c)).map fun w =>
        { s with writer := w, updater := .awaiting c }
    | _ => none
  | .takeError =>
    match s.updater, s.errors with
    | .awaiting _, n + 1 => some { s with errors := n, updater := .connecting }
    | _, _ => none
  | .readerTake =>
    match s.reader, s.rdUpdater.recv.1 with
    | .waiting, some k => some { s with reader := .reading k, rdUpdater := s.rdUpdater.recv.2 }
    | _, _ => none
  | .readerError =>
    match s.reader with
    | .reading k =>
      if s.server.alive k then none
      else some { s with reader := .waiting, errors := s.errors + 1 }
    | _ => none
  | .writer (.newSocket _) => none
  | .writer .writeError =>
    match s.writer.task with
    | .writing k _ =>
      if s.server.alive k then none
      else (s.writer.step .writeError).map fun w =>
        { s with writer := w, errors := s.errors + 1 }
    | _ => none
  | .writer a => (s.writer.step a).map fun w => { s with writer := w }
  | .close k =>
    if s.mine k = true ∧ s.server.alive k = true ∧ ¬ s.Holds k then
      some { s with server := s.server.disconnect k }
    else none

/-- The ways in which client and server step. -/
inductive Step (me : Handshake) (s : Session) : SessionAction → Session → Prop
  | server {a t} : s.HandshakeOk me a → Server.Step s.server a t →
      Step me s (.server a) { s with server := t }
  | connect : s.updater = .connecting →
      Step me s .connect { s.opened with updater := .handRd s.server.accepted }
  | connectFailed : s.updater = .connecting → Step me s .connectFailed
      { s.opened with server := s.server.accept.disconnect s.server.accepted }
  | handRd {c} : s.updater = .handRd c →
      Step me s .handRd { s with rdUpdater := s.rdUpdater.send c, updater := .handWr c }
  | handWr {c} : s.updater = .handWr c → Step me s .handWr
      { s with writer := { s.writer with sockets := s.writer.sockets.send c }
               updater := .awaiting c }
  | takeError {c n} : s.updater = .awaiting c → s.errors = n + 1 →
      Step me s .takeError { s with errors := n, updater := .connecting }
  | readerTake {k} : s.reader = .waiting → s.rdUpdater.object = some k →
      Step me s .readerTake { s with reader := .reading k, rdUpdater := s.rdUpdater.recv.2 }
  | readerError {k} : s.reader = .reading k → s.server.alive k = false →
      Step me s .readerError { s with reader := .waiting, errors := s.errors + 1 }
  | writerError {k m} : s.writer.task = .writing k m → s.server.alive k = false →
      Step me s (.writer .writeError)
        { s with writer := { s.writer with task := .waiting }, errors := s.errors + 1 }
  | writer {a w} : a ≠ .writeError → (∀ k, a ≠ .newSocket k) → ClientWriter.Step s.writer a w →
      Step me s (.writer a) { s with writer := w }
  | close {k} : s.mine k = true → s.server.alive k = true → ¬ s.Holds k →
      Step me s (.close k) { s with server := s.server.disconnect k }

variable {me : Handshake} {s t : Session} {a : SessionAction}

/-- **Inversion.** What a step can have been. -/
theorem step_cases (h : s.step me a = some t) : Step me s a t := by
  cases a with
  | server a =>
    obtain ⟨hok, h⟩ := Option.ite_none_right_eq_some.mp h
    obtain ⟨u, hu, rfl⟩ := Option.map_eq_some_iff.mp h
    exact .server hok (Server.step_cases hu)
  | connect =>
    simp only [step] at h
    split at h
    · exact Option.some_inj.mp h ▸ .connect ‹_›
    · cases h
  | connectFailed =>
    simp only [step] at h
    split at h
    · exact Option.some_inj.mp h ▸ .connectFailed ‹_›
    · cases h
  | handRd =>
    simp only [step] at h
    split at h
    · exact Option.some_inj.mp h ▸ .handRd ‹_›
    · cases h
  | handWr =>
    simp only [step] at h
    split at h
    · exact Option.some_inj.mp h ▸ .handWr ‹_›
    · cases h
  | takeError =>
    simp only [step] at h
    split at h
    · exact Option.some_inj.mp h ▸ .takeError ‹_› ‹_›
    · cases h
  | readerTake =>
    simp only [step, Updater.recv_fst] at h
    split at h
    · exact Option.some_inj.mp h ▸ .readerTake ‹_› ‹_›
    · cases h
  | readerError =>
    simp only [step] at h
    split at h
    · obtain ⟨ha, ⟨⟩⟩ := Option.ite_none_left_eq_some.mp h
      exact .readerError ‹_› (by simpa using ha)
    · cases h
  | writer a =>
    cases a with
    | newSocket k => cases h
    | writeError =>
      simp only [step] at h
      split at h
      case h_1 k m hw =>
        obtain ⟨ha, h⟩ := Option.ite_none_left_eq_some.mp h
        obtain ⟨w, hw', rfl⟩ := Option.map_eq_some_iff.mp h
        simp only [ClientWriter.step, hw, Option.some_inj] at hw'
        subst hw'
        exact .writerError hw (by simpa using ha)
      case h_2 => cases h
    | enqueue m | takeSocket | takeMessage | writeOk =>
      simp only [step] at h
      obtain ⟨w, hw, rfl⟩ := Option.map_eq_some_iff.mp h
      exact .writer (by simp) (by simp) (ClientWriter.step_cases hw)
  | close k =>
    obtain ⟨⟨hm, ha, hh⟩, ⟨⟩⟩ := Option.ite_none_right_eq_some.mp h
    exact .close hm ha hh

end Session

/-- Client and server as a transition system. -/
def sessionSystem (me : Handshake) : System Session SessionAction :=
  ⟨fun s a => s.step me a⟩

namespace Session

variable {me : Handshake} {s t : Session} {a : SessionAction}

/-! ### The property -/

/-- The step is one that a task of the conversation or of its part of the server takes without
a new message or a new break. -/
def Internal (s : Session) : SessionAction → Prop
  | .server a => ∃ i ∈ a.internal?, s.mine i = true
  | .writer (.enqueue _) => False
  | _ => True

/-- No handshake is in progress, the error channel is empty, no task can step without a new
message or a new break, and no task holds a broken connection. -/
structure Quiescent (me : Handshake) (s : Session) : Prop where
  still : ∀ a, s.Internal a → s.step me a = none
  finished : ∀ i, s.mine i = true → s.server.handler i = .finished
  errors : s.errors = 0
  reader : ∀ k, s.reader.socket? = some k → s.server.alive k = true
  writer : ∀ k, s.writer.task.socket? = some k → s.server.alive k = true
  receiver : ∀ i, s.mine i = true → (s.server.receiver i).Running → s.server.alive i = true
  sender : ∀ i k, s.mine i = true → (s.server.sender i).socket? = some k →
    s.server.alive k = true

/-- In a quiescent state the connection that the server's sender writes to is the one that the
client's reader reads. -/
def Agrees (me : Handshake) (s : Session) : Prop :=
  s.Quiescent me → ∀ i k, s.server.handshake i = some me →
    (s.server.sender i).socket? = some k → s.reader = .reading k

/-- A half of a new connection is handed over to a thread that has no unbroken connection. -/
def HandsOverFreely (s : Session) : SessionAction → Prop
  | .handRd => ∀ k ∈ s.reader.socket?, s.server.alive k = false
  | .handWr => ∀ k ∈ s.writer.task.socket?, s.server.alive k = false
  | _ => True

instance (s : Session) (a : SessionAction) : Decidable (s.HandsOverFreely a) :=
  match a with
  | .handRd | .handWr => inferInstanceAs (Decidable (∀ k ∈ _, _))
  | .server _ | .connect | .connectFailed | .takeError | .readerTake | .readerError | .writer _
  | .close _ => .isTrue trivial

/-! ### The invariant -/

/-- The connections of the client are those that carry its handshake, and it holds no others. -/
structure Linked (me : Handshake) (s : Session) : Prop where
  wf : s.server.Wf
  mine_lt : ∀ k, s.mine k = true → k < s.server.accepted
  handshake : ∀ i, s.server.handshake i = some me → s.mine i = true
  holds : ∀ k, s.Holds k → s.mine k = true

/-- The reader has the connection, or will get it, unless it has an error to report. -/
structure ReaderOk (s : Session) (c : ℕ) : Prop where
  slot : ∀ k, s.rdUpdater.object = some k → k = c
  socket : ∀ k, s.reader.socket? = some k → k = c ∨ s.server.alive k = false
  error : s.reader = .waiting → s.rdUpdater.object = none → 0 < s.errors

/-- The writer has no other unbroken connection. -/
structure WriterOk (s : Session) (c : ℕ) : Prop where
  slot : ∀ k, s.writer.sockets.object = some k → k = c
  socket : ∀ k, s.writer.task.socket? = some k → k = c ∨ s.server.alive k = false

/-- Reader and writer have the connection handed over last, as far as it has been. -/
structure HalvesOk (s : Session) : Prop where
  reader : ∀ c, s.updater = .handWr c ∨ s.updater = .awaiting c → s.ReaderOk c
  writer : ∀ c, s.updater = .awaiting c → s.WriterOk c

/-- A step of the client's threads, after which they hold no other connections. -/
theorem Linked.of_client (hs : s.Linked me) (hsrv : t.server = s.server) (hm : t.mine = s.mine)
    (hh : ∀ k, t.Holds k → s.Holds k) : t.Linked me := by
  constructor
  · rw [hsrv]
    exact hs.wf
  · rw [hsrv, hm]
    exact hs.mine_lt
  · rw [hsrv, hm]
    exact hs.handshake
  · intro k hk
    rw [hm]
    exact hs.holds k (hh k hk)

namespace Holds

variable {k : ℕ}

theorem updater (hk : s.updater.connection? = some k) : s.Holds k := .inl hk

theorem rdUpdater (hk : s.rdUpdater.object = some k) : s.Holds k := .inr (.inl hk)

theorem reader (hk : s.reader.socket? = some k) : s.Holds k := .inr (.inr (.inl hk))

theorem sockets (hk : s.writer.sockets.object = some k) : s.Holds k :=
  .inr (.inr (.inr (.inl hk)))

theorem task (hk : s.writer.task.socket? = some k) : s.Holds k := .inr (.inr (.inr (.inr hk)))

end Holds

theorem mine_opened {k : ℕ} (hk : s.mine k = true) : s.opened.mine k = true := by
  by_cases hc : k = s.server.accepted <;> simp [opened, hc, hk]

/-- The client opens a connection, of which the server knows nothing yet. -/
theorem Linked.opened (hs : s.Linked me) : s.opened.Linked me := by
  refine ⟨Server.wf_step hs.wf .accept, fun k hk => ?_, fun i hi => ?_, fun k hk => ?_⟩
  · by_cases hc : k = s.server.accepted
    · exact Nat.lt_succ_of_le (Nat.le_of_eq hc)
    · exact Nat.lt_succ_of_lt (hs.mine_lt k (by simpa [Session.opened, hc] using hk))
  · exact mine_opened (hs.handshake i hi)
  · exact mine_opened (hs.holds k hk)

theorem linked_step (hs : s.Linked me) (h : Step me s a t) : t.Linked me := by
  cases h with
  | @server b u hok hu =>
    refine ⟨Server.wf_step hs.wf hu, fun k hk => ?_, fun i hi => ?_, hs.holds⟩
    · exact Nat.lt_of_lt_of_le (hs.mine_lt k hk) (Server.accepted_le hu)
    · obtain hi | rfl := Server.handshake_cases hu hi
      · exact hs.handshake i hi
      · -- whoever writes this handshake is the client
        exact hok.mpr rfl
  | connect hupd =>
    have ho := hs.opened
    refine ⟨ho.wf, ho.mine_lt, ho.handshake, fun k hk => ?_⟩
    obtain hk | hk := hk
    · cases hk
      exact update_self ..
    · exact mine_opened (hs.holds k (.inr hk))
  | connectFailed hupd =>
    have ho := hs.opened
    exact ⟨Server.wf_step ho.wf .disconnect, ho.mine_lt, ho.handshake, ho.holds⟩
  | @handRd c hupd =>
    refine hs.of_client rfl rfl ?_
    intro k hk
    obtain hk | hk | hk := hk
    · exact .updater (by rw [hupd]; exact hk)
    · -- the half that goes into the updater was the one at hand
      exact .updater (by rw [hupd]; exact hk)
    · exact .inr (.inr hk)
  | @handWr c hupd =>
    refine hs.of_client rfl rfl ?_
    intro k hk
    obtain hk | hk | hk | hk | hk := hk
    · cases hk
    · exact .rdUpdater hk
    · exact .reader hk
    · exact .updater (by rw [hupd]; exact hk)
    · exact .task hk
  | takeError hupd _ =>
    refine hs.of_client rfl rfl ?_
    intro k hk
    obtain hk | hk := hk
    · cases hk
    · exact .inr hk
  | @readerTake k hr hk =>
    refine hs.of_client rfl rfl ?_
    intro j hj
    obtain hj | hj | hj | hj := hj
    · exact .updater hj
    · simp at hj
    · exact .rdUpdater (hk.trans hj)
    · exact .inr (.inr (.inr hj))
  | readerError hr _ =>
    refine hs.of_client rfl rfl ?_
    intro j hj
    obtain hj | hj | hj | hj := hj
    · exact .updater hj
    · exact .rdUpdater hj
    · cases hj
    · exact .inr (.inr (.inr hj))
  | writerError hw _ =>
    refine hs.of_client rfl rfl ?_
    intro j hj
    obtain hj | hj | hj | hj | hj := hj
    · exact .updater hj
    · exact .rdUpdater hj
    · exact .reader hj
    · exact .sockets hj
    · cases hj
  | writer hne hns hw =>
    refine hs.of_client rfl rfl ?_
    intro j hj
    obtain hj | hj | hj | hj | hj := hj
    · exact .updater hj
    · exact .rdUpdater hj
    · exact .reader hj
    · exact .sockets (ClientWriter.slot_cases hns hw hj)
    · exact (ClientWriter.socket_cases hw hj).elim .task .sockets
  | close _ _ _ => exact ⟨Server.wf_step hs.wf .disconnect, hs.mine_lt, hs.handshake, hs.holds⟩

/-! ### The two halves -/

theorem ReaderOk.mono {c : ℕ} (hs : s.ReaderOk c) (hu : t.rdUpdater = s.rdUpdater)
    (hr : t.reader = s.reader) (he : s.errors ≤ t.errors)
    (hb : ∀ k, s.Holds k → s.server.alive k = false → t.server.alive k = false) :
    t.ReaderOk c := by
  constructor
  · rw [hu]
    exact hs.slot
  · intro k hk
    rw [hr] at hk
    exact (hs.socket k hk).imp id (hb k (.reader hk))
  · intro hw hn
    rw [hr] at hw
    rw [hu] at hn
    exact Nat.lt_of_lt_of_le (hs.error hw hn) he

theorem WriterOk.mono {c : ℕ} (hs : s.WriterOk c) (hw : t.writer = s.writer)
    (hb : ∀ k, s.Holds k → s.server.alive k = false → t.server.alive k = false) :
    t.WriterOk c := by
  constructor
  · rw [hw]
    exact hs.slot
  · intro k hk
    rw [hw] at hk
    exact (hs.socket k hk).imp id (hb k (.task hk))

/-- A step that leaves `socket_updater` where it is. -/
theorem HalvesOk.of_updater (hs : s.HalvesOk) (hu : t.updater = s.updater)
    (hr : ∀ c, s.ReaderOk c → t.ReaderOk c) (hw : ∀ c, s.WriterOk c → t.WriterOk c) :
    t.HalvesOk := by
  constructor
  · intro c hc
    rw [hu] at hc
    exact hr c (hs.reader c hc)
  · intro c hc
    rw [hu] at hc
    exact hw c (hs.writer c hc)

theorem halvesOk_step (hs : s.Linked me) (hH : s.HalvesOk) (hC : s.HandsOverFreely a)
    (h : Step me s a t) : t.HalvesOk := by
  have hlt : ∀ k, s.Holds k → k < s.server.accepted := fun k hk => hs.mine_lt k (hs.holds k hk)
  cases h with
  | @server b u hok hu =>
    have hb : ∀ k, s.Holds k → s.server.alive k = false → u.alive k = false :=
      fun k hk => Server.broken_mono hu (hlt k hk)
    exact hH.of_updater rfl (fun c hc => hc.mono rfl rfl (Nat.le_refl _) hb)
      (fun c hc => hc.mono rfl hb)
  | connect _ | connectFailed hc | takeError _ _ =>
    constructor <;> intro c hc <;> simp_all [opened]
  | @handRd c hupd =>
    constructor
    · -- the reader has no other unbroken connection, by the condition
      intro d hd
      obtain rfl : c = d := by simpa using hd
      exact ⟨by simp, fun k hk => .inr (hC k hk), by simp⟩
    · intro d hd
      cases hd
  | @handWr c hupd =>
    constructor
    · intro d hd
      obtain rfl : c = d := by simpa using hd
      exact (hH.reader c (.inl hupd)).mono rfl rfl (Nat.le_refl _) fun _ _ => id
    · intro d hd
      obtain rfl : c = d := by simpa using hd
      exact ⟨by simp, fun k hk => .inr (hC k hk)⟩
  | @readerTake k hr hk =>
    refine hH.of_updater rfl (fun c hc => ⟨by simp, fun j hj => .inl ?_, by simp⟩)
      (fun c hc => hc.mono rfl fun _ _ => id)
    exact hc.slot j (hk.trans hj)
  | readerError hr _ =>
    exact hH.of_updater rfl (fun c hc => ⟨hc.slot, fun j hj => (nomatch hj), by simp⟩)
      (fun c hc => hc.mono rfl fun _ _ => id)
  | writerError hw _ =>
    exact hH.of_updater rfl (fun c hc => hc.mono rfl rfl (Nat.le_succ _) fun _ _ => id)
      (fun c hc => ⟨hc.slot, fun j hj => by cases hj⟩)
  | writer hne hns hw =>
    refine hH.of_updater rfl (fun c hc => hc.mono rfl rfl (Nat.le_refl _) fun _ _ => id)
      (fun c hc => ⟨fun j hj => ?_, fun j hj => ?_⟩)
    · exact hc.slot j (ClientWriter.slot_cases hns hw hj)
    · obtain hj | hj := ClientWriter.socket_cases hw hj
      · exact hc.socket j hj
      · exact .inl (hc.slot j hj)
  | @close k _ _ _ =>
    have hb : ∀ j, s.Holds j → s.server.alive j = false →
        (s.server.disconnect k).alive j = false :=
      fun j hj => Server.broken_mono .disconnect (hlt j hj)
    exact hH.of_updater rfl (fun c hc => hc.mono rfl rfl (Nat.le_refl _) hb)
      (fun c hc => hc.mono rfl hb)

theorem Linked.init : Session.init.Linked me where
  wf := .init
  mine_lt k hk := by cases hk
  handshake i hi := by cases hi
  holds k hk := by obtain hk | hk | hk | hk | hk := hk <;> cases hk

theorem HalvesOk.init : Session.init.HalvesOk where
  reader c hc := by obtain hc | hc := hc <;> cases hc
  writer c hc := by cases hc

/-! ### Agreement -/

theorem agrees_of_halvesOk (hs : s.Linked me) (hH : s.HalvesOk) : s.Agrees me := by
  intro hQ i k hi hk
  have hstill := hQ.still
  -- `socket_updater` waits for an error on the connection it made last
  obtain ⟨c, hc⟩ : ∃ c, s.updater = .awaiting c := by
    cases hu : s.updater with
    | connecting => simpa [step, hu] using hstill .connect trivial
    | handRd c => simpa [step, hu] using hstill .handRd trivial
    | handWr c => simpa [step, hu, ClientWriter.step] using hstill .handWr trivial
    | awaiting c => exact ⟨c, rfl⟩
  have hrd := hH.reader c (.inr hc)
  have hwr := hH.writer c hc
  -- the reader works with it
  have hreading : s.reader = .reading c := by
    cases hr : s.reader with
    | waiting =>
      cases ho : s.rdUpdater.object with
      | none =>
        have herr := hrd.error hr ho
        rw [hQ.errors] at herr
        cases herr
      | some j => simpa [step, hr, ho] using hstill .readerTake trivial
    | reading j =>
      obtain rfl | ha := hrd.socket j (by rw [hr]; rfl)
      · rfl
      · cases ha.symm.trans (hQ.reader j (by rw [hr]; rfl))
  -- and so does everybody who holds an unbroken connection
  have hmine := hs.handshake i hi
  have halive := hQ.sender i k hmine hk
  obtain ⟨h, hkh, hih⟩ := hs.wf.sockets.owns i k (.inr hk)
  obtain rfl : h = me := Option.some_inj.mp (hih.symm.trans hi)
  have hholds : s.Holds k := by
    by_contra hn
    -- the client would close a connection of which it holds no half
    simpa [step, hs.handshake k hkh, halive, hn] using hstill (.close k) trivial
  have hkc : k = c := by
    obtain h | h | h | h | h := hholds
    · simp [hc, SocketUpdater.connection?] at h
    · exact hrd.slot k h
    · exact (hrd.socket k h).resolve_right (by simp [halive])
    · exact hwr.slot k h
    · exact (hwr.socket k h).resolve_right (by simp [halive])
  rw [hkc, hreading]

/-- In a run in which every half of a new connection goes to a thread that has no unbroken
connection, client and server agree on the connection in every quiescent state. -/
theorem agrees_of_along {as : List SessionAction}
    (hC : (sessionSystem me).Along HandsOverFreely .init as) :
    (sessionSystem me).Always (Agrees me) .init as :=
  System.always_of_along (I := fun s => s.Linked me ∧ s.HalvesOk)
    (fun _ _ _ hs hC h =>
      ⟨linked_step hs.1 (step_cases h), halvesOk_step hs.1 hs.2 hC (step_cases h)⟩)
    (fun _ hs => agrees_of_halvesOk hs.1 hs.2) ⟨.init, .init⟩ hC

/-- The client connects, loses the connection, and its reader and its writer both notice. The
writer is the later one: its error makes `socket_updater` replace a connection that works, and
the sender, which has not yet asked for its first socket, gets the replacement. -/
def staleError : List SessionAction :=
  let a : Handshake := ⟨"a", "g"⟩
  let m : SerializedMessage := ⟨[], .receipt⟩
  let db := (∅ : GroupSnds).insert "a" 0
  [.connect, .handRd, .handWr, .readerTake, .writer .takeSocket, .server (.handshake 0 a),
    .server (.handle 0), .server (.handle 0), .server (.handle 0), .server (.handle 0),
    .server (.handle 0), .server (.handle 0), .server (.poll 0),
    .server (.disconnect 0), .readerError, .takeError, .connect, .handRd, .handWr, .readerTake,
    .server (.handshake 1 a), .server (.handle 1), .server (.handle 1), .server (.handle 1),
    .server (.poll 1), .writer (.enqueue m), .writer .takeMessage, .writer .writeError,
    .takeError, .connect, .handRd, .handWr, .writer .takeSocket,
    .server (.handshake 2 a), .server (.handle 2), .server (.handle 2), .server (.handle 2),
    .server (.poll 2), .server (.takeSocket 0), .server .endRegistration,
    .server (.snapshot 0 db), .server (.readError 0), .server (.snapshot 1 db),
    .server (.snapshot 2 db)]

/-- The receiver waits for a message on an unbroken connection, or is not there. -/
def receiverRests (s : Session) (i : ℕ) : Bool :=
  match s.server.receiver i with
  | .absent | .ended | .panicked => true
  | .receiving _ => s.server.alive i && !s.server.socketNotify i
  | _ => false

/-- The sender waits for a message with an unbroken connection, or is not there. -/
def senderRests (s : Session) (i : ℕ) : Bool :=
  match s.server.sender i with
  | .absent | .panicked => true
  | .idle k => s.server.alive k && (s.server.channel i).pop?.isNone && s.server.channelOpen i
  | _ => false

/-- The client's threads and the server's tasks wait. The reader has connection `k` and the
writer connection `l`. -/
structure AtRest (s : Session) (k l : ℕ) : Prop where
  updater : s.updater = .awaiting l
  errors : s.errors = 0
  reader : s.reader = .reading k
  task : s.writer.task = .idle l
  messages : s.writer.messages.pop? = none
  alive : s.server.alive k = true ∧ s.server.alive l = true
  others : ∀ i < s.server.accepted, s.server.alive i = true → i = k ∨ i = l
  handler : ∀ i < s.server.accepted, s.server.handler i = .finished
  receiver : ∀ i < s.server.accepted, s.receiverRests i = true
  sender : ∀ i < s.server.accepted, s.senderRests i = true

namespace AtRest

variable {i k l : ℕ}

theorem server_step {b : ServerAction} (hX : s.AtRest k l) (hi : i < s.server.accepted)
    (hb : b.internal? = some i) : s.server.step b = none := by
  have hh := hX.handler i hi
  have hr := hX.receiver i hi
  have hsnd := hX.sender i hi
  cases b <;> cases hb
  case handshake | refuse | handle => simp [Server.step, Server.handle, hh]
  case poll | snapshot | readError | put | terminate =>
    unfold receiverRests at hr
    split at hr <;> simp_all [Server.step, ReceiverTask.AtAwait]
  case takeSocket | takeMessage | channelClosed | written | writeError =>
    unfold senderRests at hsnd
    split at hsnd <;> simp_all [Server.step]

/-- Nothing is left to do there. -/
theorem quiescent (hs : s.Linked me) (hX : s.AtRest k l) : s.Quiescent me := by
  constructor
  case still =>
    intro a ha
    cases a with
    | server b =>
      obtain ⟨i, hi, hm⟩ := ha
      simp [step, hX.server_step (hs.mine_lt i hm) hi]
    | writer b => cases b <;> simp_all [step, Internal, ClientWriter.step, hX.task, hX.messages]
    | close j =>
      simp only [step, ite_eq_right_iff, reduceCtorEq, imp_false]
      rintro ⟨hm, ha, hh⟩
      obtain rfl | rfl := hX.others j (hs.mine_lt j hm) ha
      · exact hh (.reader (by rw [hX.reader]; rfl))
      · exact hh (.task (by rw [hX.task]; rfl))
    | _ => simp [step, hX.updater, hX.errors, hX.reader, hX.alive]
  case finished => exact fun i hi => hX.handler i (hs.mine_lt i hi)
  case errors => exact hX.errors
  case reader =>
    intro j hj
    rw [hX.reader] at hj
    cases hj
    exact hX.alive.1
  case writer =>
    intro j hj
    rw [hX.task] at hj
    cases hj
    exact hX.alive.2
  case receiver =>
    intro i hi hrun
    have hr := hX.receiver i (hs.mine_lt i hi)
    unfold receiverRests at hr
    split at hr <;> simp_all [ReceiverTask.Running]
  case sender =>
    intro i j hi hj
    have hsnd := hX.sender i (hs.mine_lt i hi)
    unfold senderRests at hsnd
    split at hsnd <;> simp_all [SenderTask.socket?]

end AtRest

theorem linked_of_run {as : List SessionAction}
    (hrun : (sessionSystem me).run .init as = some s) : s.Linked me :=
  System.invariant (I := Linked me) (fun _ _ _ hs h => linked_step hs (step_cases h)) .init hrun

theorem atRest_staleError : ∃ s, (sessionSystem ⟨"a", "g"⟩).run .init staleError = some s ∧
    s.AtRest 1 2 ∧ s.server.handshake 0 = some ⟨"a", "g"⟩ ∧
    (s.server.sender 0).socket? = some 2 :=
  ⟨_, rfl, ⟨rfl, rfl, rfl, rfl, rfl, ⟨rfl, rfl⟩, by decide +kernel, by decide +kernel,
    by decide +kernel, by decide +kernel⟩, rfl, rfl⟩

theorem connections_cross :
    ¬ (sessionSystem ⟨"a", "g"⟩).Always (Agrees ⟨"a", "g"⟩) .init staleError := by
  intro hP
  obtain ⟨s, hrun, hX, hh, hk⟩ := atRest_staleError
  have hag := hP.last hrun (hX.quiescent (linked_of_run hrun)) 0 2 hh hk
  cases hX.reader.symm.trans hag

/-- The same client, when its writer asks for its first socket after the break, which only the
reader notices. -/
def reconnect : List SessionAction :=
  let a : Handshake := ⟨"a", "g"⟩
  let db := (∅ : GroupSnds).insert "a" 0
  [.connect, .handRd, .handWr, .readerTake, .server (.handshake 0 a), .server (.handle 0),
    .server (.handle 0), .server (.handle 0), .server (.handle 0), .server (.handle 0),
    .server (.handle 0), .server (.poll 0), .server (.disconnect 0), .readerError, .takeError,
    .connect, .handRd, .handWr, .readerTake, .writer .takeSocket, .server (.handshake 1 a),
    .server (.handle 1), .server (.handle 1), .server (.handle 1), .server (.takeSocket 0),
    .server (.poll 1), .server .endRegistration, .server (.snapshot 0 db),
    .server (.snapshot 1 db), .server (.readError 0)]

theorem agrees_reconnect : ∃ s, (sessionSystem ⟨"a", "g"⟩).run .init reconnect = some s ∧
    (sessionSystem ⟨"a", "g"⟩).Always (Agrees ⟨"a", "g"⟩) .init reconnect ∧
    s.Quiescent ⟨"a", "g"⟩ ∧ (s.server.sender 0).socket? = some 1 ∧ s.reader = .reading 1 := by
  obtain ⟨s, hrun, hX, hh, hk⟩ : ∃ s,
      (sessionSystem ⟨"a", "g"⟩).run .init reconnect = some s ∧ s.AtRest 1 1 ∧
        s.server.handshake 0 = some ⟨"a", "g"⟩ ∧ (s.server.sender 0).socket? = some 1 :=
    ⟨_, rfl, ⟨rfl, rfl, rfl, rfl, rfl, ⟨rfl, rfl⟩, by decide +kernel, by decide +kernel,
      by decide +kernel, by decide +kernel⟩, rfl, rfl⟩
  have hagrees : (sessionSystem ⟨"a", "g"⟩).Always (Agrees ⟨"a", "g"⟩) .init reconnect :=
    agrees_of_along (by decide +kernel)
  have hquiescent := hX.quiescent (linked_of_run hrun)
  exact ⟨s, hrun, hagrees, hquiescent, hk, hagrees.last hrun hquiescent 0 1 hh hk⟩

end Session

end SignalSim.Mgen
