import SignalSim.Foundations.Fifo
import SignalSim.Foundations.Transition
import SignalSim.Mgen.Wire.Stream

/-!
# Senders that resend, and their receivers

The server's `send_messages` and the peer's `writer` keep a message whose write fails and write
it again on the next connection. Their receivers read messages off each connection in turn
until the stream ends. A write succeeds exactly if all bytes of the message get through; a
connection that breaks leaves the receiver with the bytes that did.

The two ends disagree about a message that is cut inside its body: the sender sees its write
fail, but `get_message` copies the body to a sink without noticing that the stream has ended,
and hands the message on.

## Main definitions

* `Resender` — a sender's queue, the message at hand, and what each connection has carried
* `Resender.handedOn` — what the receiver hands on, each message with its place in the queue
* `Resender.InOrder` — that is a prefix of the queue
* `Resender.CutsOnce` — a message cut inside its body does not get as far again

## Main results

* `Resender.inOrder_iff` — a run keeps the order exactly if all its writes meet the condition
* `Resender.message_repeated` — a break inside a body
-/

namespace SignalSim.Mgen

/-- The two functions that resend. -/
inductive ResendLoop
  /-- `send_messages` of the server: takes a socket before its first message. -/
  | sendMessages
  /-- `writer` of a peer: connects once it has a message. -/
  | writer
  deriving DecidableEq

/-- Whether messages are in the format between peers. -/
def ResendLoop.p2p : ResendLoop → Bool
  | sendMessages => false
  | writer => true

/-- A sender with the connections it has used. -/
structure Resender where
  /-- The channel of messages to send. -/
  queue : Fifo MessageHeader
  /-- The message being sent, or kept after a failed write. -/
  hand : Option MessageHeader
  /-- Whether the sender has a socket that has not failed. -/
  connected : Bool
  /-- How many messages have been written successfully. -/
  written : ℕ
  /-- The places of the messages whose writes began on the current connection. -/
  begun : List ℕ
  /-- The bytes that have come through on the current connection. -/
  bytes : Bytes
  /-- The same for the connections that have broken. -/
  broken : List (List ℕ × Bytes)
  /-- The place of the message that each of them broke in, and how many of its bytes have come
  through. -/
  cuts : List (ℕ × ℕ)

inductive ResendAction
  /-- A message is put on the channel. -/
  | enqueue (m : MessageHeader)
  /-- The sender takes or makes a new connection. -/
  | connect
  /-- The sender takes a message from the channel. -/
  | take
  /-- The sender writes the message at hand, and up to `n` bytes of it come through. -/
  | write (n : ℕ)
  deriving DecidableEq

namespace Resender

def init : Resender where
  queue := .empty
  hand := none
  connected := false
  written := 0
  begun := []
  bytes := []
  broken := []
  cuts := []

/-- The write succeeds. -/
def writeOk (s : Resender) (p2p : Bool) (m : MessageHeader) : Resender :=
  { s with
    hand := none
    written := s.written + 1
    begun := s.begun ++ [s.written]
    bytes := s.bytes ++ m.frame p2p }

/-- The connection breaks after `n` bytes of the message, which is kept. -/
def writeError (s : Resender) (p2p : Bool) (m : MessageHeader) (n : ℕ) : Resender :=
  { s with
    connected := false
    begun := []
    bytes := []
    broken := s.broken ++ [(s.begun ++ [s.written], s.bytes ++ (m.frame p2p).take n)]
    cuts := s.cuts ++ [(s.written, n)] }

/-- One step of a sender that resends. -/
def step (loop : ResendLoop) (s : Resender) : ResendAction → Option Resender
  | .enqueue m => if m.Fits then some { s with queue := s.queue.push m } else none
  | .connect =>
    if s.connected = false ∧ (loop = .writer → s.hand.isSome) then
      some { s with connected := true }
    else none
  | .take =>
    match s.hand, s.queue.pop? with
    | none, some (m, q) =>
      if loop = .sendMessages → s.connected = true then
        some { s with hand := some m, queue := q }
      else none
    | _, _ => none
  | .write n =>
    match s.connected, s.hand with
    | true, some m =>
      if (m.frame loop.p2p).length ≤ n then some (s.writeOk loop.p2p m)
      else some (s.writeError loop.p2p m n)
    | _, _ => none

/-- The ways in which a sender steps. -/
inductive Step (loop : ResendLoop) (s : Resender) : ResendAction → Resender → Prop
  | enqueue {m} : m.Fits → Step loop s (.enqueue m) { s with queue := s.queue.push m }
  | connect : s.connected = false → Step loop s .connect { s with connected := true }
  | take {m q} : s.hand = none → s.queue.pop? = some (m, q) →
      Step loop s .take { s with hand := some m, queue := q }
  | writeOk {m n} : s.connected = true → s.hand = some m → (m.frame loop.p2p).length ≤ n →
      Step loop s (.write n) (s.writeOk loop.p2p m)
  | writeError {m n} : s.connected = true → s.hand = some m → n < (m.frame loop.p2p).length →
      Step loop s (.write n) (s.writeError loop.p2p m n)

variable {loop : ResendLoop} {s t : Resender} {a : ResendAction}

/-- **Inversion.** What a step can have been. -/
theorem step_cases (h : s.step loop a = some t) : Step loop s a t := by
  cases a with
  | enqueue m =>
    obtain ⟨hm, ⟨⟩⟩ := Option.ite_none_right_eq_some.mp h
    exact .enqueue hm
  | connect =>
    obtain ⟨hc, ⟨⟩⟩ := Option.ite_none_right_eq_some.mp h
    exact .connect hc.1
  | take =>
    simp only [step] at h
    split at h
    · obtain ⟨-, ⟨⟩⟩ := Option.ite_none_right_eq_some.mp h
      exact .take ‹_› ‹_›
    · cases h
  | write n =>
    simp only [step] at h
    split at h
    · split at h
      · exact Option.some_inj.mp h ▸ .writeOk ‹_› ‹_› ‹_›
      · exact Option.some_inj.mp h ▸ .writeError ‹_› ‹_› (Nat.lt_of_not_le ‹_›)
    · cases h

/-- What the receiver hands on when it has read everything that has come through: of each
connection the messages it gets, with their places in the queue. -/
def handedOn (p2p : Bool) (s : Resender) : List (MessageHeader × ℕ) :=
  (s.broken ++ [(s.begun, s.bytes)]).flatMap fun c => (readMessages p2p c.2).zip c.1

/-- The messages handed on are a prefix of those queued: each at most once, in order, none
skipped. -/
def InOrder (p2p : Bool) (s : Resender) : Prop :=
  s.handedOn p2p <+: s.queue.log.zipIdx

/-- An earlier connection has broken inside the body of the message at hand. -/
def CutInBody (s : Resender) (m : MessageHeader) : Prop :=
  ∃ c ∈ s.cuts, c.1 = s.written ∧ m.headerLen ≤ c.2

instance (s : Resender) (m : MessageHeader) : Decidable (s.CutInBody m) :=
  inferInstanceAs (Decidable (∃ c ∈ _, _))

/-- A message that was cut inside its body does not get through again as far as to the end of
its header. -/
def CutsOnce (s : Resender) : ResendAction → Prop
  | .write n => ∀ m ∈ s.hand, s.CutInBody m → n < m.headerLen
  | _ => True

instance (s : Resender) (a : ResendAction) : Decidable (s.CutsOnce a) :=
  match a with
  | .write _ => inferInstanceAs (Decidable (∀ m ∈ _, _ → _))
  | .enqueue _ | .connect | .take => .isTrue trivial

/-- The systems of the two loops. -/
def system (loop : ResendLoop) : System Resender ResendAction := ⟨step loop⟩

/-! ### What a step hands on -/

/-- What holds in every reachable state. -/
structure Ok (p2p : Bool) (s : Resender) : Prop where
  fits : ∀ m ∈ s.queue.log, m.Fits
  /-- The messages taken are those written and the one at hand. -/
  taken : s.queue.received.length = s.written + s.hand.toList.length
  hand : ∀ m, s.hand = some m → s.queue.log[s.written]? = some m
  /-- The current connection carries whole messages. -/
  bytes : ∃ ms : List MessageHeader, (∀ m ∈ ms, m.Fits) ∧
    s.bytes = (ms.map (·.frame p2p)).flatten ∧ ms.length = s.begun.length
  fresh : s.connected = false → s.begun = [] ∧ s.bytes = []
  /-- A message has been cut only if it has not been written yet. -/
  cuts : ∀ c ∈ s.cuts, c.1 < s.written ∨ c.1 = s.written ∧ s.hand.isSome
  /-- A message cut inside its body has been handed on. -/
  cut : ∀ c ∈ s.cuts, ∀ m, s.queue.log[c.1]? = some m → m.headerLen ≤ c.2 →
    (m, c.1) ∈ s.handedOn p2p

theorem Ok.readMessages_bytes {p2p : Bool} (hs : s.Ok p2p) (rest : Bytes) (l : List ℕ) :
    (readMessages p2p (s.bytes ++ rest)).zip (s.begun ++ l) =
      (readMessages p2p s.bytes).zip s.begun ++ (readMessages p2p rest).zip l := by
  obtain ⟨ms, hfit, hbytes, hlen⟩ := hs.bytes
  have hms : readMessages p2p s.bytes = ms := by
    have := readMessages_append p2p hfit []
    rwa [List.append_nil, ← hbytes, readMessages_nil, List.append_nil] at this
  rw [hms, hbytes, readMessages_append p2p hfit, List.zip_append hlen]

theorem handedOn_writeOk {m : MessageHeader} (hs : s.Ok loop.p2p) (hm : m.Fits) :
    (s.writeOk loop.p2p m).handedOn loop.p2p = s.handedOn loop.p2p ++ [(m, s.written)] := by
  have hread : readMessages loop.p2p (m.frame loop.p2p) = [m] := by
    have := readMessages_append loop.p2p (List.forall_mem_singleton.mpr hm) []
    simpa using this
  simp only [handedOn, writeOk, List.flatMap_append, List.flatMap_singleton]
  rw [hs.readMessages_bytes, hread, List.append_assoc]
  rfl

theorem handedOn_writeError {m : MessageHeader} {n : ℕ} (hs : s.Ok loop.p2p) (hm : m.Fits)
    (hn : n < (m.frame loop.p2p).length) :
    (s.writeError loop.p2p m n).handedOn loop.p2p =
      s.handedOn loop.p2p ++ if m.headerLen ≤ n then [(m, s.written)] else [] := by
  simp only [handedOn, writeError, List.flatMap_append, List.flatMap_singleton,
    readMessages_nil, List.zip_nil_left, List.append_nil]
  rw [hs.readMessages_bytes, readMessages_take loop.p2p hm hn, List.append_assoc]
  by_cases hle : m.headerLen ≤ n <;> simp [hle]

/-- The message at hand is one of the queue. -/
theorem Ok.fits_hand {p2p : Bool} (hs : s.Ok p2p) {m : MessageHeader} (hm : s.hand = some m) :
    m.Fits :=
  hs.fits m (List.mem_of_getElem? (hs.hand m hm))

/-- Only writes hand anything on. -/
theorem handedOn_cases (hs : s.Ok loop.p2p) (h : Step loop s a t) :
    t.handedOn loop.p2p = s.handedOn loop.p2p ∨
      ∃ m n, a = .write n ∧ s.hand = some m ∧ m.headerLen ≤ n ∧
        t.handedOn loop.p2p = s.handedOn loop.p2p ++ [(m, s.written)] := by
  cases h with
  | enqueue | connect | take => exact .inl rfl
  | @writeOk m n _ hm hn =>
    refine .inr ⟨m, n, rfl, hm, Nat.le_trans ?_ hn, handedOn_writeOk hs (hs.fits_hand hm)⟩
    simp [MessageHeader.frame]
  | @writeError m n _ hm hn =>
    rw [handedOn_writeError hs (hs.fits_hand hm) hn]
    by_cases hle : m.headerLen ≤ n
    · exact .inr ⟨m, n, rfl, hm, hle, by rw [if_pos hle]⟩
    · exact .inl (by rw [if_neg hle, List.append_nil])

theorem Ok.lt_of_cut {p2p : Bool} (hs : s.Ok p2p) {c : ℕ × ℕ} (hc : c ∈ s.cuts) :
    c.1 < s.queue.log.length := by
  obtain hlt | ⟨he, hi⟩ := hs.cuts c hc
  · have hlen := s.queue.isPrefix_received.length_le
    have := hs.taken
    omega
  · obtain ⟨m, hm⟩ := Option.isSome_iff_exists.mp hi
    rw [he]
    exact (List.getElem?_eq_some_iff.mp (hs.hand m hm)).1

theorem ok_step (hs : s.Ok loop.p2p) (h : Step loop s a t) : t.Ok loop.p2p := by
  -- what has been handed on stays so
  have hcut : t.queue.log = s.queue.log → ∀ c ∈ s.cuts, ∀ m, t.queue.log[c.1]? = some m →
      m.headerLen ≤ c.2 → (m, c.1) ∈ t.handedOn loop.p2p := by
    intro hlog c hc m hm hle
    rw [hlog] at hm
    have hold := hs.cut c hc m hm hle
    obtain he | ⟨_, _, _, _, _, he⟩ := handedOn_cases hs h
    · rwa [he]
    · rw [he]
      exact List.mem_append_left _ hold
  cases h with
  | @enqueue m hm =>
    refine ⟨fun m' hm' => ?_, by simpa using hs.taken, fun m' hm' => ?_, hs.bytes, hs.fresh,
      hs.cuts, fun c hc m' hm' => ?_⟩
    · obtain hm' | hm' := List.mem_append.mp hm'
      · exact hs.fits m' hm'
      · rw [List.mem_singleton.mp hm']
        exact hm
    · exact List.getElem?_append_left (List.getElem?_eq_some_iff.mp (hs.hand m' hm')).1 ▸
        hs.hand m' hm'
    · -- the cut messages keep their places
      have hlt := hs.lt_of_cut hc
      rw [Fifo.log_push, List.getElem?_append_left hlt] at hm'
      exact hs.cut c hc m' hm'
  | connect hc =>
    exact ⟨hs.fits, hs.taken, hs.hand, hs.bytes, fun h => (by cases h), hs.cuts, hcut rfl⟩
  | @take m q hh hq =>
    obtain ⟨hlog, hrec, hpend⟩ := Fifo.pop?_eq_some hq
    have htaken := hs.taken
    rw [hh] at htaken
    refine ⟨by simpa only [hlog] using hs.fits, ?_, fun m' hm' => ?_, hs.bytes, hs.fresh,
      fun c hc => ?_, hcut hlog⟩
    · simp [hrec, htaken]
    · -- the message taken is the first one that was not
      obtain rfl := Option.some_inj.mp hm'
      have hall := s.queue.received_append_pending
      rw [hpend] at hall
      rw [hlog, ← hall, List.getElem?_append_right (by simp [htaken])]
      simp [htaken]
    · obtain hlt | ⟨-, hi⟩ := hs.cuts c hc
      · exact .inl hlt
      · rw [hh] at hi
        cases hi
  | @writeOk m n hconn hm hn =>
    obtain ⟨ms, hms, hbytes, hlen⟩ := hs.bytes
    refine ⟨hs.fits, ?_, fun m' hm' => (by cases hm'), ⟨ms ++ [m], ?_, ?_, ?_⟩,
      fun hc => ?_, fun c hc => ?_, hcut rfl⟩
    · simpa [writeOk, hm] using hs.taken
    · intro m' hm'
      obtain hm' | hm' := List.mem_append.mp hm'
      · exact hms m' hm'
      · rw [List.mem_singleton.mp hm']
        exact hs.fits_hand hm
    · simp [writeOk, hbytes]
    · simp [writeOk, hlen]
    · cases hc.symm.trans hconn
    · obtain hlt | ⟨he, -⟩ := hs.cuts c hc
      · exact .inl (Nat.lt_succ_of_lt hlt)
      · exact .inl (Nat.lt_succ_of_le (Nat.le_of_eq he))
  | @writeError m n hconn hm hn =>
    refine ⟨hs.fits, hs.taken, hs.hand, ⟨[], by simp, rfl, rfl⟩, fun _ => ⟨rfl, rfl⟩,
      fun c hc => ?_, fun c hc m' hm' hle => ?_⟩
    · obtain hc | hc := List.mem_append.mp hc
      · exact hs.cuts c hc
      · rw [List.mem_singleton.mp hc]
        exact .inr ⟨rfl, by simp [writeError, hm]⟩
    · obtain hc | hc := List.mem_append.mp hc
      · exact hcut rfl c hc m' hm' hle
      · -- the new cut is in the message at hand
        rw [List.mem_singleton.mp hc] at hm' hle ⊢
        obtain rfl : m' = m := Option.some_inj.mp (hm'.symm.trans (hs.hand m hm))
        rw [handedOn_writeError hs (hs.fits_hand hm) hn, if_pos hle]
        exact List.mem_append_right _ List.mem_cons_self

theorem Ok.init (p2p : Bool) : Resender.init.Ok p2p where
  fits m hm := by cases hm
  taken := rfl
  hand m hm := by cases hm
  bytes := ⟨[], by simp, rfl, rfl⟩
  fresh _ := ⟨rfl, rfl⟩
  cuts c hc := by cases hc
  cut c hc := by cases hc

/-! ### Order -/

/-- The receiver has handed on what has been written, and at most one message more: the one at
hand, when it has been cut inside its body. -/
structure Ordered (p2p : Bool) (s : Resender) : Prop where
  behind : (∀ m, s.hand = some m → ¬ s.CutInBody m) →
    s.handedOn p2p = s.queue.log.zipIdx.take s.written
  ahead : ∀ m, s.hand = some m → s.CutInBody m →
    s.handedOn p2p = s.queue.log.zipIdx.take (s.written + 1)

theorem Ok.take_zipIdx {p2p : Bool} (hs : s.Ok p2p) {m : MessageHeader} (hm : s.hand = some m) :
    s.queue.log.zipIdx.take (s.written + 1) =
      s.queue.log.zipIdx.take s.written ++ [(m, s.written)] := by
  have hget : s.queue.log.zipIdx[s.written]? = some (m, s.written) := by
    rw [List.getElem?_zipIdx, hs.hand m hm]
    simp
  rw [List.take_add_one, hget]
  rfl

theorem Ok.written_le {p2p : Bool} (hs : s.Ok p2p) : s.written ≤ s.queue.log.length := by
  have hlen := s.queue.isPrefix_received.length_le
  have := hs.taken
  omega

/-- A write that fails inside the body cuts the message there. -/
theorem cutInBody_writeError {p2p : Bool} {m m' : MessageHeader} {n : ℕ} :
    (s.writeError p2p m n).CutInBody m' ↔ s.CutInBody m' ∨ m'.headerLen ≤ n := by
  simp only [CutInBody, writeError, List.mem_append, List.mem_singleton]
  constructor
  · rintro ⟨c, hc | rfl, he, hle⟩
    · exact .inl ⟨c, hc, he, hle⟩
    · exact .inr hle
  · rintro (⟨c, hc, he, hle⟩ | hle)
    · exact ⟨c, .inl hc, he, hle⟩
    · exact ⟨_, .inr rfl, rfl, hle⟩

/-- A message just taken has not been cut. -/
theorem Ok.not_cutInBody {p2p : Bool} (hs : s.Ok p2p) (hh : s.hand = none) (m : MessageHeader) :
    ¬ s.CutInBody m := by
  rintro ⟨c, hc, he, -⟩
  obtain hlt | ⟨-, hi⟩ := hs.cuts c hc
  · omega
  · rw [hh] at hi
    cases hi

theorem ordered_step (hs : s.Ok loop.p2p) (hO : s.Ordered loop.p2p) (hC : s.CutsOnce a)
    (h : Step loop s a t) : t.Ordered loop.p2p := by
  cases h with
  | @enqueue m _ =>
    have htake : ∀ n ≤ s.queue.log.length, (s.queue.log ++ [m]).zipIdx.take n =
        s.queue.log.zipIdx.take n := by
      intro n hn
      rw [List.zipIdx_append, List.take_append_of_le_length (by simpa using hn)]
    refine ⟨fun hb => ?_, fun m' hm' hc => ?_⟩
    · exact (hO.behind hb).trans (htake _ hs.written_le).symm
    · have hlt := (List.getElem?_eq_some_iff.mp (hs.hand m' hm')).1
      exact (hO.ahead m' hm' hc).trans (htake _ hlt).symm
  | connect _ => exact ⟨hO.behind, hO.ahead⟩
  | @take m q hh hq =>
    have hlog := (Fifo.pop?_eq_some hq).1
    refine ⟨fun _ => ?_, fun m' hm' hc => ?_⟩
    · rw [hlog]
      exact hO.behind (by simp [hh])
    · cases hm'
      exact absurd hc (hs.not_cutInBody hh m)
  | @writeOk m n _ hm hn =>
    have hlen : m.headerLen ≤ n := Nat.le_trans (by simp [MessageHeader.frame]) hn
    have hnot : ¬ s.CutInBody m := fun hc => Nat.not_lt_of_le hlen (hC m hm hc)
    refine ⟨fun _ => ?_, fun m' hm' => by cases hm'⟩
    rw [handedOn_writeOk hs (hs.fits_hand hm), hO.behind (by simpa [hm] using hnot)]
    exact (hs.take_zipIdx hm).symm
  | @writeError m n _ hm hn =>
    have hh := handedOn_writeError hs (hs.fits_hand hm) hn
    by_cases hle : m.headerLen ≤ n
    · -- cut inside its body, and for the first time: the receiver is one message ahead
      have hnot : ¬ s.CutInBody m := fun hc => Nat.not_lt_of_le hle (hC m hm hc)
      refine ⟨fun hb => absurd (cutInBody_writeError.mpr (.inr hle)) (hb m hm),
        fun m' hm' _ => ?_⟩
      rw [hh, if_pos hle, hO.behind (by simpa [hm] using hnot)]
      exact (hs.take_zipIdx hm).symm
    · rw [if_neg hle, List.append_nil] at hh
      refine ⟨fun hb => ?_, fun m' hm' hc => ?_⟩
      · exact hh.trans (hO.behind fun m' hm' hc =>
          hb m' hm' (cutInBody_writeError.mpr (.inl hc)))
      · obtain rfl : m = m' := Option.some_inj.mp (hm.symm.trans hm')
        exact hh.trans (hO.ahead m hm ((cutInBody_writeError.mp hc).resolve_right hle))

theorem Ordered.init (p2p : Bool) : Resender.init.Ordered p2p where
  behind _ := by simp [handedOn, Resender.init]
  ahead m hm := by cases hm

theorem Ordered.inOrder {p2p : Bool} (hO : s.Ordered p2p) : s.InOrder p2p := by
  by_cases hb : ∀ m, s.hand = some m → ¬ s.CutInBody m
  · rw [InOrder, hO.behind hb]
    exact List.take_prefix ..
  · push Not at hb
    obtain ⟨m, hm, hc⟩ := hb
    rw [InOrder, hO.ahead m hm hc]
    exact List.take_prefix ..

/-- No two messages handed on in order have the same place. -/
theorem InOrder.nodup {p2p : Bool} (h : s.InOrder p2p) : ((s.handedOn p2p).map (·.2)).Nodup := by
  have hpre : (s.handedOn p2p).map (·.2) <+: s.queue.log.zipIdx.map (·.2) := h.map _
  refine hpre.sublist.nodup ?_
  rw [List.zipIdx_map_snd]
  exact List.nodup_range'

/-- A message cut inside its body and written again is handed on twice. -/
theorem cutsOnce_of_inOrder (hs : s.Ok loop.p2p) (h : Step loop s a t)
    (hP : t.InOrder loop.p2p) : s.CutsOnce a := by
  cases a with
  | write n =>
    rintro m hm ⟨c, hc, he, hle⟩
    by_contra hn
    have hnew : t.handedOn loop.p2p = s.handedOn loop.p2p ++ [(m, s.written)] := by
      have hfit := hs.fits_hand hm
      cases h with
      | writeOk _ hm' _ =>
        cases hm.symm.trans hm'
        exact handedOn_writeOk hs hfit
      | writeError _ hm' hlt =>
        cases hm.symm.trans hm'
        rw [handedOn_writeError hs hfit hlt, if_pos (Nat.le_of_not_lt hn)]
    -- its place occurs twice among those handed on
    have hold : (m, s.written) ∈ s.handedOn loop.p2p :=
      he ▸ hs.cut c hc m (he ▸ hs.hand m hm) hle
    have hnd := hP.nodup
    rw [hnew, List.map_append, List.nodup_append] at hnd
    exact hnd.2.2 _ (List.mem_map_of_mem hold) _ List.mem_cons_self rfl
  | _ => trivial

/-- What the receiver hands on is a prefix of the queue throughout a run if and only if no
message that was cut inside its body gets through again as far as to the end of its header. -/
theorem inOrder_iff (loop : ResendLoop) (as : List ResendAction) :
    (system loop).Always (InOrder loop.p2p) .init as ↔ (system loop).Along CutsOnce .init as :=
  System.always_iff_along (fun _ _ _ hs h => ok_step hs (step_cases h))
    (fun _ _ _ hs hO hC h => ordered_step hs hO hC (step_cases h)) (fun _ _ hO => hO.inOrder)
    (fun _ _ _ hs h hP => cutsOnce_of_inOrder hs (step_cases h) hP)
    (Ok.init loop.p2p) (Ordered.init loop.p2p)

/-- The connection of a client breaks one byte into the body of a message, and the message is
written again on the next one. -/
def cutInBody : List ResendAction :=
  [.connect, .enqueue ⟨"a", "g", 0, .ofBodyType 160⟩, .take, .write 23, .connect,
    .write 182]

theorem message_repeated :
    ¬ (system .sendMessages).Always (InOrder ResendLoop.sendMessages.p2p) .init cutInBody := by
  intro hP
  have hC : (system .sendMessages).Along CutsOnce .init cutInBody :=
    System.along_of_always (I := Ok ResendLoop.sendMessages.p2p)
      (fun _ _ _ hs h hP => cutsOnce_of_inOrder hs (step_cases h) hP)
      (fun _ _ _ hs h => ok_step hs (step_cases h)) (Ok.init _) hP
  revert hC
  decide +kernel

end Resender

end SignalSim.Mgen
