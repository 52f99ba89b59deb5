import Mathlib.Algebra.GroupWithZero.Nat
import SignalSim.Foundations.Measure
import SignalSim.Mgen.Server.Isolation
import SignalSim.Mgen.Server.Progress

/-!
# How much the server has left to do

A message that the server has read is put on the channels of those it is for, taken from there
and written. Each of these steps, and every step of a handshake task, leaves less to do, as long
as no write fails.

## Main definitions

* `MessageHeader.downRank`, `MessageHeader.upRank` — the steps that a message may still cause,
  from the client it is written to and from the server that reads it
* `Server.rank` — the steps left to the tasks of the server

## Main results

* `Server.rank_lt` — every step of the tasks but the writing of a message decreases the rank
* `Server.rank_written`, `Server.rank_read_lt` — what a write takes away and a read adds
-/

namespace SignalSim.Mgen

open Function (update update_self update_of_ne)

/-- A message is sent on at most so often, when there are `n` clients. -/
def MessageHeader.copies (n : ℕ) (m : MessageHeader) : ℕ :=
  match m.body with
  | .size _ => n
  | .receipt => 1

/-- The steps that a message written to a client may still cause: it is taken, and if it is no
receipt, it is answered by one, which is read, put on a channel, taken from there, written and
taken. -/
def MessageHeader.downRank (m : MessageHeader) : ℕ :=
  match m.body with
  | .size _ => 6
  | .receipt => 1

/-- The steps that a message which the server has yet to read may still cause. -/
def MessageHeader.upRank (n : ℕ) (m : MessageHeader) : ℕ := 1 + m.copies n * (m.downRank + 3)

/-- What a handshake task has left to do, with what it leaves to the tasks that it spawns. -/
def HandshakeTask.rank : HandshakeTask → ℕ
  | absent | accepting | finished => 0
  | publish _ | handOver .. => 1
  | known .. => 6
  | spawn .. => 8
  | joinGroup .. | joinNewGroup .. => 9
  | createGroup _ => 10
  | register _ => 11
  | checkWriterDb _ => 12

/-- What a receiver has left to do, until it waits for the next message. -/
def ReceiverTask.rank : ReceiverTask → ℕ
  | absent | ended | panicked => 0
  | receiving _ => 1
  | woken _ => 2
  | waiting _ => 3
  | spawned _ => 4
  | forwarding _ m cs => 1 + cs.length * (m.downRank + 3)

/-- What a sender has left to do, until it waits for the next message. -/
def SenderTask.rank : SenderTask → ℕ
  | absent | panicked => 0
  | idle _ => 1
  | starting => 2
  | writing _ m => m.downRank + 2
  | reconnecting _ m => m.downRank + 3

/-- What the messages waiting on a channel have before them. -/
def channelRank (q : Fifo (ℕ × MessageHeader)) : ℕ :=
  (q.pending.map fun e => e.2.downRank + 2).sum

theorem channelRank_push (q : Fifo (ℕ × MessageHeader)) (i : ℕ) (m : MessageHeader) :
    channelRank (q.push (i, m)) = channelRank q + (m.downRank + 2) := by
  simp [channelRank, Fifo.pending_push]

theorem channelRank_of_pop? {q r : Fifo (ℕ × MessageHeader)} {i : ℕ} {m : MessageHeader}
    (h : q.pop? = some ((i, m), r)) : channelRank q = channelRank r + (m.downRank + 2) := by
  rw [channelRank, (Fifo.pop?_eq_some h).2.2, List.map_cons, List.sum_cons, channelRank,
    Nat.add_comm]

namespace Server

variable {s t : Server} {a : ServerAction} {i c : ℕ} {m : MessageHeader}

/-- What the tasks of the server have left to do. -/
def rank (s : Server) : ℕ :=
  ∑ i ∈ Finset.range s.accepted, (s.handler i).rank +
    ∑ i ∈ Finset.range s.accepted, (s.receiver i).rank +
    ∑ i ∈ Finset.range s.accepted, (s.sender i).rank +
    ∑ i ∈ Finset.range s.accepted, channelRank (s.channel i)

/-- Something has been put on a channel, or taken from it. -/
def setChannel (s : Server) (c : ℕ) (q : Fifo (ℕ × MessageHeader)) : Server :=
  { s with channel := update s.channel c q }

section

variable (s) (hi : i < s.accepted)
include hi

theorem rank_setHandler (p : HandshakeTask) :
    (s.setHandler i p).rank + (s.handler i).rank = s.rank + p.rank := by
  have hsum := sum_comp_update (Finset.mem_range.mpr hi) s.handler p HandshakeTask.rank
  simp only [rank, setHandler]
  omega

theorem rank_setReceiver (r : ReceiverTask) :
    (s.setReceiver i r).rank + (s.receiver i).rank = s.rank + r.rank := by
  have hsum := sum_comp_update (Finset.mem_range.mpr hi) s.receiver r ReceiverTask.rank
  simp only [rank, setReceiver]
  omega

theorem rank_setSender (r : SenderTask) :
    (s.setSender i r).rank + (s.sender i).rank = s.rank + r.rank := by
  have hsum := sum_comp_update (Finset.mem_range.mpr hi) s.sender r SenderTask.rank
  simp only [rank, setSender]
  omega

theorem rank_setChannel (q : Fifo (ℕ × MessageHeader)) :
    (s.setChannel i q).rank + channelRank (s.channel i) = s.rank + channelRank q := by
  have hsum := sum_comp_update (Finset.mem_range.mpr hi) s.channel q channelRank
  simp only [rank, setChannel]
  omega

end

/-- The connection of a receiver or sender has been accepted. -/
theorem Tasks.lt_of_running (hs : s.Tasks)
    (hi : s.receiver i ≠ .absent ∨ s.sender i ≠ .absent) : i < s.accepted := by
  obtain ⟨h, hh⟩ := hs.exists_handshake hi
  exact hs.lt_of_handshake hh

/-- A step that only moves a handshake task on. -/
theorem rank_lt_of_setHandler (hs : s.Tasks) {p q : HandshakeTask} (hi : s.handler i = p)
    (ht : t.rank = (s.setHandler i q).rank) (hlt : q.rank < p.rank) : t.rank < s.rank := by
  have hacc : i < s.accepted := by
    refine hs.lt fun h0 => ?_
    rw [h0] at hi
    rw [← hi] at hlt
    exact Nat.not_lt_zero _ hlt
  have hrank := rank_setHandler s hacc q
  rw [hi] at hrank
  omega

/-- A step of a handshake task leaves less to do, even if it spawns other tasks. -/
theorem rank_handle_lt (hs : s.Tasks) (h : Step s (.handle i) t) : t.rank < s.rank := by
  cases h with
  | findUpdater hi _ => exact rank_lt_of_setHandler hs hi rfl (by simp [HandshakeTask.rank])
  | register hi _ _ => exact rank_lt_of_setHandler hs hi rfl (by simp [HandshakeTask.rank])
  | lateRegistration hi _ _ =>
    exact rank_lt_of_setHandler (q := .finished) hs hi rfl (by simp [HandshakeTask.rank])
  | missGroup hi _ =>
    exact rank_lt_of_setHandler (q := .finished) hs hi rfl (by simp [HandshakeTask.rank])
  | sendSocket hi => exact rank_lt_of_setHandler hs hi rfl (by simp [HandshakeTask.rank])
  | findGroup hi _ => exact rank_lt_of_setHandler hs hi rfl (by simp [HandshakeTask.rank])
  | findNoGroup hi _ => exact rank_lt_of_setHandler hs hi rfl (by simp [HandshakeTask.rank])
  | joinGroup hi => exact rank_lt_of_setHandler hs hi rfl (by simp [HandshakeTask.rank])
  | enterGroup hi => exact rank_lt_of_setHandler hs hi rfl (by simp [HandshakeTask.rank])
  | @joinNewGroup _ h g hi =>
    exact rank_lt_of_setHandler (q := .spawn h g) hs hi rfl (by simp [HandshakeTask.rank])
  | publish hi _ => exact rank_lt_of_setHandler hs hi rfl (by simp [HandshakeTask.rank])
  | @respawn _ h u g hi _ =>
    have hc := hs.conn i
    rw [ConnOk, hi] at hc
    have hacc := hs.lt (i := i) (by simp [hi])
    have hrank := rank_setHandler s hacc (.handOver h u)
    have hrec := rank_setReceiver (s.setHandler i (.handOver h u)) hacc (.spawned g)
    have hr : (s.setHandler i (.handOver h u)).receiver i = .absent := hc.2.1
    simp only [hi, HandshakeTask.rank] at hrank
    simp only [hr, ReceiverTask.rank] at hrec
    rw [respawn]
    omega
  | @spawnTasks _ h g hi =>
    have hc := hs.conn i
    rw [ConnOk, hi] at hc
    have hacc := hs.lt (i := i) (by simp [hi])
    have hrank := rank_setHandler s hacc (.publish h)
    have hrec := rank_setReceiver (s.setHandler i (.publish h)) hacc (.spawned g)
    have hsnd := rank_setSender ((s.setHandler i (.publish h)).setReceiver i (.spawned g)) hacc
      .starting
    have hset : (s.spawnTasks i h g).rank = (((s.setHandler i (.publish h)).setReceiver i
      (.spawned g)).setSender i .starting).rank := rfl
    have hr : (s.setHandler i (.publish h)).receiver i = .absent := hc.2.1
    have hs : ((s.setHandler i (.publish h)).setReceiver i (.spawned g)).sender i = .absent :=
      hc.2.2
    simp only [hi, HandshakeTask.rank] at hrank
    simp only [hr, ReceiverTask.rank] at hrec
    simp only [hs, SenderTask.rank] at hsnd
    omega

/-- A step that only moves a receiver on. -/
theorem rank_lt_of_setReceiver (hs : s.Tasks) {p q : ReceiverTask} (hi : s.receiver i = p)
    (ht : t.rank = (s.setReceiver i q).rank) (hlt : q.rank < p.rank) : t.rank < s.rank := by
  have hacc : i < s.accepted := by
    refine hs.lt_of_running (.inl fun h0 => ?_)
    rw [h0] at hi
    rw [← hi] at hlt
    exact Nat.not_lt_zero _ hlt
  have hrank := rank_setReceiver s hacc q
  rw [hi] at hrank
  omega

/-- A step that only moves a sender on. -/
theorem rank_lt_of_setSender (hs : s.Tasks) {p q : SenderTask} (hi : s.sender i = p)
    (ht : t.rank = (s.setSender i q).rank) (hlt : q.rank < p.rank) : t.rank < s.rank := by
  have hacc : i < s.accepted := by
    refine hs.lt_of_running (.inr fun h0 => ?_)
    rw [h0] at hi
    rw [← hi] at hlt
    exact Nat.not_lt_zero _ hlt
  have hrank := rank_setSender s hacc q
  rw [hi] at hrank
  omega

/-- What a receiver puts on a channel has one step less before it. -/
theorem rank_put_lt (hs : s.Wf) (h : Step s (.put i) t) : t.rank < s.rank := by
  cases h with
  | @putFailed _ db m c cs hi _ =>
    exact rank_lt_of_setReceiver hs.tasks hi rfl (by simp only [ReceiverTask.rank]; omega)
  | @put _ db m c cs hi _ =>
    have hacc := hs.tasks.lt_of_running (i := i) (.inl (by simp [hi]))
    obtain ⟨r, hr⟩ := mem_channels.mp ((hs.tables.rest i db m _ hi).2 c List.mem_cons_self)
    obtain ⟨hk, -, hck, -⟩ := hs.tables.copy i db r c (by rw [hi]; rfl) hr
    have hcacc := hs.tasks.lt_of_handshake hck
    let r : ReceiverTask := if cs = [] then .receiving db else .forwarding db m cs
    have hrec := rank_setReceiver s hacc r
    have hchan := rank_setChannel (s.setReceiver i r) hcacc ((s.channel c).push (i, m))
    have hset : (s.forward i db m c cs).rank =
      ((s.setReceiver i r).setChannel c ((s.channel c).push (i, m))).rank := rfl
    have hold : (s.setReceiver i r).channel c = s.channel c := rfl
    have hr : r.rank = 1 + cs.length * (m.downRank + 3) := by
      by_cases hcs : cs = [] <;> simp [r, hcs, ReceiverTask.rank]
    rw [hold, channelRank_push] at hchan
    rw [hi, hr] at hrec
    simp only [ReceiverTask.rank, List.length_cons, Nat.succ_mul] at hrec
    omega

/-- A message that a sender takes has one step less before it. -/
theorem rank_takeMessage_lt (hs : s.Tasks) (h : Step s (.takeMessage i) t) :
    t.rank < s.rank := by
  cases h with
  | @takeMessage _ k j m q hi hq =>
    have hacc := hs.lt_of_running (i := i) (.inr (by simp [hi]))
    have hsnd := rank_setSender s hacc (.writing k m)
    have hchan := rank_setChannel (s.setSender i (.writing k m)) hacc q
    have hset : (s.takeMessage i k m q).rank =
      ((s.setSender i (.writing k m)).setChannel i q).rank := rfl
    have hold : (s.setSender i (.writing k m)).channel i = s.channel i := rfl
    rw [hold, channelRank_of_pop? hq] at hchan
    simp only [hi, SenderTask.rank] at hsnd
    omega

/-- **The server gets on.** Every step of its tasks after the registration phase, but for the
writing of a message, leaves less to do. -/
theorem rank_lt (hs : s.Wf) (hF : s.FanOut) (hL : s.Live) (hp : s.phaseOver = true)
    (ha : a.OfTasks) (hw : ∀ i, a ≠ .written i) (h : Step s a t) : t.rank < s.rank := by
  cases a with
  | accept | handshake | refuse | read | readMalformed | disconnect => exact ha.elim
  | endRegistration =>
    cases h with
    | endRegistration hno => cases hno.symm.trans hp
  | handle i => exact rank_handle_lt hs.tasks h
  | put i => exact rank_put_lt hs h
  | takeMessage i => exact rank_takeMessage_lt hs.tasks h
  | written i => exact absurd rfl (hw i)
  | writeError i => exact absurd h (hL.not_writeError hs hF)
  | poll i =>
    cases h with
    | poll hi => exact rank_lt_of_setReceiver hs.tasks hi rfl (by simp [ReceiverTask.rank])
  | snapshot i db =>
    cases h with
    | snapshot hi _ => exact rank_lt_of_setReceiver hs.tasks hi rfl (by simp [ReceiverTask.rank])
  | readError i =>
    cases h with
    | readError hi _ =>
      exact rank_lt_of_setReceiver hs.tasks hi rfl (by simp [ReceiverTask.rank])
  | terminate i =>
    cases h with
    | terminate _ hi =>
      refine rank_lt_of_setReceiver hs.tasks rfl rfl ?_
      cases hr : s.receiver i <;> simp_all [ReceiverTask.AtAwait, ReceiverTask.rank]
  | takeSocket i =>
    cases h with
    | @takeFirstSocket _ k hi _ =>
      exact rank_lt_of_setSender (q := .idle k) hs.tasks hi rfl (by simp [SenderTask.rank])
    | @takeNextSocket _ j m k hi _ =>
      exact rank_lt_of_setSender (q := .writing k m) hs.tasks hi rfl (by simp [SenderTask.rank])
  | channelClosed i =>
    cases h with
    | channelClosed hi _ _ =>
      exact rank_lt_of_setSender hs.tasks hi rfl (by simp [SenderTask.rank])

/-- A write takes away what the message had before it. -/
theorem rank_written (hs : s.Tasks) {k : ℕ} (hi : s.sender i = .writing k m)
    (h : Step s (.written i) t) : t.rank + (m.downRank + 1) = s.rank := by
  cases h with
  | @written _ k' m' hi' =>
    cases hi.symm.trans hi'
    have hacc := hs.lt_of_running (i := i) (.inr (by simp [hi]))
    have hsnd := rank_setSender s hacc (.idle k)
    have hset : (s.written i k m).rank = (s.setSender i (.idle k)).rank := rfl
    simp only [hi, SenderTask.rank] at hsnd
    omega

/-- A message is sent on to at most one channel for each client. -/
theorem length_targets_le (hs : s.Wf) {h : Handshake} {db : GroupSnds}
    (hdb : (s.receiver i).db? = some db) (m : MessageHeader) :
    (db.targets h.sender m).length ≤ m.copies s.accepted := by
  cases hb : m.body with
  | receipt =>
    simp only [GroupSnds.targets, hb, MessageHeader.copies]
    cases db.lookup m.group <;> simp
  | size n =>
    -- the channels are different and belong to accepted connections
    have hsub : db.targets h.sender m ⊆ List.range s.accepted := by
      intro c hc
      obtain ⟨r, hr⟩ := mem_channels.mp (mem_channels_of_mem_targets hc)
      obtain ⟨hk, -, hck, -⟩ := hs.tables.copy i db r c hdb hr
      exact List.mem_range.mpr (hs.tasks.lt_of_handshake hck)
    have hle := ((nodup_targets hs hdb h.sender).subperm hsub).length_le
    rw [List.length_range] at hle
    simpa only [MessageHeader.copies, hb] using hle

/-- A message that is read leaves one step less than it had before it. -/
theorem rank_read_lt (hs : s.Wf) (h : Step s (.read i m) t) :
    t.rank < s.rank + m.upRank s.accepted := by
  cases h with
  | @read _ db hk _ hi hh =>
    have hacc := hs.tasks.lt_of_running (i := i) (.inl (by simp [hi]))
    have hrec := rank_setReceiver s hacc (dispatch hk.sender hk.group db m)
    have hset : (s.receive i m (dispatch hk.sender hk.group db m)).rank =
      (s.setReceiver i (dispatch hk.sender hk.group db m)).rank := rfl
    have hdisp : (dispatch hk.sender hk.group db m).rank ≤
        1 + m.copies s.accepted * (m.downRank + 3) := by
      by_cases hm : db.Admits hk m
      · rw [dispatch_of_own hm]
        have hlen := length_targets_le (h := hk) hs (i := i) (by rw [hi]; rfl) m
        have hmul := Nat.mul_le_mul_right (m.downRank + 3) hlen
        split <;> simp only [ReceiverTask.rank] <;> omega
      · rw [dispatch_of_not_admits hm, ReceiverTask.rank]
        omega
    have hone : (ReceiverTask.receiving db).rank = 1 := rfl
    rw [hi, hone] at hrec
    rw [MessageHeader.upRank]
    omega

/-- Only the main task accepts connections. -/
theorem accepted_eq (ha : a ≠ .accept) (h : Step s a t) : t.accepted = s.accepted := by
  cases h with
  | accept => exact absurd rfl ha
  | _ => rfl

end Server

end SignalSim.Mgen
