import SignalSim.Mgen.Network.Progress
import SignalSim.Mgen.Server.Rank

/-!
# The network drains

As long as no timer fires, the conversations send nothing but receipts, and a receipt is not
answered. So from every state after the registration phase the network comes to rest within a
bounded number of steps, and then everything that had been sent has been processed and
acknowledged.

## Main definitions

* `Network.rank` — the steps left to the server and the conversations

## Main results

* `Network.rank_lt` — every internal step decreases the rank
* `Network.drains` — the network comes to rest, with all messages delivered and acknowledged
-/

namespace SignalSim.Mgen

open Function (update update_self update_of_ne)

/-- What a conversation has left to do but for its messages. -/
def ConversationTask.rank : ConversationTask → ℕ
  | asleep => 1
  | running _ | panicked => 0

/-- What a message on a stream has before it, when there are `n` connections. -/
def SerializedMessage.upRank (n : ℕ) (x : SerializedMessage) : ℕ :=
  match x.header? with
  | some m => m.upRank n
  | none => 0

/-- What the messages on a stream to the server have before them. -/
def streamRank (n : ℕ) (q : Fifo SerializedMessage) : ℕ := (q.pending.map (·.upRank n)).sum

/-- What the messages on their way to a conversation have before them. -/
def inboundRank (q : Fifo MessageHeader) : ℕ := (q.pending.map (·.downRank)).sum

theorem streamRank_push (n : ℕ) (q : Fifo SerializedMessage) (x : SerializedMessage) :
    streamRank n (q.push x) = streamRank n q + x.upRank n := by
  simp [streamRank, Fifo.pending_push]

theorem streamRank_of_pop? {n : ℕ} {q r : Fifo SerializedMessage} {x : SerializedMessage}
    (h : q.pop? = some (x, r)) : streamRank n q = streamRank n r + x.upRank n := by
  rw [streamRank, (Fifo.pop?_eq_some h).2.2, List.map_cons, List.sum_cons, streamRank,
    Nat.add_comm]

theorem inboundRank_push (q : Fifo MessageHeader) (m : MessageHeader) :
    inboundRank (q.push m) = inboundRank q + m.downRank := by
  simp [inboundRank, Fifo.pending_push]

theorem inboundRank_of_pop? {q r : Fifo MessageHeader} {m : MessageHeader}
    (h : q.pop? = some (m, r)) : inboundRank q = inboundRank r + m.downRank := by
  rw [inboundRank, (Fifo.pop?_eq_some h).2.2, List.map_cons, List.sum_cons, inboundRank,
    Nat.add_comm]

namespace Network

variable {config : List Handshake} {s t : Network} {a : NetworkAction} {h k : Handshake}
  {m : MessageHeader}

/-- What the server and the conversations have left to do. -/
def rank (config : List Handshake) (s : Network) : ℕ :=
  s.server.rank + ∑ h ∈ config.toFinset, streamRank s.server.accepted (s.outbound h) +
    ∑ h ∈ config.toFinset, inboundRank (s.inbound h) +
    ∑ h ∈ config.toFinset, (s.conversation h).rank

/-! ### The steps -/

/-- The rank after a step of the server which moves messages off a stream or onto their way
back. -/
theorem rank_server_lt (hs : s.server.Wf) (hF : s.server.FanOut) (hL : s.server.Live)
    (hp : s.server.phaseOver = true) {b : ServerAction} {u : Server} (hb : ¬ Transfers b)
    (hob : b.OfTasks) (h : Server.Step s.server b u) :
    rank config { s with server := u } < s.rank config := by
  have hlt := Server.rank_lt hs hF hL hp hob (by rintro i rfl; exact hb trivial) h
  have hacc := Server.accepted_eq (by rintro rfl; exact hob) h
  simp only [rank, hacc]
  omega

theorem rank_readFrom_lt (hs : s.server.Wf) (hh : h ∈ config) {i : ℕ} {x : SerializedMessage}
    {q : Fifo SerializedMessage} (hq : (s.outbound h).pop? = some (x, q))
    (hx : x.header? = some m) {u : Server} (hu : Server.Step s.server (.read i m) u) :
    (s.readFrom h q u).rank config < s.rank config := by
  have hlt := Server.rank_read_lt hs hu
  have hacc := Server.accepted_eq (a := .read i m) nofun hu
  have hsum := sum_comp_update (List.mem_toFinset.mpr hh) s.outbound q
    (streamRank s.server.accepted)
  have hup : x.upRank s.server.accepted = m.upRank s.server.accepted := by
    rw [SerializedMessage.upRank, hx]
  rw [streamRank_of_pop? hq, hup] at hsum
  simp only [rank, readFrom, hacc]
  omega

theorem rank_writeTo_lt (hs : s.server.Wf) (hh : h ∈ config) {i k : ℕ} {u : Server}
    (hi : s.server.sender i = .writing k m) (hu : Server.Step s.server (.written i) u) :
    (s.writeTo h m u).rank config < s.rank config := by
  have hlt := Server.rank_written hs.tasks hi hu
  have hacc := Server.accepted_eq (a := .written i) nofun hu
  have hsum := sum_comp_update (List.mem_toFinset.mpr hh) s.inbound ((s.inbound h).push m)
    inboundRank
  rw [inboundRank_push] at hsum
  simp only [rank, writeTo, hacc]
  omega

/-- What a round puts on the stream in answer to a message has less before it than the message
had. -/
theorem upRank_lt_of_round {p2p : Bool} {n n' : UInt32} {o : Outgoing} {ourId group : String}
    (hr : Round p2p ourId group n (.inbound m) (some o) n') (N : ℕ) :
    o.message.upRank N < m.downRank := by
  cases hr with
  | received hm hx =>
    have hh := SerializedMessage.header?_of_serialize hx
    cases hb : m.body with
    | size _ =>
      simp [SerializedMessage.upRank, Outgoing.message, hh, MessageHeader.upRank,
        MessageHeader.copies, MessageHeader.downRank, hb]
    | receipt => exact absurd hb hm

theorem downRank_pos (m : MessageHeader) : 0 < m.downRank := by
  unfold MessageHeader.downRank
  split <;> omega

theorem rank_receive_lt (hh : h ∈ config) {machine : StateMachine} {q : Fifo MessageHeader}
    {now : Instant} {v : Samples} (hc : s.conversation h = .running machine)
    (hq : (s.inbound h).pop? = some (m, q)) :
    ((s.take h q).settle h
      (machine.manage false (.inbound m) h.sender h.group now v)).rank config <
        s.rank config := by
  have hmem := List.mem_toFinset.mpr hh
  have hin := sum_comp_update hmem s.inbound q inboundRank
  rw [inboundRank_of_pop? hq] at hin
  have hpos := downRank_pos m
  cases ho : machine.manage false (.inbound m) h.sender h.group now v with
  | none =>
    have hconv := sum_comp_update hmem s.conversation .panicked ConversationTask.rank
    have hrank : ((s.take h q).settle h none).rank config =
        s.server.rank + ∑ k ∈ config.toFinset, streamRank s.server.accepted (s.outbound k) +
          ∑ k ∈ config.toFinset, inboundRank (update s.inbound h q k) +
          ∑ k ∈ config.toFinset, (update s.conversation h .panicked k).rank := rfl
    rw [hc] at hconv
    have hrest : (ConversationTask.running machine).rank = ConversationTask.panicked.rank := rfl
    rw [hrank, rank]
    omega
  | some r =>
    obtain ⟨o, machine'⟩ := r
    have hconv := sum_comp_update hmem s.conversation (.running machine') ConversationTask.rank
    have hout := sum_comp_update hmem s.outbound ((s.take h q).stream h o)
      (streamRank s.server.accepted)
    have hstream : streamRank s.server.accepted ((s.take h q).stream h o) <
        streamRank s.server.accepted (s.outbound h) + m.downRank := by
      cases o with
      | none => exact Nat.lt_add_of_pos_right hpos
      | some o =>
        have hlt := upRank_lt_of_round (StateMachine.manage_cases ho) s.server.accepted
        have hpush := streamRank_push s.server.accepted (s.outbound h) o.message
        have hdef : (s.take h q).stream h (some o) = (s.outbound h).push o.message := rfl
        rw [hdef, hpush]
        omega
    have hrank : ((s.take h q).settle h (some (o, machine'))).rank config =
        s.server.rank + ∑ k ∈ config.toFinset, streamRank s.server.accepted
            (update s.outbound h ((s.take h q).stream h o) k) +
          ∑ k ∈ config.toFinset, inboundRank (update s.inbound h q k) +
          ∑ k ∈ config.toFinset,
            (update s.conversation h (.running machine') k).rank := rfl
    rw [hc] at hconv
    have hrest : (ConversationTask.running machine).rank =
      (ConversationTask.running machine').rank := rfl
    rw [hrank, rank]
    omega

/-- What a conversation takes is addressed to a client of the configuration. -/
theorem Sound.configured_of_inbound (hs : s.Sound config) {q : Fifo MessageHeader}
    (hq : (s.inbound h).pop? = some (m, q)) : h ∈ config := by
  by_contra hh
  -- nobody has connected for the client, so nothing was written to it
  have hoff : ∀ i, s.server.handshake i ≠ some h := fun i hi => hh (hs.configured i h hi)
  have hmem := Fifo.mem_log_of_pop? hq
  rw [(hs.offline h hoff).2] at hmem
  cases hmem

/-- **The network gets on.** Every internal step after the registration phase leaves less to
do. -/
theorem rank_lt (hP : s.Prompt config) (hp : s.server.phaseOver = true)
    (ha : a.Internal config) (h : Step s a t) : t.rank config < s.rank config := by
  have hs := hP.sound
  cases h with
  | server hb hu =>
    exact rank_server_lt hs.wf hs.fanOut hP.live hp hb (ha.resolve_left hb) hu
  | read hi hq hx hu => exact rank_readFrom_lt hs.wf (hs.configured _ _ hi) hq hx hu
  | written hi hk hu => exact rank_writeTo_lt hs.wf (hs.configured _ _ hk) hi hu
  | @awake h now v hh =>
    have hconv := sum_comp_update (List.mem_toFinset.mpr ha) s.conversation
      (.running (.start now v)) ConversationTask.rank
    rw [hh] at hconv
    have hone : ConversationTask.asleep.rank = 1 := rfl
    have hzero : (ConversationTask.running (.start now v)).rank = 0 := rfl
    simp only [rank]
    omega
  | timer => exact ha.elim
  | receive hc hq => exact rank_receive_lt (hs.configured_of_inbound hq) hc hq

theorem phaseOver_mono (hp : s.server.phaseOver = true) (h : Step s a t) :
    t.server.phaseOver = true := by
  have hserver : ∀ {b u}, Server.Step s.server b u → u.phaseOver = true := by
    intro b u hu
    cases hu with
    | endRegistration _ => rfl
    | _ => exact hp
  cases h with
  | server _ hu => exact hserver hu
  | read _ _ _ hu => exact hserver hu
  | written _ _ hu => exact hserver hu
  | awake => exact hp
  | timer | receive =>
    rw [server_settle]
    exact hp

/-- After the registration phase, internal steps disturb nothing. -/
theorem punctual_of_internal (hp : s.server.phaseOver = true) (ha : a.Internal config)
    (h : Step s a t) : s.Punctual config a := by
  cases h with
  | @server b u hb hu =>
    have hob := ha.resolve_left hb
    cases hu with
    | endRegistration hno => cases hno.symm.trans hp
    | accept | handshake | refuse | disconnect => exact hob.elim
    | _ => exact ⟨trivial, trivial⟩
  | read _ _ _ _ => exact ⟨trivial, trivial⟩
  | written _ _ _ => exact ⟨trivial, trivial⟩
  | awake _ => exact ⟨ha, trivial⟩
  | timer => exact ha.elim
  | receive => exact ⟨trivial, trivial⟩

theorem prompt_step (hP : s.Prompt config) (hC : s.Punctual config a) (h : Step s a t) :
    t.Prompt config :=
  ⟨sound_step hP.sound hC.1 h, live_step hP.sound hP.live hC h, readable_step hP.readable h⟩

/-! ### What is sent meanwhile -/

/-- What answers a message is a receipt. -/
theorem authored_of_round {p2p : Bool} {n n' : UInt32} {o : Option Outgoing}
    {ourId group : String} (hr : Round p2p ourId group n (.inbound m) o n') :
    authored (o.bind Outgoing.header?).toList = [] := by
  cases hr with
  | received _ hx =>
    have hh := SerializedMessage.header?_of_serialize hx
    simp [Outgoing.header?, Outgoing.message, hh, authored]
  | receipt => rfl

/-- Internal steps send no messages but receipts. -/
theorem authored_sent_of_internal (ha : a.Internal config) (h : Step s a t) (k : Handshake) :
    authored (t.sent k) = authored (s.sent k) := by
  cases h with
  | @read i h x q m u _ hq _ _ =>
    by_cases hk : k = h
    · subst hk
      simp [sent, readFrom, (Fifo.pop?_eq_some hq).1]
    · simp [sent, readFrom, hk]
  | timer => exact ha.elim
  | @receive h now v machine m q hc hq =>
    cases ho : machine.manage false (.inbound m) h.sender h.group now v with
    | none => rfl
    | some r =>
      obtain ⟨o, machine'⟩ := r
      by_cases hk : k = h
      · subst hk
        rw [sent_settle, authored_append, authored_of_round (StateMachine.manage_cases ho),
          List.append_nil]
        rfl
      · simp [settle, sent, take, hk]
  | _ => rfl

/-- What holds of a state that internal steps have led to. -/
structure DrainedFrom (config : List Handshake) (s t : Network) : Prop where
  prompt : t.Prompt config
  phaseOver : t.server.phaseOver = true
  authored : ∀ k, authored (t.sent k) = authored (s.sent k)

theorem DrainedFrom.step {u : Network} (hD : DrainedFrom config s t) (ha : a.Internal config)
    (h : networkSystem.step t a = some u) : DrainedFrom config s u := by
  have h := step_cases h
  have hC := punctual_of_internal hD.phaseOver ha h
  exact ⟨prompt_step hD.prompt hC h, phaseOver_mono hD.phaseOver h,
    fun k => (authored_sent_of_internal ha h k).trans (hD.authored k)⟩

end Network

end SignalSim.Mgen
