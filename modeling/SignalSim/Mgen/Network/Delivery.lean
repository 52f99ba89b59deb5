import SignalSim.Mgen.Messenger.Account
import SignalSim.Mgen.Network.Model
import SignalSim.Mgen.Server.FanOut
import SignalSim.Mgen.Server.Senders

/-!
# Delivery

What a conversation has processed of another member's messages is a prefix of what that
member's conversation has sent for it. This rests on the fan-out of the server, which in turn
rests on the conversations sending only what their connections admit: a receipt names the
author of a message that has been delivered, who is therefore a registered member.

## Main definitions

* `Network.sent`, `Network.processed` — the messages of a conversation
* `Network.Sound` — the invariant

## Main results

* `Network.Sound.delivered` — prefix of what was sent
* `Network.sound_step` — every step of an undisturbed run preserves the invariant
-/

namespace SignalSim.Mgen

open Function (update update_self update_of_ne)

namespace Network

variable {config : List Handshake} {s t : Network} {a : NetworkAction} {h k : Handshake}
  {i c : ℕ} {m : MessageHeader}

/-- The messages that a conversation has put on its stream. -/
def sent (s : Network) (h : Handshake) : List MessageHeader :=
  (s.outbound h).log.filterMap SerializedMessage.header?

/-- The messages that a conversation has taken from its channel. -/
def processed (s : Network) (h : Handshake) : List MessageHeader := (s.inbound h).received

/-- The invariant of undisturbed runs. -/
structure Sound (config : List Handshake) (s : Network) : Prop where
  wf : s.server.Wf
  fanOut : s.server.FanOut
  taken : s.server.Taken
  configured : ∀ i h, s.server.handshake i = some h → h ∈ config
  registered : s.server.phaseOver = true → ∀ h ∈ config, (s.server.storedChannel h).isSome
  account : ∀ h, Account h (s.conversation h).nextId? (s.sent h) (s.processed h)
  uplink : ∀ i h, s.server.handshake i = some h →
    s.server.received i = (s.outbound h).received.filterMap SerializedMessage.header?
  downlink : ∀ i h, s.server.handshake i = some h →
    (s.inbound h).log = (s.server.sent i).map (·.2)
  offline : ∀ h, (∀ i, s.server.handshake i ≠ some h) →
    (s.outbound h).received = [] ∧ (s.inbound h).log = []

namespace Sound

/-! ### From one conversation to another -/

theorem isPrefix_received (hs : s.Sound config) (hi : s.server.handshake i = some h) :
    s.server.received i <+: s.sent h := by
  rw [hs.uplink i h hi]
  exact (s.outbound h).isPrefix_received.filterMap _

theorem stored_of_log (hs : s.Sound config) (hc : s.server.handshake c = some k)
    (hlog : (s.server.channel c).log ≠ []) : s.server.storedChannel k = some c := by
  by_contra hk
  -- a channel that is stored for nobody carries nothing
  refine hlog (hs.fanOut.silent c fun k' hk' => hk ?_)
  have hc' := Server.handshake_of_stored hs.wf hk'
  rwa [Option.some_inj.mp (hc.symm.trans hc')]

/-- What is on the channel of a client comes from the connection of its author, and was read
there for that client. -/
theorem origin (hs : s.Sound config) (hc : s.server.handshake c = some k)
    {e : ℕ × MessageHeader} (he : e ∈ (s.server.channel c).log) :
    s.server.handshake e.1 = some ⟨e.2.sender, k.group⟩ := by
  obtain ⟨h, hh⟩ := hs.fanOut.origin c e he
  have hst := hs.stored_of_log hc (List.ne_nil_of_mem he)
  have hfrom : e.2 ∈ fromConnection e.1 (s.server.channel c).log :=
    List.mem_filterMap.mpr ⟨e, he, by simp⟩
  have hmem : e.2 ∈ (s.server.received e.1).filter (·.IsFor h k) := by
    rw [← hs.fanOut.forwarded e.1 h k c hh hst]
    exact List.mem_append_left _ hfrom
  obtain ⟨hrec, hfor⟩ := List.mem_filter.mp hmem
  have hfor : e.2.IsFor h k := by simpa using hfor
  have hsender := (hs.account h).sender e.2 ((hs.isPrefix_received hh).subset hrec)
  rw [hh, Option.some_inj]
  exact Handshake.ext hsender.symm hfor.1.symm

theorem isPrefix_processed (hs : s.Sound config) (hc : s.server.handshake c = some k) :
    s.processed k <+: (s.server.channel c).log.map (·.2) := by
  refine (s.inbound k).isPrefix_received.trans ?_
  rw [hs.downlink c k hc]
  exact hs.taken.isPrefix_sent c

theorem processed_of_offline (hs : s.Sound config) (hk : ∀ i, s.server.handshake i ≠ some k) :
    s.processed k = [] :=
  List.prefix_nil.mp ((hs.offline k hk).2 ▸ (s.inbound k).isPrefix_received)

/-- A message that has been processed came from a connection of its author. -/
theorem online_of_processed (hs : s.Sound config) (hm : m ∈ s.processed k) :
    s.server.phaseOver = true ∧ ∃ i, s.server.handshake i = some ⟨m.sender, k.group⟩ := by
  by_cases hk : ∃ c, s.server.handshake c = some k
  · obtain ⟨c, hc⟩ := hk
    obtain ⟨e, he, rfl⟩ := List.mem_map.mp ((hs.isPrefix_processed hc).subset hm)
    refine ⟨?_, e.1, hs.origin hc he⟩
    cases hp : s.server.phaseOver with
    | true => rfl
    | false =>
      -- no message is forwarded during the registration phase
      rw [(hs.fanOut.before hp c).2.2] at he
      cases he
  · rw [hs.processed_of_offline (not_exists.mp hk)] at hm
    cases hm

/-- The messages of one author on the channel of a client. -/
theorem filter_log (hs : s.Sound config) (hc : s.server.handshake c = some k) {author : ID}
    (hi : s.server.handshake i = some ⟨author, k.group⟩) :
    ((s.server.channel c).log.map (·.2)).filter (·.sender = author) =
      fromConnection i (s.server.channel c).log := by
  -- an author has one connection in the group
  have heq : ∀ e ∈ (s.server.channel c).log, e.2.sender = author ↔ e.1 = i := by
    intro e he
    have horigin := hs.origin hc he
    constructor
    · rintro rfl
      exact hs.fanOut.distinct e.1 i _ horigin hi
    · rintro rfl
      rw [hi, Option.some_inj] at horigin
      exact (congrArg Handshake.sender horigin).symm
  rw [fromConnection, List.filter_map, ← List.filterMap_eq_map, List.filterMap_filter]
  refine List.filterMap_congr fun e he => ?_
  simp [heq e he]

/-- **Delivery.** What a conversation has processed of a member's messages is a prefix of what
that member's conversation has sent for it. -/
theorem delivered (hs : s.Sound config) (k : Handshake) (author : ID) :
    (s.processed k).filter (·.sender = author) <+:
      (s.sent ⟨author, k.group⟩).filter (·.IsFor ⟨author, k.group⟩ k) := by
  by_cases hk : ∃ c, s.server.handshake c = some k
  case neg =>
    rw [hs.processed_of_offline (not_exists.mp hk)]
    exact List.nil_prefix
  obtain ⟨c, hc⟩ := hk
  have hpre := (hs.isPrefix_processed hc).filter (·.sender = author)
  by_cases hi : ∃ i, s.server.handshake i = some ⟨author, k.group⟩
  case neg =>
    -- nobody could have sent such a message
    have hnil : (s.processed k).filter (·.sender = author) = [] := by
      refine List.filter_eq_nil_iff.mpr fun m hm heq => hi ?_
      obtain rfl : m.sender = author := by simpa using heq
      exact (hs.online_of_processed hm).2
    rw [hnil]
    exact List.nil_prefix
  obtain ⟨i, hi⟩ := hi
  rw [hs.filter_log hc hi] at hpre
  by_cases hlog : (s.server.channel c).log = []
  · rw [hlog, fromConnection_nil] at hpre
    rw [List.prefix_nil.mp hpre]
    exact List.nil_prefix
  · -- channel, connection and stream, each a prefix of the next
    apply hpre.trans
    have hfwd := hs.fanOut.forwarded i _ k c hi (hs.stored_of_log hc hlog)
    have hlogpre : fromConnection i (s.server.channel c).log <+:
        (s.server.received i).filter (·.IsFor ⟨author, k.group⟩ k) := by
      rw [← hfwd]
      exact List.prefix_append ..
    exact hlogpre.trans ((hs.isPrefix_received hi).filter _)

/-! ### What the conversations send is admitted -/

theorem mem_sent_of_pop {x : SerializedMessage}
    {q : Fifo SerializedMessage} (hq : (s.outbound h).pop? = some (x, q))
    (hx : x.header? = some m) : m ∈ s.sent h :=
  List.mem_filterMap.mpr ⟨x, Fifo.mem_log_of_pop? hq, hx⟩

/-- A receipt names the author of a message that the conversation has processed. -/
theorem author_of_receipt (hs : s.Sound config) (hm : m ∈ s.sent h) (hb : m.body = .receipt) :
    ∃ m' ∈ s.processed h, m'.sender = m.group := by
  have hrec : m ∈ receipts (s.sent h) := List.mem_filter.mpr ⟨hm, by simp [hb]⟩
  obtain ⟨m', hm', rfl⟩ := List.mem_map.mp ((hs.account h).answered.subset hrec)
  exact ⟨m', (List.mem_filter.mp hm').1, rfl⟩

theorem legit_of_sent (hs : s.Sound config) (hm : m ∈ s.sent h) : s.server.Legit h m := by
  refine ⟨(hs.account h).sender m hm, ?_⟩
  cases hb : m.body with
  | size _ => exact (hs.account h).group m (List.mem_filter.mpr ⟨hm, by simp [hb]⟩)
  | receipt =>
    obtain ⟨m', hm', heq⟩ := hs.author_of_receipt hm hb
    -- the author is online, and everybody is registered by now
    obtain ⟨hp, i, hi⟩ := hs.online_of_processed hm'
    rw [heq] at hi
    exact hs.registered hp _ (hs.configured i _ hi)

theorem registering (hs : s.Sound config) {b : ServerAction} (hb : ¬ Transfers b)
    (hC : s.Undisturbed config (.server b)) : s.server.Registering b := by
  cases b with
  | handshake i h =>
    refine ⟨?_, hC.2⟩
    -- after the end of the phase all configured conversations are online
    cases hp : s.server.phaseOver with
    | false => rfl
    | true =>
      obtain ⟨c, hc⟩ := Option.isSome_iff_exists.mp (hs.registered hp h hC.1)
      have hh := Server.handshake_of_stored hs.wf hc
      exact absurd hh (hC.2 c (hs.wf.tasks.lt_of_handshake hh))
  | endRegistration =>
    intro j hj hne
    obtain ⟨h, hh⟩ := Option.ne_none_iff_exists'.mp hne
    obtain ⟨c, hc⟩ := Option.isSome_iff_exists.mp (hC h (hs.configured j h hh))
    obtain rfl := hs.fanOut.distinct c j h (Server.handshake_of_stored hs.wf hc) hh
    obtain ⟨x, hx, hc⟩ := Server.storedChannel_eq_some.mp hc
    obtain ⟨_, _, _, _, hins⟩ := hs.wf.tables.channel x _ c hc
    exact hins
  | read i m => exact absurd trivial hb
  | _ => trivial

end Sound

/-! ### The steps -/

/-- The server's part of the invariant. -/
theorem Sound.server_step (hs : s.Sound config) {b : ServerAction} {u : Server}
    (hR : s.server.Registering b) (hC : s.Undisturbed config (.server b))
    (hu : Server.Step s.server b u) :
    u.Wf ∧ u.FanOut ∧ u.Taken ∧ (∀ i h, u.handshake i = some h → h ∈ config) ∧
      (u.phaseOver = true → ∀ h ∈ config, (u.storedChannel h).isSome) := by
  refine ⟨Server.wf_step hs.wf hu, Server.fanOut_step hs.wf hs.fanOut hR hu,
    Server.taken_step hs.wf.tasks hs.taken hu, fun i h hi => ?_, fun hp h hh => ?_⟩
  · obtain hi | rfl := Server.handshake_cases hu hi
    · exact hs.configured i h hi
    · exact hC.1
  · obtain hp | rfl := Server.phaseOver_cases hu hp
    · rw [hs.fanOut.stored_of_phaseOver hs.wf hp hu]
      exact hs.registered hp h hh
    · rw [Server.FanOut.stored_of_endRegistration hu]
      exact hC h hh

/-- A step of a conversation, which takes nothing from its stream and puts nothing on its
channel. -/
theorem Sound.of_conversation (hs : s.Sound config) (hsrv : t.server = s.server)
    (hout : ∀ h, (t.outbound h).received = (s.outbound h).received)
    (hin : ∀ h, (t.inbound h).log = (s.inbound h).log)
    (hacc : ∀ h, Account h (t.conversation h).nextId? (t.sent h) (t.processed h)) :
    t.Sound config := by
  constructor
  case account => exact hacc
  case uplink =>
    intro i h hi
    rw [hsrv] at hi ⊢
    rw [hout]
    exact hs.uplink i h hi
  case downlink =>
    intro i h hi
    rw [hsrv] at hi ⊢
    rw [hin]
    exact hs.downlink i h hi
  case offline =>
    intro h hh
    rw [hsrv] at hh
    rw [hout, hin]
    exact hs.offline h hh
  all_goals rw [hsrv]
  exacts [hs.wf, hs.fanOut, hs.taken, hs.configured, hs.registered]

section Settle

variable {o : Outcome}

@[simp] theorem server_settle : (s.settle h o).server = s.server := by
  cases o <;> rfl

@[simp] theorem inbound_settle : (s.settle h o).inbound = s.inbound := by
  cases o <;> rfl

theorem received_settle (k : Handshake) :
    ((s.settle h o).outbound k).received = (s.outbound k).received := by
  cases o with
  | none => rfl
  | some r =>
    obtain ⟨o, machine⟩ := r
    by_cases hk : k = h
    · subst hk
      cases o <;> simp [settle, stream]
    · simp [settle, hk]

theorem sent_settle (o : Option Outgoing) (machine : StateMachine) :
    (s.settle h (some (o, machine))).sent h =
      s.sent h ++ (o.bind Outgoing.header?).toList := by
  cases o with
  | none => simp [sent, settle, stream]
  | some o =>
    have hone : [o.message].filterMap SerializedMessage.header? = o.header?.toList := by
      cases hh : o.header? <;> simp_all [Outgoing.header?]
    simp [sent, settle, stream, List.filterMap_append, hone]

/-- A round of a conversation keeps the accounts. -/
theorem account_settle {machine : StateMachine} {e : Wakeup} {l : List MessageHeader}
    {now : Instant} {v : Samples} (ha : Account h (some machine.nextId) (s.sent h) l)
    (hl : s.processed h = l ++ e.inbound?.toList)
    (hne : ∀ k, k ≠ h → Account k (s.conversation k).nextId? (s.sent k) (s.processed k))
    (k : Handshake) :
    let t := s.settle h (machine.manage false e h.sender h.group now v)
    Account k (t.conversation k).nextId? (t.sent k) (t.processed k) := by
  intro t
  have hproc : t.processed = s.processed := by
    funext k
    simp [t, processed]
  rw [hproc]
  by_cases hk : k = h
  · subst hk
    rw [hl]
    cases hm : machine.manage false e k.sender k.group now v with
    | none =>
      -- the conversation has panicked
      have hconv : (t.conversation k).nextId? = none := by
        simp [t, hm, settle, ConversationTask.nextId?]
      have hsent : t.sent k = s.sent k := by simp [t, hm, settle, sent]
      rw [hconv, hsent]
      exact ha.panic _
    | some r =>
      obtain ⟨o, machine'⟩ := r
      have hconv : (t.conversation k).nextId? = some machine'.nextId := by
        simp [t, hm, settle, ConversationTask.nextId?]
      have hsent : t.sent k = s.sent k ++ (o.bind Outgoing.header?).toList := by
        simp only [t, hm, sent_settle]
      rw [hconv, hsent]
      exact ha.round (StateMachine.manage_cases hm)
  · have hconv : t.conversation k = s.conversation k := by
      cases hm : machine.manage false e h.sender h.group now v <;> simp [t, hm, settle, hk]
    have hsent : t.sent k = s.sent k := by
      cases hm : machine.manage false e h.sender h.group now v <;> simp [t, hm, settle, sent, hk]
    rw [hconv, hsent]
    exact hne k hk

end Settle

/-- The sender of a connection writes to that connection. -/
theorem Sound.socket_eq (hs : s.Sound config) {k : ℕ}
    (hi : s.server.sender i = .writing k m) : k = i := by
  obtain ⟨h, hk, hi⟩ := hs.wf.sockets.owns i k (.inr (by rw [hi]; rfl))
  exact hs.fanOut.distinct k i h hk hi

/-- A step of the server in which it neither reads nor writes a message. -/
theorem Sound.of_server (hs : s.Sound config) {b : ServerAction} {u : Server}
    (hb : ¬ Transfers b) (hC : s.Undisturbed config (.server b))
    (hu : Server.Step s.server b u) : Sound config { s with server := u } := by
  have hR := hs.registering hb hC
  obtain ⟨hwf, hfan, htaken, hconf, hreg⟩ := hs.server_step hR hC hu
  have hrec : ∀ i, u.received i = s.server.received i := by
    intro i
    obtain he | ⟨_, m, rfl, _⟩ := Server.received_cases hu i
    · exact he
    · exact absurd trivial hb
  have hsent : ∀ i, u.sent i = s.server.sent i := by
    intro i
    obtain he | ⟨k, m, rfl, _⟩ := Server.sent_cases hu i
    · exact he
    · exact absurd trivial hb
  -- a client that has just come online has neither sent nor got anything
  have hnew : ∀ i h, b = .handshake i h → (s.outbound h).received = [] ∧
      (s.inbound h).log = [] ∧ s.server.received i = [] ∧ s.server.sent i = [] := by
    rintro i h rfl
    obtain ⟨hout, hin⟩ := hs.offline h fun j hj => hC.2 j (hs.wf.tasks.lt_of_handshake hj) hj
    obtain ⟨_, hrec, hlog⟩ := hs.fanOut.before hR.1 i
    have hpre := hs.taken.isPrefix_sent i
    rw [hlog, List.map_nil, List.prefix_nil, List.map_eq_nil_iff] at hpre
    exact ⟨hout, hin, hrec, hpre⟩
  refine ⟨hwf, hfan, htaken, hconf, hreg, hs.account, fun i h hi => ?_, fun i h hi => ?_,
    fun h hh => ?_⟩
  · rw [hrec]
    obtain hi | ha := Server.handshake_cases hu hi
    · exact hs.uplink i h hi
    · obtain ⟨hout, _, hrec, _⟩ := hnew i h ha
      rw [hout, hrec]
      rfl
  · rw [hsent]
    obtain hi | ha := Server.handshake_cases hu hi
    · exact hs.downlink i h hi
    · obtain ⟨_, hin, _, hsent⟩ := hnew i h ha
      rw [hsent]
      exact hin
  · exact hs.offline h fun i hi => hh i (Server.handshake_mono hs.wf.tasks hu hi)

/-- The server reads the next message of a stream. -/
theorem Sound.readFrom (hs : s.Sound config) {x : SerializedMessage} {q : Fifo SerializedMessage}
    {u : Server} (hi : s.server.handshake i = some h) (hq : (s.outbound h).pop? = some (x, q))
    (hx : x.header? = some m) (hu : Server.Step s.server (.read i m) u) :
    (s.readFrom h q u).Sound config := by
  have hR : s.server.Registering (.read i m) := by
    intro h' hh'
    obtain rfl := Option.some_inj.mp (hi.symm.trans hh')
    exact hs.legit_of_sent (Sound.mem_sent_of_pop hq hx)
  obtain ⟨hwf, hfan, htaken, hconf, hreg⟩ := hs.server_step hR trivial hu
  obtain ⟨hlog, hrec, _⟩ := Fifo.pop?_eq_some hq
  have hold : ∀ j k, u.handshake j = some k → s.server.handshake j = some k := by
    intro j k hj
    exact (Server.handshake_cases hu hj).resolve_right nofun
  refine ⟨hwf, hfan, htaken, hconf, hreg, fun k => ?_, fun j k hj => ?_, fun j k hj => ?_,
    fun k hk => ?_⟩
  · by_cases hkh : k = h
    · subst hkh
      simpa [sent, processed, Network.readFrom, hlog] using hs.account k
    · simpa [sent, processed, Network.readFrom, hkh] using hs.account k
  · have hj' := hold j k hj
    by_cases hkh : k = h
    · -- the message comes from the only connection of the client
      subst hkh
      obtain rfl := hs.fanOut.distinct j i k hj' hi
      have hup := hs.uplink j k hj'
      simp [Network.readFrom, Server.received_read hu, hrec, hup, List.filterMap_append, hx]
    · have hji : j ≠ i := by
        rintro rfl
        exact hkh (Option.some_inj.mp (hj'.symm.trans hi))
      obtain he | ⟨_, _, ha, _⟩ := Server.received_cases hu j
      · simpa [Network.readFrom, hkh, he] using hs.uplink j k hj'
      · cases ha
        exact absurd rfl hji
  · obtain he | ⟨_, _, ha, _⟩ := Server.sent_cases hu j
    · simpa [Network.readFrom, he] using hs.downlink j k (hold j k hj)
    · cases ha
  · have hkh : k ≠ h := by
      rintro rfl
      exact hk i (Server.handshake_mono hs.wf.tasks hu hi)
    simpa [Network.readFrom, hkh] using
      hs.offline k fun j hj => hk j (Server.handshake_mono hs.wf.tasks hu hj)

/-- The server writes a message to a client. -/
theorem Sound.writeTo (hs : s.Sound config) {u : Server} (hi : s.server.sender i = .writing i m)
    (hk : s.server.handshake i = some k) (hu : Server.Step s.server (.written i) u) :
    (s.writeTo k m u).Sound config := by
  have hR : s.server.Registering (.written i) := trivial
  obtain ⟨hwf, hfan, htaken, hconf, hreg⟩ := hs.server_step hR trivial hu
  have hold : ∀ j h, u.handshake j = some h → s.server.handshake j = some h := by
    intro j h hj
    exact (Server.handshake_cases hu hj).resolve_right nofun
  refine ⟨hwf, hfan, htaken, hconf, hreg, fun h => ?_, fun j h hj => ?_, fun j h hj => ?_,
    fun h hh => ?_⟩
  · by_cases hhk : h = k
    · subst hhk
      simpa [sent, processed, Network.writeTo] using hs.account h
    · simpa [sent, processed, Network.writeTo, hhk] using hs.account h
  · obtain he | ⟨_, _, ha, _⟩ := Server.received_cases hu j
    · simpa [Network.writeTo, he] using hs.uplink j h (hold j h hj)
    · cases ha
  · have hj' := hold j h hj
    by_cases hhk : h = k
    · -- the message goes to the only connection of the client
      subst hhk
      obtain rfl := hs.fanOut.distinct j i h hj' hk
      have hdown := hs.downlink j h hj'
      simp [Network.writeTo, Server.sent_written hu hi, hdown]
    · have hji : j ≠ i := by
        rintro rfl
        exact hhk (Option.some_inj.mp (hj'.symm.trans hk))
      obtain he | ⟨_, _, ha, _⟩ := Server.sent_cases hu j
      · simpa [Network.writeTo, hhk, he] using hs.downlink j h hj'
      · cases ha
        exact absurd rfl hji
  · have hhk : h ≠ k := by
      rintro rfl
      exact hh i (Server.handshake_mono hs.wf.tasks hu hk)
    simpa [Network.writeTo, hhk] using
      hs.offline h fun j hj => hh j (Server.handshake_mono hs.wf.tasks hu hj)

/-- **Step of the invariant.** Every step of an undisturbed run preserves it. -/
theorem sound_step (hs : s.Sound config) (hC : s.Undisturbed config a) (h : Step s a t) :
    t.Sound config := by
  cases h with
  | server hb hu => exact hs.of_server hb hC hu
  | read hi hq hx hu => exact hs.readFrom hi hq hx hu
  | written hi hk hu =>
    obtain rfl := hs.socket_eq hi
    exact hs.writeTo hi hk hu
  | @awake h now v hh =>
    refine hs.of_conversation rfl (fun _ => rfl) (fun _ => rfl) fun k => ?_
    by_cases hk : k = h
    · subst hk
      have ha := hs.account k
      rw [hh] at ha
      simpa [sent, processed, ConversationTask.nextId?, StateMachine.start, StateMachine.nextId,
        Conversation.start] using ha
    · simpa [hk, sent, processed] using hs.account k
  | @timer h now v machine hh =>
    refine hs.of_conversation server_settle received_settle (fun _ => by simp) ?_
    have ha := hs.account h
    rw [hh] at ha
    exact account_settle ha (by simp [Wakeup.inbound?]) fun k _ => hs.account k
  | @receive h now v machine m q hh hq =>
    obtain ⟨hlog, hrec, _⟩ := Fifo.pop?_eq_some hq
    refine hs.of_conversation server_settle received_settle (fun k => ?_) ?_
    · by_cases hk : k = h
      · subst hk
        simpa [take] using hlog
      · simp [take, hk]
    · have ha := hs.account h
      rw [hh] at ha
      refine account_settle (s := s.take h q) (l := s.processed h) ha ?_ fun k hk => ?_
      · simpa [take, processed, Wakeup.inbound?] using hrec
      · simpa [take, processed, sent, hk] using hs.account k

end Network

end SignalSim.Mgen
