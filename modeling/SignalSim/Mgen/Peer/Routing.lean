import Mathlib.Logic.Function.Basic
import SignalSim.Mgen.Peer.Network

/-!
# Routing among peers

Where the configurations of the users fit together, no table lacks an entry: a listener knows who
connects to it, a reader knows the group of every message, and a conversation knows the sender of
every message. The invariant says of every message on its way which conversation it is from, and of
every end of a connection in the hands of a task that the task is for the user at the other end.

## Main definitions

* `ClosedFamily` — the configurations fit together
* `Mutual` — what routing needs of that: whoever is listed lists the other
* `Inv` — what holds of every message and every connection
* `RoutedSafely` — no lookup has panicked, and messages are where they belong

## Main results

* `Inv.step` — every step keeps the invariant
* `peers_routing_closed` — the states of every run are of this kind
-/

namespace SignalSim.Mgen.Peer

open Function (update)

variable {ι D E R : Type}

/-- One configuration for each user, with groups of their own, a hosts file with the address that
only the user's own listener serves, and conversations that list the other members of the group. -/
structure ClosedFamily (forwards : String → String → Bool) (hosts : HostsMap)
    (config : ι → Config D) : Prop where
  user_injective : Function.Injective fun i => (config i).user
  groups_nodup : ∀ i, ((config i).conversations.map (·.group)).Nodup
  own_address : ∀ i, ∃ address, hosts.lookup (config i).user = some address ∧
    ∀ j listening, listenAddress hosts (config j) = some listening →
      forwards address listening = true → j = i
  recipients : ∀ i, ∀ c ∈ (config i).conversations, ∀ r, r ∈ c.recipients ↔
    r ≠ (config i).user ∧ ∃ j, (config j).user = r ∧
      ∃ d ∈ (config j).conversations, d.group = c.group

/-- Whoever is listed in a conversation is a user who lists the other in one of the same group. A
user may list itself. -/
structure Mutual (forwards : String → String → Bool) (hosts : HostsMap) (config : ι → Config D) :
    Prop where
  user_injective : Function.Injective fun i => (config i).user
  own_address : ∀ i, ∃ address, hosts.lookup (config i).user = some address ∧
    ∀ j listening, listenAddress hosts (config j) = some listening →
      forwards address listening = true → j = i
  listed : ∀ i, ∀ c ∈ (config i).conversations, ∀ r ∈ c.recipients, ∃ j, (config j).user = r ∧
    ∃ d ∈ (config j).conversations, d.group = c.group ∧ (config i).user ∈ d.recipients

/-- The tasks of the users for whom `process_config` does not fail. -/
def spawned (tryInto : D → Except E (Distributions R)) (hosts : HostsMap) (config : ι → Config D)
    (i : ι) : Option (Spawned R) :=
  (processConfig tryInto hosts (config i)).toOption

/-! ### What is known of messages and connections -/

section

variable (net : ι → Option (Spawned R)) (config : ι → Config D)

/-- A reader and a writer of a user, by their number. -/
def HasIo (x : ι × ℕ) (io : IoThreads) : Prop :=
  ∃ p, net x.1 = some p ∧ p.io[x.2]? = some io

/-- The end is that of the user, and the task is for the user at the other end. -/
def Owns (i : ι) (io : IoThreads) (h : End ι) : Prop :=
  h.here = i ∧ io.recipient = (config h.there).user

/-- A conversation of `i` that lists the recipient has sent the message. -/
def From (i : ι) (recipient : String) (m : Tagged ι (Arc SerializedMessage)) : Prop :=
  m.user = i ∧ ∃ c msg, (config i).conversations[m.conversation]? = some c ∧
    recipient ∈ c.recipients ∧ decode m.val = .ok msg ∧ msg.sender = (config i).user ∧
      msg.group = c.group

/-- The message is from a conversation of the same group as that of `i`, and both list the other
user. -/
def Handed (i : ι) (k : ℕ) (m : Tagged ι MessageHeader) : Prop :=
  ∃ c d, (config i).conversations[k]? = some c ∧
    (config m.user).conversations[m.conversation]? = some d ∧ c.group = d.group ∧
      m.val.group = d.group ∧ m.val.sender = (config m.user).user ∧
        (config m.user).user ∈ c.recipients ∧ (config i).user ∈ d.recipients

/-- The user who has opened the connection has a conversation with the other. -/
def Valid (c : Conn ι) : Prop :=
  ∃ d ∈ (config c.opener).conversations, (config c.acceptor).user ∈ d.recipients

end

/-- The message that the writer has taken and not yet written. -/
def WriterState.inHand : WriterState ι → Option (Tagged ι (Arc SerializedMessage))
  | checking m | attempting m | sleeping m | connecting m => some m
  | identifying m _ _ | handing m _ | writing m _ => some m
  | first | receiving _ | panicked => none

/-- The stream that the writer has. -/
def WriterState.stream? : WriterState ι → Option (End ι)
  | identifying _ h _ | handing _ h | writing _ h | receiving h => some h
  | first | checking _ | attempting _ | sleeping _ | connecting _ | panicked => none

section

variable (net : ι → Option (Spawned R)) (config : ι → Config D)

structure WriterOk (x : ι × ℕ) (w : WriterState ι) : Prop where
  inHand : ∀ io, HasIo net x io → ∀ m ∈ w.inHand, From config x.1 io.recipient m
  stream : ∀ io, HasIo net x io → ∀ h ∈ w.stream?, Owns config x.1 io h
  identifying : ∀ m h again, w = .identifying m h again → h.opened = true

def OutboxOk (x : ι × ℕ) (q : Fifo (Tagged ι (Arc SerializedMessage))) : Prop :=
  ∀ n io, HasIo net (x.1, n) io → io.writerFromState = x.2 →
    ∀ m ∈ q.log, From config x.1 io.recipient m

def WrUpdaterOk (x : ι × ℕ) (u : Updater (End ι)) : Prop :=
  ∀ n io, HasIo net (x.1, n) io → io.writerUpdater = x.2 → ∀ h ∈ u.object, Owns config x.1 io h

def RdUpdaterOk (x : ι × ℕ) (u : Updater (End ι)) : Prop :=
  ∀ n io, HasIo net (x.1, n) io → io.readerUpdater = x.2 → ∀ h ∈ u.object, Owns config x.1 io h

structure ReaderOk (x : ι × ℕ) (r : ReaderState ι) : Prop where
  reading : ∀ io, HasIo net x io → ∀ h, r = .reading h → Owns config x.1 io h
  knows : ∀ g, r ≠ .panicked (.unknownGroup g)

def ListenerOk (i : ι) : ListenerState ι → Prop
  | .accepting => True
  | .parsing h => h.opened = false ∧ h.here = i ∧ Valid config h.conn
  | .handRd h u | .handWr h u => ∃ n io, HasIo net (i, n) io ∧ Owns config i io h ∧
      u = (io.readerUpdater, io.writerUpdater)
  | .panicked _ => False

def BacklogOk (i : ι) (cs : List (Conn ι)) : Prop := ∀ c ∈ cs, c.acceptor = i ∧ Valid config c

def IdentifierOk (c : Conn ι) (name : Option String) : Prop :=
  ∀ user ∈ name, user = (config c.opener).user

def LinkOk (h : End ι) (q : Fifo (Tagged ι (Arc SerializedMessage))) : Prop :=
  ∀ m ∈ q.log, From config h.here (config h.there).user m

def InboxOk (x : ι × ℕ) (q : Fifo (Tagged ι MessageHeader)) : Prop :=
  ∀ m ∈ q.log, Handed config x.1 x.2 m

def ConversationOk (c : ConversationState R) : Prop := c ≠ .panicked .unknownName

/-- What holds of every message and every connection. -/
structure Inv (s : Net ι R) : Prop where
  writer : ∀ x, WriterOk net config x (s.writer x)
  outbox : ∀ x, OutboxOk net config x (s.outbox x)
  wrUpdater : ∀ x, WrUpdaterOk net config x (s.wrUpdater x)
  rdUpdater : ∀ x, RdUpdaterOk net config x (s.rdUpdater x)
  reader : ∀ x, ReaderOk net config x (s.reader x)
  listener : ∀ i, ListenerOk net config i (s.listener i)
  backlog : ∀ i, BacklogOk config i (s.backlog i)
  identifier : ∀ c, IdentifierOk config c (s.identifier c)
  link : ∀ h, LinkOk config h (s.link h)
  inbox : ∀ x, InboxOk config x (s.inbox x)
  conversation : ∀ x, ConversationOk (s.conversation x)

end

/-! ### What the configurations give -/

section

variable {net : ι → Option (Spawned R)} {config : ι → Config D} {hosts : HostsMap}
  {forwards : String → String → Bool} {i j : ι} {io : IoThreads} {n : ℕ} {p : Spawned R}
  {h : End ι} {m : Tagged ι (Arc SerializedMessage)}

@[simp] theorem End.other_other (h : End ι) : h.other.other = h := by
  obtain ⟨c, opened⟩ := h
  cases opened <;> rfl

/-- **Members list each other.** -/
theorem ClosedFamily.mutual (hfam : ClosedFamily forwards hosts config) :
    Mutual forwards hosts config where
  user_injective := hfam.user_injective
  own_address := hfam.own_address
  listed j d hd r hr := by
    obtain ⟨hne, i, rfl, c, hc, hgroup⟩ := (hfam.recipients j d hd r).mp hr
    exact ⟨i, rfl, c, hc, hgroup,
      (hfam.recipients i c hc _).mpr ⟨hne.symm, j, rfl, d, hd, hgroup.symm⟩⟩

theorem Mutual.exists_conversation (hfam : Mutual forwards hosts config)
    {d : ConversationConfig D} (hd : d ∈ (config j).conversations)
    (hi : (config i).user ∈ d.recipients) :
    ∃ c ∈ (config i).conversations, c.group = d.group ∧ (config j).user ∈ c.recipients := by
  obtain ⟨i', hi', hconversation⟩ := hfam.listed j d hd _ hi
  obtain rfl := hfam.user_injective hi'
  exact hconversation

/-- What is read from the other end is for a conversation that the reader knows. -/
theorem From.exists_channel (hfam : Mutual forwards hosts config)
    (hroutes : ∀ i p, net i = some p → Routes hosts (config i) p) (hio : HasIo net (i, n) io)
    (howns : Owns config i io h) (hm : From config h.there (config i).user m) :
    ∃ msg k, decode m.val = .ok msg ∧ io.readerToStates.lookup msg.group = some k ∧
      Handed config i k ⟨m.user, m.conversation, msg⟩ := by
  obtain ⟨p, hp, hget⟩ := hio
  obtain ⟨user, conversation, val⟩ := m
  obtain ⟨huser, d, msg, hd, hi, hdecode, hsender, hgroup⟩ := hm
  obtain rfl : user = h.there := huser
  obtain ⟨c, hc, hcgroup, hj⟩ := hfam.exists_conversation (List.mem_of_getElem? hd) hi
  obtain ⟨k, hk⟩ := List.mem_iff_getElem?.mp hc
  refine ⟨msg, k, hdecode, ?_, c, d, hk, hd, hcgroup, hgroup, hsender, hj, hi⟩
  rw [(hroutes i p hp).reader io (List.mem_of_getElem? hget) msg.group k, howns.2]
  exact ⟨c, hk, hcgroup.trans hgroup.symm, hj⟩

/-- The listener knows who connects to it. -/
theorem Valid.exists_updaters (hfam : Mutual forwards hosts config)
    (hroutes : ∀ i p, net i = some p → Routes hosts (config i) p) {c : Conn ι}
    (hp : net c.acceptor = some p) (hc : Valid config c) :
    ∃ n io, HasIo net (c.acceptor, n) io ∧ Owns config c.acceptor io ⟨c, false⟩ ∧
      p.nameToIoThreads.lookup (config c.opener).user =
        some (io.readerUpdater, io.writerUpdater) := by
  obtain ⟨d, hd, hi⟩ := hc
  obtain ⟨c', hc', -, hj⟩ := hfam.exists_conversation hd hi
  have hroute := hroutes _ p hp
  obtain ⟨io, hio, hr⟩ := List.mem_map.mp ((hroute.recipients _).mpr ⟨c', hc', hj⟩)
  obtain ⟨n, hn⟩ := List.mem_iff_getElem?.mp hio
  exact ⟨n, io, ⟨p, hp, hn⟩, ⟨rfl, hr⟩, (hroute.listener _ _).mpr ⟨io, hio, hr, rfl⟩⟩

/-- A writer connects to its recipient. -/
theorem recipient_of_forwards (hfam : Mutual forwards hosts config)
    (hroutes : ∀ i p, net i = some p → Routes hosts (config i) p) {q : Spawned R}
    (hp : net i = some p) (hio : p.io[n]? = some io) (hq : net j = some q)
    (hforwards : forwards io.strParams.target q.address = true) (k : ℕ) :
    io.recipient = (config j).user ∧ Valid config ⟨k, i, j⟩ := by
  have hmem := List.mem_of_getElem? hio
  obtain ⟨c, hc, hr⟩ := ((hroutes i p hp).recipients _).mp (List.mem_map_of_mem hmem)
  obtain ⟨j', hj', -⟩ := hfam.listed i c hc _ hr
  obtain ⟨address, haddress, hown⟩ := hfam.own_address j'
  rw [hj', ((hroutes i p hp).params io hmem).2] at haddress
  obtain rfl := Option.some_inj.mp haddress
  obtain rfl := hown j q.address (hroutes j q hq).address hforwards
  exact ⟨hj'.symm, c, hc, hj'.symm ▸ hr⟩

end

/-! ### What a round puts on the channels -/

theorem decode_of_serialize {msg : MessageHeader} {x : SerializedMessage}
    (h : msg.serialize = some x) : decode ⟨x⟩ = .ok msg := by
  have hfits := MessageHeader.fits_of_serialize h
  rw [MessageHeader.serialize_eq hfits] at h
  obtain rfl := Option.some_inj.mp h
  rw [decode, MessageHeader.drop_frameHeader, MessageHeader.deserialize_headerTail hfits]

/-- What is put on a channel is from the conversation and for one of its recipients: a message of
its group, or the receipt of one that came in. -/
theorem exists_of_mem_puts {conf : ThreadConfig R StreamTable} (hp2p : conf.p2p = true)
    {thread thread' : StateThread R} {t : Moment} {out : RoundOutput (Arc SerializedMessage)}
    (h : StateThread.manage conf thread t = .ok (out, thread')) {put : ℕ × Arc SerializedMessage}
    (hput : put ∈ out.puts) :
    ∃ r w msg, conf.streams.lookup r = some w ∧ put.1 = w.channel ∧ decode put.2 = .ok msg ∧
      msg.sender = conf.ourId ∧ (msg.group = conf.group ∨
        ∃ m, t.wakeup = .inbound m ∧ msg.group = m.group) := by
  cases StateThread.manage_answers h with
  | send _ _ _ hsend _ =>
    obtain ⟨size, x, hx, hputs⟩ := hsend
    rw [hputs] at hput
    obtain ⟨w, hw, rfl⟩ := List.mem_map.mp hput
    obtain ⟨⟨r, w⟩, he, rfl⟩ := List.mem_map.mp hw
    exact ⟨r, w, _, AList.mem_lookup_iff.mpr he, rfl, decode_of_serialize hx, rfl, .inl rfl⟩
  | idle _ _ _ hputs _ _ =>
    rw [hputs] at hput
    cases hput
  | @message _ _ m w x hwake _ hw hx _ hputs _ =>
    rw [hputs] at hput
    obtain rfl := List.mem_singleton.mp hput
    rw [if_pos hp2p] at hx
    have hlookup : conf.streams.lookup m.sender = some w := by
      simp only [StreamMap.channelFor] at hw
      cases hs : conf.streams.lookup m.sender with
      | none =>
        rw [hs] at hw
        cases hw
      | some w' =>
        rw [hs] at hw
        exact congrArg some (Except.ok.inj hw)
    exact ⟨m.sender, w, _, hlookup, rfl, decode_of_serialize hx, rfl, .inr ⟨m, hwake, rfl⟩⟩
  | receipt _ _ _ hputs =>
    rw [hputs] at hput
    cases hput

/-- A round in which the sender is known does not look one up in vain. -/
theorem ne_unknownName {conf : ThreadConfig R StreamTable} {thread : StateThread R} {t : Moment}
    {p : Panic} (h : StateThread.manage (S := Arc SerializedMessage) conf thread t = .error p)
    (hknown : ∀ m, t.wakeup = .inbound m → ∃ w, conf.streams.lookup m.sender = some w) :
    p ≠ .unknownName := by
  rintro rfl
  have hexcused := StateThread.manage_eq_error h
  cases hexcused with
  | unknownName hwake _ hnone =>
    obtain ⟨w, hw⟩ := hknown _ hwake
    exact hnone w (by simp only [StreamMap.channelFor, hw]; rfl)

/-! ### Tasks -/

section

variable {net : ι → Option (Spawned R)} {config : ι → Config D} {x : ι × ℕ} {io io' : IoThreads}

theorem HasIo.eq (h : HasIo net x io) (h' : HasIo net x io') : io = io' := by
  obtain ⟨p, hp, hio⟩ := h
  obtain ⟨p', hp', hio'⟩ := h'
  obtain rfl := Option.some_inj.mp (hp.symm.trans hp')
  exact Option.some_inj.mp (hio.symm.trans hio')

section

variable {hosts : HostsMap} (hroutes : ∀ i p, net i = some p → Routes hosts (config i) p)

include hroutes

theorem HasIo.updaters (h : HasIo net x io) : io.readerUpdater = x.2 ∧ io.writerUpdater = x.2 := by
  obtain ⟨p, hp, hio⟩ := h
  exact (hroutes _ p hp).updaters _ io hio

/-- Updaters and channels to writers are for one task. -/
theorem HasIo.eq_of_readerUpdater {n : ℕ} (h : HasIo net x io) (h' : HasIo net (x.1, n) io')
    (heq : io.readerUpdater = io'.readerUpdater) : io = io' := by
  obtain rfl : x.2 = n := (h.updaters hroutes).1.symm.trans (heq.trans (h'.updaters hroutes).1)
  exact h.eq h'

theorem HasIo.eq_of_writerUpdater {n : ℕ} (h : HasIo net x io) (h' : HasIo net (x.1, n) io')
    (heq : io.writerUpdater = io'.writerUpdater) : io = io' := by
  obtain rfl : x.2 = n := (h.updaters hroutes).2.symm.trans (heq.trans (h'.updaters hroutes).2)
  exact h.eq h'

theorem HasIo.eq_of_writerFromState {n : ℕ} (h : HasIo net x io) (h' : HasIo net (x.1, n) io')
    (heq : io.writerFromState = io'.writerFromState) : io = io' := by
  obtain ⟨p, hp, hio⟩ := h
  obtain ⟨p', hp', hio'⟩ := h'
  obtain rfl := Option.some_inj.mp (hp.symm.trans hp')
  exact List.inj_on_of_nodup_map (hroutes _ p hp).writers_nodup (List.mem_of_getElem? hio)
    (List.mem_of_getElem? hio') heq

/-- What a conversation puts on the channel to a writer is for the recipient of the writer. -/
theorem from_of_mem_puts {i : ι} {k n : ℕ} {p : Spawned R} {task : ConversationTask R}
    {c : ConversationConfig D} {t : Moment} {thread thread' : StateThread R}
    {out : RoundOutput (Arc SerializedMessage)} (hp : net i = some p)
    (hk : p.conversations[k]? = some task) (hc : (config i).conversations[k]? = some c)
    (hwake : ∀ msg, t.wakeup = .inbound msg → ∃ m, m.val = msg ∧ Handed config i k m)
    (h : StateThread.manage task.conf thread t = .ok (out, thread'))
    {put : ℕ × Arc SerializedMessage} (hput : put ∈ out.puts) (hio : HasIo net (i, n) io)
    (hchannel : io.writerFromState = put.1) : From config i io.recipient ⟨i, k, put.2⟩ := by
  have hroute := hroutes i p hp
  obtain ⟨-, hp2p, hourId, hgroup⟩ := hroute.conversation k task c hk hc
  obtain ⟨r, w, msg, hw, hputw, hdecode, hsender, hmsg⟩ := exists_of_mem_puts hp2p h hput
  obtain ⟨hr, io', hio', rfl, hw'⟩ := (hroute.streams k task c hk hc r w).mp hw
  obtain ⟨n', hn'⟩ := List.mem_iff_getElem?.mp hio'
  have hsame : io = io' := hio.eq_of_writerFromState hroutes ⟨p, hp, hn'⟩
    (hchannel.trans (hputw.trans hw'))
  refine ⟨rfl, c, msg, hc, hsame ▸ hr, hdecode, hsender.trans hourId, ?_⟩
  rcases hmsg with hmsg | ⟨m, hm, hmsg⟩
  · exact hmsg.trans hgroup
  · -- a receipt goes back to the group that the message has come from
    obtain ⟨m', rfl, c', d, hc', -, hcd, hd, -⟩ := hwake m hm
    obtain rfl := Option.some_inj.mp (hc.symm.trans hc')
    exact hmsg.trans (hd.trans hcd.symm)

/-- A stream for a reader is sent to that reader only. -/
theorem rdUpdaterOk_send (hio : HasIo net x io) {e : End ι} (howns : Owns config x.1 io e)
    (u : Updater (End ι)) :
    RdUpdaterOk net config (x.1, io.readerUpdater) (u.send e) := by
  rintro n' io' hio' hupdater _ ⟨⟩
  rwa [hio.eq_of_readerUpdater hroutes hio' hupdater.symm] at howns

theorem wrUpdaterOk_send (hio : HasIo net x io) {e : End ι} (howns : Owns config x.1 io e)
    (u : Updater (End ι)) :
    WrUpdaterOk net config (x.1, io.writerUpdater) (u.send e) := by
  rintro n' io' hio' hupdater _ ⟨⟩
  rwa [hio.eq_of_writerUpdater hroutes hio' hupdater.symm] at howns

end

/-- A writer that has no more in its hands than before. -/
theorem WriterOk.of_subset {w w' : WriterState ι} (h : WriterOk net config x w)
    (hm : ∀ m ∈ w'.inHand, m ∈ w.inHand) (hstream : ∀ e ∈ w'.stream?, e ∈ w.stream?)
    (hid : ∀ m e again, w' ≠ .identifying m e again) : WriterOk net config x w' where
  inHand io hio m hm' := h.inHand io hio m (hm m hm')
  stream io hio e he := h.stream io hio e (hstream e he)
  identifying m e again heq := absurd heq (hid m e again)

/-- A writer that has no more than the message of before. -/
theorem WriterOk.keepMessage {w w' : WriterState ι} {m : Tagged ι (Arc SerializedMessage)}
    (h : WriterOk net config x w) (hm : w.inHand = some m) (hm' : w'.inHand = some m)
    (hstream : w'.stream? = none) : WriterOk net config x w' := by
  apply h.of_subset
  · rw [hm, hm']
    exact fun _ h => h
  · rw [hstream]
    nofun
  · rintro m e again rfl
    cases hstream

/-- A writer that has got a message or a stream. -/
theorem writerOk_of_mem {w : WriterState ι} (hio : HasIo net x io)
    (hm : ∀ m ∈ w.inHand, From config x.1 io.recipient m)
    (hstream : ∀ e ∈ w.stream?, Owns config x.1 io e)
    (hid : ∀ m e again, w = .identifying m e again → e.opened = true) :
    WriterOk net config x w where
  inHand _ hio' m hm' := hio.eq hio' ▸ hm m hm'
  stream _ hio' e he := hio.eq hio' ▸ hstream e he
  identifying := hid

theorem wrUpdaterOk_of_none {u : Updater (End ι)} (hu : u.object = none) :
    WrUpdaterOk net config x u := by
  intro n io _ _ e he
  rw [hu] at he
  cases he

theorem rdUpdaterOk_of_none {u : Updater (End ι)} (hu : u.object = none) :
    RdUpdaterOk net config x u := by
  intro n io _ _ e he
  rw [hu] at he
  cases he

theorem readerOk_waiting : ReaderOk net config x .waiting where
  reading _ _ _ h := by cases h
  knows _ := nofun

theorem readerOk_channelClosed : ReaderOk net config x (.panicked .channelClosed) where
  reading _ _ _ h := by cases h
  knows _ := nofun

end

/-! ### What keeps the invariant -/

section

variable [DecidableEq ι] {net : ι → Option (Spawned R)} {config : ι → Config D} {s s' : Net ι R}
  {x : ι × ℕ} {i : ι} {k : ℕ}

theorem forall_update {α β : Type} [DecidableEq α] {f : α → β} {P : α → β → Prop} {a : α} {b : β}
    (h : ∀ x, P x (f x)) (hb : P a b) : ∀ x, P x (update f a b x) :=
  (Function.forall_update_iff f P).mpr ⟨hb, fun x _ => h x⟩

namespace Inv

variable (hs : Inv net config s)

include hs

theorem toWriter {w : WriterState ι} (hw : WriterOk net config x w) :
    Inv net config (s.toWriter x w) :=
  { hs with writer := forall_update hs.writer hw }

theorem toReader {r : ReaderState ι} (hr : ReaderOk net config x r) :
    Inv net config (s.toReader x r) :=
  { hs with reader := forall_update hs.reader hr }

theorem toListener {l : ListenerState ι} (hl : ListenerOk net config i l) :
    Inv net config (s.toListener i l) :=
  { hs with listener := forall_update hs.listener hl }

theorem toConversation {c : ConversationState R} (hc : ConversationOk c) :
    Inv net config (s.toConversation x c) :=
  { hs with conversation := forall_update (P := fun _ => ConversationOk) hs.conversation hc }

theorem setWrUpdater {u : Updater (End ι)} (hu : WrUpdaterOk net config x u) :
    Inv net config (s.setWrUpdater x u) :=
  { hs with wrUpdater := forall_update hs.wrUpdater hu }

theorem setRdUpdater {u : Updater (End ι)} (hu : RdUpdaterOk net config x u) :
    Inv net config (s.setRdUpdater x u) :=
  { hs with rdUpdater := forall_update hs.rdUpdater hu }

theorem setInbox {q : Fifo (Tagged ι MessageHeader)} (hq : InboxOk config x q) :
    Inv net config (s.setInbox x q) :=
  { hs with inbox := forall_update hs.inbox hq }

theorem setOutbox {q : Fifo (Tagged ι (Arc SerializedMessage))}
    (hq : OutboxOk net config x q) : Inv net config (s.setOutbox x q) :=
  { hs with outbox := forall_update hs.outbox hq }

theorem setLink {h : End ι} {q : Fifo (Tagged ι (Arc SerializedMessage))}
    (hq : LinkOk config h q) : Inv net config (s.setLink h q) :=
  { hs with link := forall_update hs.link hq }

theorem setBacklog {cs : List (Conn ι)} (hcs : BacklogOk config i cs) :
    Inv net config (s.setBacklog i cs) :=
  { hs with backlog := forall_update hs.backlog hcs }

/-- What is put on the channels to writers is from the conversation. -/
theorem putAll {puts : List (ℕ × Arc SerializedMessage)}
    (h : ∀ put ∈ puts, ∀ n io, HasIo net (i, n) io → io.writerFromState = put.1 →
      From config i io.recipient ⟨i, k, put.2⟩) : Inv net config (s.putAll i k puts) := by
  induction puts generalizing s with
  | nil => exact hs
  | cons put puts ih =>
    obtain ⟨hput, hputs⟩ := List.forall_mem_cons.mp h
    refine ih (hs.setOutbox ?_) hputs
    intro n io hio hchannel m hm
    rcases List.mem_append.mp hm with hm | hm
    · exact hs.outbox _ n io hio hchannel m hm
    · rw [List.mem_singleton.mp hm]
      exact hput n io hio hchannel

end Inv

/-! ### Writers -/

section

variable {hosts : HostsMap} {forwards : String → String → Bool} {n : ℕ} (hs : Inv net config s)

include hs

theorem Inv.step_takeMessage (h : s.step net forwards (.takeMessage i n) = some s') :
    Inv net config s' := by
  obtain ⟨p, hp, h⟩ := Option.bind_eq_some_iff.mp h
  obtain ⟨io, hget, h⟩ := Option.bind_eq_some_iff.mp h
  obtain ⟨⟨m, q⟩, hq, h⟩ := Option.bind_eq_some_iff.mp h
  have hio : HasIo net (i, n) io := ⟨p, hp, hget⟩
  have hfrom : From config i io.recipient m :=
    hs.outbox _ n io hio rfl m (Fifo.mem_log_of_pop? hq)
  have hrest : Inv net config (s.setOutbox (i, io.writerFromState) q) := by
    apply hs.setOutbox
    have hlog := (Fifo.pop?_eq_some hq).1
    intro n' io' hio' hchannel m' hm'
    exact hs.outbox _ n' io' hio' hchannel m' (hlog ▸ hm')
  dsimp only at h
  split at h
  · obtain rfl := Option.some_inj.mp h
    exact hrest.toWriter (writerOk_of_mem hio (by rintro _ ⟨⟩; exact hfrom) nofun nofun)
  · rename_i e hw
    obtain rfl := Option.some_inj.mp h
    have howns := (hs.writer (i, n)).stream io hio e (by rw [hw]; rfl)
    exact hrest.toWriter (writerOk_of_mem hio (by rintro _ ⟨⟩; exact hfrom)
      (by rintro _ ⟨⟩; exact howns) nofun)
  · cases h

/-- A writer gets a stream from its updater. -/
theorem Inv.gotStream {p : Spawned R} {io : IoThreads} {m : Tagged ι (Arc SerializedMessage)}
    {e : End ι} {u : Updater (End ι)} (hp : net i = some p) (hget : p.io[n]? = some io)
    (hm : m ∈ (s.writer (i, n)).inHand)
    (he : (s.wrUpdater (i, io.writerUpdater)).object = some e) (hu : u.object = none) :
    Inv net config ((s.setWrUpdater (i, io.writerUpdater) u).toWriter (i, n) (.writing m e)) := by
  have hio : HasIo net (i, n) io := ⟨p, hp, hget⟩
  have hfrom := (hs.writer (i, n)).inHand io hio m hm
  have howns := hs.wrUpdater (i, io.writerUpdater) n io hio rfl e he
  exact (hs.setWrUpdater (wrUpdaterOk_of_none hu)).toWriter (writerOk_of_mem hio
    (by rintro _ ⟨⟩; exact hfrom) (by rintro _ ⟨⟩; exact howns) nofun)

theorem Inv.step_check (h : s.step net forwards (.check i n) = some s') : Inv net config s' := by
  obtain ⟨p, hp, h⟩ := Option.bind_eq_some_iff.mp h
  obtain ⟨io, hget, h⟩ := Option.bind_eq_some_iff.mp h
  split at h
  · rename_i m e u hw hu
    obtain ⟨he, rfl⟩ := Prod.mk.inj hu
    obtain rfl := Option.some_inj.mp h
    exact hs.gotStream hp hget (by rw [hw]; rfl) he rfl
  · rename_i m u hw hu
    obtain ⟨he, rfl⟩ := Prod.mk.inj hu
    obtain rfl := Option.some_inj.mp h
    refine (hs.setWrUpdater (wrUpdaterOk_of_none rfl)).toWriter ?_
    exact (hs.writer (i, n)).keepMessage (by rw [hw]; rfl) rfl rfl
  · cases h

theorem Inv.step_takeStream (h : s.step net forwards (.takeStream i n) = some s') :
    Inv net config s' := by
  obtain ⟨p, hp, h⟩ := Option.bind_eq_some_iff.mp h
  obtain ⟨io, hget, h⟩ := Option.bind_eq_some_iff.mp h
  split at h
  · rename_i m e u hw hu
    obtain ⟨he, rfl⟩ := Updater.recv_eq_some hu
    obtain rfl := Option.some_inj.mp h
    exact hs.gotStream hp hget (by rw [hw]; rfl) he (Updater.recv_snd_object _)
  · rename_i m e u hw hu
    obtain ⟨he, rfl⟩ := Updater.recv_eq_some hu
    obtain rfl := Option.some_inj.mp h
    exact hs.gotStream hp hget (by rw [hw]; rfl) he (Updater.recv_snd_object _)
  · cases h

/-- A writer opens a connection. -/
theorem Inv.connected {p : Spawned R} {io : IoThreads} {j : ι}
    {m : Tagged ι (Arc SerializedMessage)} (hp : net i = some p) (hget : p.io[n]? = some io)
    (hj : io.recipient = (config j).user) (hvalid : Valid config ⟨s.opened, i, j⟩)
    (hm : m ∈ (s.writer (i, n)).inHand) (again : Bool) :
    Inv net config (s.connected i n j m again) := by
  have hio : HasIo net (i, n) io := ⟨p, hp, hget⟩
  have hfrom := (hs.writer (i, n)).inHand io hio m hm
  have hwriter : WriterOk net config (i, n) (.identifying m ⟨⟨s.opened, i, j⟩, true⟩ again) :=
    writerOk_of_mem hio (by rintro _ ⟨⟩; exact hfrom) (by rintro _ ⟨⟩; exact ⟨rfl, hj⟩)
      (by rintro _ _ _ ⟨⟩; rfl)
  have hconns : BacklogOk config j (s.backlog j ++ [⟨s.opened, i, j⟩]) := by
    intro c hc
    rcases List.mem_append.mp hc with hc | hc
    · exact hs.backlog j c hc
    · rw [List.mem_singleton.mp hc]
      exact ⟨rfl, hvalid⟩
  have hbacklog := (hs.toWriter hwriter).setBacklog hconns
  exact { hbacklog with }

theorem Inv.step_connect (hfam : Mutual forwards hosts config)
    (hroutes : ∀ i p, net i = some p → Routes hosts (config i) p) {j : ι}
    (h : s.step net forwards (.connect i n j) = some s') : Inv net config s' := by
  obtain ⟨p, hp, h⟩ := Option.bind_eq_some_iff.mp h
  obtain ⟨io, hget, h⟩ := Option.bind_eq_some_iff.mp h
  obtain ⟨q, hq, h⟩ := Option.bind_eq_some_iff.mp h
  obtain ⟨hforwards, h⟩ := Option.ite_none_right_eq_some.mp h
  obtain ⟨hj, hvalid⟩ := recipient_of_forwards hfam hroutes hp hget hq hforwards s.opened
  split at h
  · rename_i m hw
    obtain rfl := Option.some_inj.mp h
    exact hs.connected hp hget hj hvalid (by rw [hw]; rfl) false
  · rename_i m hw
    obtain rfl := Option.some_inj.mp h
    exact hs.connected hp hget hj hvalid (by rw [hw]; rfl) true
  · cases h

theorem Inv.step_connectFailed (h : s.step net forwards (.connectFailed i n) = some s') :
    Inv net config s' := by
  simp only [Net.step] at h
  split at h
  · rename_i m hw
    obtain rfl := Option.some_inj.mp h
    exact hs.toWriter ((hs.writer (i, n)).keepMessage (by rw [hw]; rfl) rfl rfl)
  · rename_i m hw
    obtain rfl := Option.some_inj.mp h
    exact hs.toWriter ((hs.writer (i, n)).keepMessage (by rw [hw]; rfl) rfl rfl)
  · cases h

theorem Inv.step_connectFatal (h : s.step net forwards (.connectFatal i n) = some s') :
    Inv net config s' := by
  simp only [Net.step] at h
  split at h
  · obtain rfl := Option.some_inj.mp h
    exact hs.toWriter ((hs.writer (i, n)).of_subset nofun nofun nofun)
  · obtain rfl := Option.some_inj.mp h
    exact hs.toWriter ((hs.writer (i, n)).of_subset nofun nofun nofun)
  · cases h

theorem Inv.step_wake (h : s.step net forwards (.wake i n) = some s') : Inv net config s' := by
  simp only [Net.step] at h
  split at h
  · rename_i m hw
    obtain rfl := Option.some_inj.mp h
    exact hs.toWriter ((hs.writer (i, n)).keepMessage (by rw [hw]; rfl) rfl rfl)
  · cases h

theorem Inv.step_identify (hroutes : ∀ i p, net i = some p → Routes hosts (config i) p)
    (h : s.step net forwards (.identify i n) = some s') : Inv net config s' := by
  obtain ⟨p, hp, h⟩ := Option.bind_eq_some_iff.mp h
  obtain ⟨io, hget, h⟩ := Option.bind_eq_some_iff.mp h
  split at h
  · rename_i m e again hw
    obtain rfl := Option.some_inj.mp h
    have hio : HasIo net (i, n) io := ⟨p, hp, hget⟩
    have hok := hs.writer (i, n)
    have howns := hok.stream io hio e (by rw [hw]; rfl)
    have hhanding : WriterOk net config (i, n) (.handing m e) :=
      hok.of_subset (by rw [hw]; exact fun _ h => h) (by rw [hw]; exact fun _ h => h) nofun
    have hwriter := hs.toWriter hhanding
    -- the writer is on the side that has opened the connection
    have hopener : e.conn.opener = i := by
      have hhere := howns.1
      rwa [End.here, hok.identifying m e again hw, if_pos rfl] at hhere
    have hname : IdentifierOk config e.conn (some io.strParams.user) := by
      rintro _ ⟨⟩
      rw [((hroutes i p hp).params io (List.mem_of_getElem? hget)).1, hopener]
    exact { hwriter with identifier := forall_update hs.identifier hname }
  · cases h

theorem Inv.step_identifyError (h : s.step net forwards (.identifyError i n) = some s') :
    Inv net config s' := by
  simp only [Net.step] at h
  split at h
  · rename_i m e again hw
    obtain ⟨-, h⟩ := Option.ite_none_right_eq_some.mp h
    obtain rfl := Option.some_inj.mp h
    cases again with
    | true =>
      exact hs.toWriter ((hs.writer (i, n)).keepMessage (by rw [hw]; rfl) rfl rfl)
    | false => exact hs.toWriter ((hs.writer (i, n)).of_subset nofun nofun nofun)
  · cases h

theorem Inv.step_handOver (hroutes : ∀ i p, net i = some p → Routes hosts (config i) p)
    (h : s.step net forwards (.handOver i n) = some s') :
    Inv net config s' := by
  obtain ⟨p, hp, h⟩ := Option.bind_eq_some_iff.mp h
  obtain ⟨io, hget, h⟩ := Option.bind_eq_some_iff.mp h
  split at h
  · rename_i m e hw
    obtain rfl := Option.some_inj.mp h
    have hio : HasIo net (i, n) io := ⟨p, hp, hget⟩
    have howns := (hs.writer (i, n)).stream io hio e (by rw [hw]; rfl)
    have hrd := hs.setRdUpdater (rdUpdaterOk_send hroutes hio howns
      (s.rdUpdater (i, io.readerUpdater)))
    exact hrd.toWriter ((hs.writer (i, n)).of_subset (by rw [hw]; exact fun _ h => h)
      (by rw [hw]; exact fun _ h => h) nofun)
  · cases h

theorem Inv.step_write (h : s.step net forwards (.write i n) = some s') : Inv net config s' := by
  obtain ⟨p, hp, h⟩ := Option.bind_eq_some_iff.mp h
  obtain ⟨io, hget, h⟩ := Option.bind_eq_some_iff.mp h
  split at h
  · rename_i m e hw
    obtain rfl := Option.some_inj.mp h
    have hio : HasIo net (i, n) io := ⟨p, hp, hget⟩
    have hok := hs.writer (i, n)
    obtain ⟨hhere, hthere⟩ := hok.stream io hio e (by rw [hw]; rfl)
    have hfrom := hok.inHand io hio m (by rw [hw]; rfl)
    have hlink : LinkOk config e ((s.link e).push m) := by
      intro m' hm'
      rcases List.mem_append.mp hm' with hm' | hm'
      · exact hs.link e m' hm'
      · rwa [List.mem_singleton.mp hm', hhere, ← hthere]
    exact (hs.setLink hlink).toWriter (hok.of_subset nofun (by rw [hw]; exact fun _ h => h) nofun)
  · cases h

theorem Inv.step_writeError (h : s.step net forwards (.writeError i n) = some s') :
    Inv net config s' := by
  simp only [Net.step] at h
  split at h
  · rename_i m e hw
    obtain ⟨-, h⟩ := Option.ite_none_right_eq_some.mp h
    obtain rfl := Option.some_inj.mp h
    exact hs.toWriter ((hs.writer (i, n)).keepMessage (by rw [hw]; rfl) rfl rfl)
  · cases h

/-! ### Listeners -/

theorem Inv.step_accept (h : s.step net forwards (.accept i) = some s') : Inv net config s' := by
  simp only [Net.step] at h
  split at h
  · rename_i c rest hl hb
    obtain rfl := Option.some_inj.mp h
    have hall := hs.backlog i
    rw [hb] at hall
    obtain ⟨⟨hacceptor, hvalid⟩, hrest⟩ := List.forall_mem_cons.mp hall
    exact (hs.setBacklog hrest).toListener ⟨rfl, hacceptor, hvalid⟩
  · cases h

theorem Inv.step_parse (hfam : Mutual forwards hosts config)
    (hroutes : ∀ i p, net i = some p → Routes hosts (config i) p)
    (h : s.step net forwards (.parse i) = some s') : Inv net config s' := by
  obtain ⟨p, hp, h⟩ := Option.bind_eq_some_iff.mp h
  split at h
  · rename_i e hl
    obtain ⟨name, hname, h⟩ := Option.map_eq_some_iff.mp h
    have hok := hs.listener i
    rw [hl] at hok
    obtain ⟨c, opened⟩ := e
    obtain ⟨rfl, rfl, hvalid⟩ := hok
    obtain ⟨n, io, hio, howns, hlookup⟩ := hvalid.exists_updaters hfam hroutes hp
    obtain rfl := hs.identifier c name hname
    rw [hlookup] at h
    rw [← h]
    exact hs.toListener ⟨n, io, hio, howns, rfl⟩
  · cases h

theorem Inv.step_parseError (h : s.step net forwards (.parseError i) = some s') :
    Inv net config s' := by
  simp only [Net.step] at h
  split at h
  · obtain ⟨-, h⟩ := Option.ite_none_right_eq_some.mp h
    obtain rfl := Option.some_inj.mp h
    exact hs.toListener trivial
  · cases h

theorem Inv.step_handRd (hroutes : ∀ i p, net i = some p → Routes hosts (config i) p)
    (h : s.step net forwards (.handRd i) = some s') : Inv net config s' := by
  simp only [Net.step] at h
  split at h
  · rename_i e u hl
    obtain rfl := Option.some_inj.mp h
    have hok := hs.listener i
    rw [hl] at hok
    obtain ⟨n, io, hio, howns, rfl⟩ := hok
    have hrd := hs.setRdUpdater (rdUpdaterOk_send hroutes hio howns
      (s.rdUpdater (i, io.readerUpdater)))
    exact hrd.toListener ⟨n, io, hio, howns, rfl⟩
  · cases h

theorem Inv.step_handWr (hroutes : ∀ i p, net i = some p → Routes hosts (config i) p)
    (h : s.step net forwards (.handWr i) = some s') : Inv net config s' := by
  simp only [Net.step] at h
  split at h
  · rename_i e u hl
    obtain rfl := Option.some_inj.mp h
    have hok := hs.listener i
    rw [hl] at hok
    obtain ⟨n, io, hio, howns, rfl⟩ := hok
    have hwr := hs.setWrUpdater (wrUpdaterOk_send hroutes hio howns
      (s.wrUpdater (i, io.writerUpdater)))
    exact hwr.toListener trivial
  · cases h

/-! ### Readers -/

theorem Inv.step_takeReadHalf (h : s.step net forwards (.takeReadHalf i n) = some s') :
    Inv net config s' := by
  obtain ⟨p, hp, h⟩ := Option.bind_eq_some_iff.mp h
  obtain ⟨io, hget, h⟩ := Option.bind_eq_some_iff.mp h
  split at h
  · rename_i e u hr hu
    obtain ⟨he, rfl⟩ := Updater.recv_eq_some hu
    obtain rfl := Option.some_inj.mp h
    have hio : HasIo net (i, n) io := ⟨p, hp, hget⟩
    have howns := hs.rdUpdater (i, io.readerUpdater) n io hio rfl e he
    refine (hs.setRdUpdater (rdUpdaterOk_of_none (Updater.recv_snd_object _))).toReader ⟨?_, nofun⟩
    rintro io' hio' _ ⟨⟩
    exact hio.eq hio' ▸ howns
  · cases h

theorem Inv.step_read (hfam : Mutual forwards hosts config)
    (hroutes : ∀ i p, net i = some p → Routes hosts (config i) p)
    (h : s.step net forwards (.read i n) = some s') : Inv net config s' := by
  obtain ⟨p, hp, h⟩ := Option.bind_eq_some_iff.mp h
  obtain ⟨io, hget, h⟩ := Option.bind_eq_some_iff.mp h
  split at h
  · rename_i e hr
    obtain ⟨⟨m, q⟩, hq, h⟩ := Option.map_eq_some_iff.mp h
    have hio : HasIo net (i, n) io := ⟨p, hp, hget⟩
    have howns := (hs.reader (i, n)).reading io hio e hr
    have hrest : Inv net config (s.setLink e.other q) := by
      apply hs.setLink
      intro m' hm'
      rw [(Fifo.pop?_eq_some hq).1] at hm'
      exact hs.link e.other m' hm'
    -- what is read has been written by the user at the other end for this one
    have hfrom : From config e.there (config i).user m := by
      have hm := hs.link e.other m (Fifo.mem_log_of_pop? hq)
      rwa [End.there, End.other_other, howns.1] at hm
    obtain ⟨msg, k, hdecode, hlookup, hhanded⟩ := hfrom.exists_channel hfam hroutes hio howns
    simp only [hdecode] at h
    rw [← h, Net.deliver, hlookup]
    dsimp only
    split
    · apply hrest.setInbox
      intro m' hm'
      rcases List.mem_append.mp hm' with hm' | hm'
      · exact hs.inbox (i, k) m' hm'
      · rw [List.mem_singleton.mp hm']
        exact hhanded
    · exact hrest.toReader readerOk_channelClosed
  · cases h

theorem Inv.step_readError (h : s.step net forwards (.readError i n) = some s') :
    Inv net config s' := by
  simp only [Net.step] at h
  split at h
  · obtain ⟨-, h⟩ := Option.ite_none_right_eq_some.mp h
    obtain rfl := Option.some_inj.mp h
    exact hs.toReader readerOk_waiting
  · cases h

theorem Inv.step_disconnect {c : Conn ι} (h : s.step net forwards (.disconnect c) = some s') :
    Inv net config s' := by
  obtain ⟨-, h⟩ := Option.ite_none_right_eq_some.mp h
  obtain rfl := Option.some_inj.mp h
  exact { hs with }

/-! ### Conversations -/

/-- A conversation wakes up for its timer or for a message that it has been handed. -/
theorem Inv.wakeUp {w : Wakeup} (h : s.wakeUp x w = some s') :
    Inv net config s' ∧ ∀ msg, w = .inbound msg → ∃ m, m.val = msg ∧ Handed config x.1 x.2 m := by
  cases w with
  | timer =>
    obtain rfl := Option.some_inj.mp h
    exact ⟨hs, nofun⟩
  | inbound msg =>
    obtain ⟨⟨m, q⟩, hq, h⟩ := Option.bind_eq_some_iff.mp h
    obtain ⟨hm, h⟩ := Option.ite_none_right_eq_some.mp h
    obtain rfl := Option.some_inj.mp h
    constructor
    · apply hs.setInbox
      intro m' hm'
      rw [(Fifo.pop?_eq_some hq).1] at hm'
      exact hs.inbox x m' hm'
    · rintro _ ⟨⟩
      exact ⟨m, hm, hs.inbox x m (Fifo.mem_log_of_pop? hq)⟩

theorem Inv.step_round (hroutes : ∀ i p, net i = some p → Routes hosts (config i) p) {t : Moment}
    (h : s.step net forwards (.round i k t) = some s') : Inv net config s' := by
  obtain ⟨p, hp, h⟩ := Option.bind_eq_some_iff.mp h
  obtain ⟨task, hk, h⟩ := Option.bind_eq_some_iff.mp h
  have hroute := hroutes i p hp
  have hlt : k < (config i).conversations.length :=
    hroute.length_conversations ▸ (List.getElem?_eq_some_iff.mp hk).1
  have hc := List.getElem?_eq_getElem hlt
  set c := (config i).conversations[k]
  rw [Net.round] at h
  split at h
  · cases h
  · rename_i thread _
    obtain ⟨s₁, hs₁, rfl⟩ := Option.map_eq_some_iff.mp h
    rw [(hroute.conversation k task c hk hc).1] at hs₁
    obtain ⟨hinv, hwake⟩ := hs.wakeUp hs₁
    split
    · rename_i panic hmanage
      apply hinv.toConversation
      have hne := ne_unknownName hmanage fun m hm => by
        obtain ⟨m', rfl, c', d, hc', -, -, -, hsender, hmem, -⟩ := hwake m hm
        obtain rfl := Option.some_inj.mp (hc.symm.trans hc')
        rw [hsender]
        obtain ⟨io, hio, hr⟩ := List.mem_map.mp ((hroute.recipients _).mpr
          ⟨c, List.mem_of_getElem? hc, hmem⟩)
        exact ⟨⟨io.writerFromState⟩, (hroute.streams k task c hk hc _ _).mpr
          ⟨hmem, io, hio, hr, rfl⟩⟩
      exact fun heq => hne (ConversationState.panicked.inj heq)
    · rename_i out thread' hmanage
      have hputs : Inv net config (s₁.putAll i k out.puts) := by
        apply hinv.putAll
        intro put hput n io hio hchannel
        exact from_of_mem_puts hroutes hp hk hc hwake hmanage hput hio hchannel
      exact hputs.toConversation nofun

/-- **Every step keeps the invariant.** -/
theorem Inv.step_of_mutual (hfam : Mutual forwards hosts config)
    (hroutes : ∀ i p, net i = some p → Routes hosts (config i) p) {a : NetAction ι}
    (h : s.step net forwards a = some s') : Inv net config s' := by
  cases a with
  | round => exact hs.step_round hroutes h
  | takeMessage => exact hs.step_takeMessage h
  | check => exact hs.step_check h
  | connect => exact hs.step_connect hfam hroutes h
  | connectFailed => exact hs.step_connectFailed h
  | connectFatal => exact hs.step_connectFatal h
  | takeStream => exact hs.step_takeStream h
  | wake => exact hs.step_wake h
  | identify => exact hs.step_identify hroutes h
  | identifyError => exact hs.step_identifyError h
  | handOver => exact hs.step_handOver hroutes h
  | write => exact hs.step_write h
  | writeError => exact hs.step_writeError h
  | accept => exact hs.step_accept h
  | parse => exact hs.step_parse hfam hroutes h
  | parseError => exact hs.step_parseError h
  | handRd => exact hs.step_handRd hroutes h
  | handWr => exact hs.step_handWr hroutes h
  | takeReadHalf => exact hs.step_takeReadHalf h
  | read => exact hs.step_read hfam hroutes h
  | readError => exact hs.step_readError h
  | disconnect => exact hs.step_disconnect h

theorem Inv.step (hfam : ClosedFamily forwards hosts config)
    (hroutes : ∀ i p, net i = some p → Routes hosts (config i) p) {a : NetAction ι}
    (h : s.step net forwards a = some s') : Inv net config s' :=
  hs.step_of_mutual hfam.mutual hroutes h

end

omit [DecidableEq ι] in
/-- The invariant holds before the first message. -/
theorem inv_init (start : ι × ℕ → Instant × R) : Inv net config (Net.init net start) where
  writer x := ⟨fun _ _ => nofun, fun _ _ => nofun, fun _ _ _ => nofun⟩
  outbox x n io _ _ := nofun
  wrUpdater x := wrUpdaterOk_of_none rfl
  rdUpdater x := rdUpdaterOk_of_none rfl
  reader x := readerOk_waiting
  listener i := trivial
  backlog i := nofun
  identifier c := nofun
  link h := nofun
  inbox x := nofun
  conversation x := by
    dsimp only [Net.init]
    split <;> nofun

end

/-! ### Runs -/

/-- No lookup has panicked, and what conversations have been handed is of their group. -/
structure RoutedSafely (config : ι → Config D) (s : Net ι R) : Prop where
  listener : ∀ i name, s.listener i ≠ .panicked name
  reader : ∀ x group, s.reader x ≠ .panicked (.unknownGroup group)
  conversation : ∀ x, s.conversation x ≠ .panicked .unknownName
  inbox : ∀ i k, ∀ m ∈ (s.inbox (i, k)).log, Handed config i k m

theorem Inv.routedSafely {net : ι → Option (Spawned R)} {config : ι → Config D} {s : Net ι R}
    (hs : Inv net config s) : RoutedSafely config s where
  listener i name h := by
    have hok := hs.listener i
    rw [h] at hok
    exact hok
  reader x group := (hs.reader x).knows group
  conversation := hs.conversation
  inbox i k := hs.inbox (i, k)

/-- **Routing among peers is closed.** Where the configurations fit together, the hosts file lacks
nobody, the tables say what the configurations say, and in every run the lookups succeed and
messages are only handed to conversations of their group. -/
theorem peers_routing_closed [DecidableEq ι] {tryInto : D → Except E (Distributions R)}
    {hosts : HostsMap} {config : ι → Config D} {forwards : String → String → Bool}
    (hfam : ClosedFamily forwards hosts config) :
    (∀ i e, processConfig tryInto hosts (config i) = .error e →
      (∃ e', e = .distributions e') ∨ ∃ seconds, e = .retry seconds) ∧
    (∀ i p, spawned tryInto hosts config i = some p → Routes hosts (config i) p) ∧
    ∀ start acts s, (peerNetwork (spawned tryInto hosts config) forwards).run
      (Net.init (spawned tryInto hosts config) start) acts = some s → RoutedSafely config s := by
  have hhosts : ∀ i, (hosts.lookup (config i).user).isSome := by
    intro i
    obtain ⟨address, haddress, -⟩ := hfam.own_address i
    rw [haddress]
    rfl
  have hroutes : ∀ i p, spawned tryInto hosts config i = some p → Routes hosts (config i) p := by
    intro i p hp
    cases hconfig : processConfig tryInto hosts (config i) with
    | error e =>
      rw [spawned, hconfig] at hp
      cases hp
    | ok q =>
      rw [spawned, hconfig] at hp
      obtain rfl := Option.some_inj.mp hp
      exact processConfig_routes (hfam.groups_nodup i) hconfig
  refine ⟨?_, hroutes, ?_⟩
  · intro i e he
    refine processConfig_eq_error (hhosts i) ?_ he
    intro c hc r hr
    obtain ⟨-, j, rfl, -⟩ := (hfam.recipients i c hc r).mp hr
    exact hhosts j
  · intro start acts s hrun
    have hinv : Inv (spawned tryInto hosts config) config s :=
      System.invariant (fun s a s' hs h => hs.step hfam hroutes h) (inv_init start) hrun
    exact hinv.routedSafely

/-! ### Two peers -/

def pairName (i : Bool) : String := if i then "A" else "B"

/-- The distributions of each of two peers, who are always idle for three seconds. -/
def pairDists : Distributions Unit where
  m _ := (⟨1, one_le_maxBlocksInBody⟩, ())
  i _ := (3, ())
  w _ := (5, ())
  aS _ := (1, ())
  aR _ := (1, ())
  s _ := (false, ())
  r _ := (false, ())

def pairConfig (i : Bool) : Config (Distributions Unit) where
  user := pairName i
  socks := none
  listen := none
  bootstrap := 0
  retry := 1
  distributions := pairDists
  conversations := [⟨"g", [pairName !i], none, none, none⟩]

/-- A name is the address of the user. -/
def pairHosts : HostsMap := ((∅ : HostsMap).insert "A" "A").insert "B" "B"

/-- The first peer connects to the second and sends one message. -/
def pairRun : List (NetAction Bool) :=
  [.round true 0 ⟨.timer, 3, 3, 3, fun _ => true⟩, .takeMessage true 0, .check true 0,
    .connect true 0 false, .identify true 0, .handOver true 0, .write true 0, .accept false,
    .parse false, .handRd false, .takeReadHalf false 0, .read false 0]

theorem pairName_injective : Function.Injective pairName := by
  intro i j
  revert i j
  decide

theorem closedFamily_pair : ClosedFamily (fun target address => target == address) pairHosts
    pairConfig where
  user_injective := pairName_injective
  groups_nodup i := List.nodup_singleton _
  own_address i := by
    refine ⟨pairName i, by cases i <;> rfl, fun j listening hlistening hreach => ?_⟩
    have hj : listenAddress pairHosts (pairConfig j) = some (pairName j) := by cases j <;> rfl
    obtain rfl := Option.some_inj.mp (hj.symm.trans hlistening)
    exact pairName_injective (eq_of_beq hreach).symm
  recipients i c hc r := by
    obtain rfl := List.mem_singleton.mp hc
    rw [List.mem_singleton]
    constructor
    · rintro rfl
      refine ⟨fun heq => ?_, !i, rfl, _, List.mem_singleton_self _, rfl⟩
      exact Bool.not_ne_self i (pairName_injective heq)
    · rintro ⟨hne, j, rfl, -⟩
      have hji : j ≠ i := fun heq => hne (congrArg pairName heq)
      rw [Bool.eq_not_of_ne hji]
      rfl

/-- The second peer is handed the message of the first. -/
theorem pair_routedSafely : ∃ s,
    (peerNetwork (spawned (E := Unit) .ok pairHosts pairConfig) fun target address =>
      target == address).run
        (.init (spawned (E := Unit) .ok pairHosts pairConfig) fun _ => (0, ())) pairRun = some s ∧
    (s.inbox (false, 0)).log.length = 1 ∧ RoutedSafely pairConfig s := by
  refine ⟨_, rfl, rfl, ?_⟩
  exact (peers_routing_closed closedFamily_pair).2.2 (fun _ => (0, ())) pairRun _
    (rfl : (peerNetwork (spawned (E := Unit) .ok pairHosts pairConfig) _).run _ _ = _)

end SignalSim.Mgen.Peer
