import SignalSim.Mgen.Server.Phase

/-!
# Fan-out

When all clients register before the end of the registration phase and send what their
connection admits, every message a receiver reads goes exactly once on the channel of every
member it is for, and on no other channel.

The accounting is per connection and channel: what the receiver of the connection has put on
the channel, followed by what it is about to put there, is what it has read for the client of
the channel.

## Main definitions

* `MessageHeader.IsFor` — a message of one client is for another one
* `Server.forwarded` — what a receiver has put, or is about to put, on a channel
* `Server.Orderly`, `Server.Registering` — the condition on the steps of a run
* `Server.FanOut` — the invariant

## Main results

* `Server.forwarded_cases` — what a step adds to the two sides
* `Server.fanOut_step` — the steps that meet the condition preserve the invariant
* `Server.fan_out` — exactly-once delivery in order
-/

namespace SignalSim.Mgen

open Function (update update_self update_of_ne)

/-- A message that the client of `h` sends is for the client of `k`: a message with a size is
for the other members of the group, a receipt for the member it names. -/
def MessageHeader.IsFor (m : MessageHeader) (h k : Handshake) : Prop :=
  k.group = h.group ∧
    match m.body with
    | .size _ => k.sender ≠ h.sender
    | .receipt => k.sender = m.group

instance (m : MessageHeader) (h k : Handshake) : Decidable (m.IsFor h k) :=
  match m with
  | ⟨_, _, _, .size _⟩ | ⟨_, _, _, .receipt⟩ => inferInstanceAs (Decidable (_ ∧ _))

/-- The messages that were received on a connection. -/
def fromConnection (i : ℕ) (l : List (ℕ × MessageHeader)) : List MessageHeader :=
  l.filterMap fun e => if e.1 = i then some e.2 else none

@[simp] theorem fromConnection_append (i : ℕ) (l l' : List (ℕ × MessageHeader)) :
    fromConnection i (l ++ l') = fromConnection i l ++ fromConnection i l' :=
  List.filterMap_append

@[simp] theorem fromConnection_nil (i : ℕ) : fromConnection i [] = [] := rfl

theorem fromConnection_singleton (i j : ℕ) (m : MessageHeader) :
    fromConnection i [(j, m)] = if j = i then [m] else [] := by
  by_cases hj : j = i <;> simp [fromConnection, hj]

/-- The message that the receiver is about to put on a channel. -/
def ReceiverTask.inHand (c : ℕ) : ReceiverTask → List MessageHeader
  | forwarding _ m cs => if c ∈ cs then [m] else []
  | _ => []

/-- The receiver waits for the phase notification. -/
def ReceiverTask.Waits : ReceiverTask → Prop
  | waiting _ => True
  | _ => False

instance (r : ReceiverTask) : Decidable r.Waits :=
  match r with
  | .waiting _ => .isTrue trivial
  | .absent | .spawned _ | .woken _ | .receiving _ | .forwarding .. | .ended | .panicked =>
    .isFalse id

namespace Server

variable {s t : Server} {a : ServerAction} {i c : ℕ} {m : MessageHeader}

/-- What the receiver of a connection has put, or is about to put, on a channel. -/
def forwarded (s : Server) (i c : ℕ) : List MessageHeader :=
  fromConnection i (s.channel c).log ++ (s.receiver i).inHand c

/-- A message that the client of `h` may send: with the sender and group of its connection,
and if it is a receipt, with the name of a registered member. -/
def Legit (s : Server) (h : Handshake) (m : MessageHeader) : Prop :=
  m.sender = h.sender ∧
    match m.body with
    | .size _ => m.group = h.group
    | .receipt => (s.storedChannel ⟨m.group, h.group⟩).isSome

instance (s : Server) (h : Handshake) (m : MessageHeader) : Decidable (s.Legit h m) :=
  match m with
  | ⟨_, _, _, .size _⟩ | ⟨_, _, _, .receipt⟩ => inferInstanceAs (Decidable (_ ∧ _))

/-- Every client completes one handshake, its receiver has reached its wait when the
registration phase ends, and it sends legitimate messages. -/
def Orderly (s : Server) : ServerAction → Prop
  | .handshake _ h => s.phaseOver = false ∧ ∀ j < s.accepted, s.handshake j ≠ some h
  | .endRegistration => ∀ j < s.accepted, s.handshake j ≠ none → (s.receiver j).Waits
  | .read i m => ∀ h ∈ s.handshake i, s.Legit h m
  | .readMalformed .. => False
  | _ => True

instance (s : Server) (a : ServerAction) : Decidable (s.Orderly a) :=
  match a with
  | .handshake .. => inferInstanceAs (Decidable (_ ∧ ∀ j < _, _))
  | .endRegistration => inferInstanceAs (Decidable (∀ j < _, _ → _))
  | .read .. => inferInstanceAs (Decidable (∀ h ∈ _, _))
  | .readMalformed .. => .isFalse id
  | .accept | .refuse _ | .handle _ | .poll _ | .snapshot .. | .readError _ | .put _
  | .terminate _ | .takeSocket _ | .takeMessage _ | .channelClosed _ | .written _
  | .writeError _ | .disconnect _ => .isTrue trivial

/-- The same, with less asked for at the end of the registration phase: every client is in the
table of its group. -/
def Registering (s : Server) : ServerAction → Prop
  | .handshake _ h => s.phaseOver = false ∧ ∀ j < s.accepted, s.handshake j ≠ some h
  | .endRegistration => ∀ j < s.accepted, s.handshake j ≠ none → (s.handler j).Inserted
  | .read i m => ∀ h ∈ s.handshake i, s.Legit h m
  | .readMalformed .. => False
  | _ => True

/-- The invariant of the runs in which everybody registers in time. -/
structure FanOut (s : Server) : Prop where
  distinct : ∀ i j h, s.handshake i = some h → s.handshake j = some h → i = j
  before : s.phaseOver = false → ∀ i, ¬ (s.receiver i).PastWait ∧ s.received i = [] ∧
    (s.channel i).log = []
  after : s.phaseOver = true → ∀ i h, s.handshake i = some h → (s.handler i).Inserted
  current : s.CopiesCurrent
  running : ∀ i, s.receiver i ≠ .panicked
  nodup : ∀ i db m cs, s.receiver i = .forwarding db m cs → cs.Nodup
  silent : ∀ c, (∀ k, s.storedChannel k ≠ some c) → (s.channel c).log = []
  origin : ∀ c e, e ∈ (s.channel c).log → ∃ h, s.handshake e.1 = some h
  forwarded : ∀ i h k c, s.handshake i = some h → s.storedChannel k = some c →
    s.forwarded i c = (s.received i).filter (·.IsFor h k)

/-! ### What a receiver forwards -/

theorem log_takeMessage {k j : ℕ} {q : Fifo (ℕ × MessageHeader)}
    (hq : (s.channel i).pop? = some ((j, m), q)) (c : ℕ) :
    ((s.takeMessage i k m q).channel c).log = (s.channel c).log := by
  by_cases hc : c = i
  · subst hc
    simp [(Fifo.pop?_eq_some hq).1]
  · simp [hc]

theorem inHand_of_atAwait {r : ReceiverTask} (hr : r.AtAwait = true) : r.inHand c = [] := by
  cases r <;> first | rfl | cases hr

/-- What a step adds to the messages a receiver has read, it adds to those the receiver has put
or is about to put on the channels they are for. -/
theorem forwarded_cases (hs : s.Wf)
    (hnd : ∀ i db m cs, s.receiver i = .forwarding db m cs → cs.Nodup)
    (hok : ∀ i m h db, a = .read i m → s.receiver i = .receiving db → s.handshake i = some h →
      db.Admits h m) (h : Step s a t) (i c : ℕ) :
    (t.received i = s.received i ∧ t.forwarded i c = s.forwarded i c) ∨
      ∃ m hk db, s.handshake i = some hk ∧ s.receiver i = .receiving db ∧ db.Admits hk m ∧
        t.received i = s.received i ++ [m] ∧
        t.forwarded i c = s.forwarded i c ++ if c ∈ db.targets hk.sender m then [m] else [] := by
  cases h with
  | @read j db hk m hj hh =>
    by_cases hij : i = j
    · subst hij
      have hm := hok i m hk db rfl hj hh
      refine .inr ⟨m, hk, db, hh, hj, hm, by simp, ?_⟩
      rw [dispatch_of_own hm]
      by_cases hT : db.targets hk.sender m = []
      · simp [forwarded, hT, hj, ReceiverTask.inHand]
      · simp [forwarded, hT, hj, ReceiverTask.inHand]
    · exact .inl (by simp [forwarded, hij])
  | @put j db m d cs hj hd =>
    refine .inl ⟨rfl, ?_⟩
    unfold forwarded
    rw [log_forward, fromConnection_append]
    by_cases hij : i = j
    · subst hij
      -- a channel is not used twice for one message
      have hdc := (List.nodup_cons.mp (hnd i db m _ hj)).1
      by_cases hcd : c = d
      · subst hcd
        by_cases hcs : cs = [] <;>
          simp [hj, hcs, hdc, ReceiverTask.inHand, fromConnection_singleton]
      · by_cases hcs : cs = [] <;> simp [hj, hcs, hcd, ReceiverTask.inHand]
    · by_cases hcd : c = d <;> simp [hij, hcd, Ne.symm hij, fromConnection_singleton]
  | @putFailed j db m d cs hj hd =>
    exact absurd hd (hs.running_of_forwarding hj List.mem_cons_self)
  | takeMessage _ hq => exact .inl ⟨rfl, by simp only [forwarded, log_takeMessage hq]; rfl⟩
  | endRegistration _ =>
    refine .inl ⟨rfl, ?_⟩
    cases hr : s.receiver i <;> simp [forwarded, hr, ReceiverTask.wake, ReceiverTask.inHand]
  | @respawn j _ _ _ hj _ | @spawnTasks j _ _ hj =>
    refine .inl ⟨rfl, ?_⟩
    by_cases hij : i = j
    · subst hij
      have hc := hs.tasks.conn i
      rw [ConnOk, hj] at hc
      simp [forwarded, hc.2.1, ReceiverTask.inHand]
    · simp [forwarded, hij]
  | @poll j _ hj | @snapshot j _ _ hj _ | @readError j _ hj _ | @readMalformed j _ _ hj _ =>
    refine .inl ⟨rfl, ?_⟩
    by_cases hij : i = j
    · subst hij
      simp [forwarded, hj, ReceiverTask.inHand]
    · simp [forwarded, hij]
  | @terminate j _ hj =>
    refine .inl ⟨rfl, ?_⟩
    by_cases hij : i = j
    · subst hij
      have hended : ReceiverTask.ended.inHand c = [] := rfl
      simp [forwarded, inHand_of_atAwait hj, hended]
    · simp [forwarded, hij]
  | _ => exact .inl ⟨rfl, rfl⟩

/-! ### The invariant -/

/-- A channel grows when a receiver puts a message on it. -/
theorem log_cases (h : Step s a t) (c : ℕ) :
    (t.channel c).log = (s.channel c).log ∨
      ∃ i db m cs, a = .put i ∧ s.receiver i = .forwarding db m (c :: cs) ∧
        (t.channel c).log = (s.channel c).log ++ [(i, m)] := by
  cases h with
  | @put j db m d cs hj _ =>
    by_cases hcd : c = d
    · subst hcd
      exact .inr ⟨j, db, m, cs, rfl, hj, by simp⟩
    · exact .inl (by simp [hcd])
  | takeMessage _ hq => exact .inl (log_takeMessage hq c)
  | _ => exact .inl rfl

theorem received_cases (h : Step s a t) (i : ℕ) :
    t.received i = s.received i ∨ ∃ db m, a = .read i m ∧ s.receiver i = .receiving db := by
  cases h with
  | @read j db _ m hj _ =>
    by_cases hij : i = j
    · subst hij
      exact .inr ⟨db, m, rfl, hj⟩
    · exact .inl (by simp [hij])
  | _ => exact .inl rfl

theorem received_read (h : Step s (.read i m) t) : t.received i = s.received i ++ [m] := by
  cases h
  simp

/-- The channels a message is for, in terms of the tables. -/
theorem mem_targets_iff (hs : s.Wf) (hK : s.CopiesCurrent) {h k : Handshake} {db : GroupSnds}
    (hi : s.handshake i = some h) (hdb : (s.receiver i).db? = some db)
    (hk : s.storedChannel k = some c) : c ∈ db.targets h.sender m ↔ m.IsFor h k := by
  have hcopy := hK i h db hi hdb
  -- a channel is stored for one client only
  have huniq : ∀ r, db.lookup r = some c ↔ k.group = h.group ∧ k.sender = r := by
    intro r
    rw [hcopy r]
    constructor
    · intro hr
      have hkr := (handshake_of_stored hs hk).symm.trans (handshake_of_stored hs hr)
      cases Option.some_inj.mp hkr
      exact ⟨rfl, rfl⟩
    · rintro ⟨hg, rfl⟩
      rw [← hg]
      exact hk
  cases hb : m.body with
  | size _ =>
    simp only [GroupSnds.targets, MessageHeader.IsFor, hb, GroupSnds.messageChannels,
      List.mem_map, List.mem_filter]
    constructor
    · rintro ⟨e, ⟨he, hne⟩, rfl⟩
      obtain ⟨hg, hr⟩ := (huniq e.1).mp (AList.mem_lookup_iff.mpr he)
      exact ⟨hg, hr ▸ by simpa using hne⟩
    · rintro ⟨hg, hne⟩
      exact ⟨⟨k.sender, c⟩, ⟨AList.mem_lookup_iff.mp ((huniq k.sender).mpr ⟨hg, rfl⟩),
        by simpa using hne⟩, rfl⟩
  | receipt =>
    simp only [GroupSnds.targets, MessageHeader.IsFor, hb, Option.mem_toList]
    exact huniq m.group

theorem nodup_targets (hs : s.Wf) {db : GroupSnds} (hdb : (s.receiver i).db? = some db)
    (sender : ID) : (db.targets sender m).Nodup := by
  cases hb : m.body with
  | size _ =>
    simp only [GroupSnds.targets, hb, GroupSnds.messageChannels]
    refine List.Nodup.map_on ?_ (db.nodupKeys.nodup.filter _)
    intro e he f hf hef
    -- one channel cannot lead to two members, whose handshakes would be the same
    have hee := AList.mem_lookup_iff.mpr (List.mem_of_mem_filter he)
    have hff := AList.mem_lookup_iff.mpr (List.mem_of_mem_filter hf)
    obtain ⟨h, hi, hc, -⟩ := hs.tables.copy i db _ _ hdb hee
    obtain ⟨h', hi', hc', -⟩ := hs.tables.copy i db _ _ hdb hff
    rw [← hef, hc, Option.some_inj, Handshake.mk.injEq] at hc'
    exact Sigma.ext hc'.1 (heq_of_eq hef)
  | receipt =>
    simp only [GroupSnds.targets, hb]
    cases db.lookup m.group <;> simp

theorem admits_of_legit (hK : s.CopiesCurrent) {h : Handshake} {db : GroupSnds}
    (hi : s.handshake i = some h) (hdb : (s.receiver i).db? = some db) (hm : s.Legit h m) :
    db.Admits h m := by
  refine ⟨hm.1, ?_⟩
  have hm := hm.2
  cases hb : m.body with
  | size _ => simpa only [hb] using hm
  | receipt =>
    simp only [hb] at hm ⊢
    rw [hK i h db hi hdb]
    exact hm

theorem not_inserted_of_joins? {p : HandshakeTask} {h : Handshake} (hp : p.joins? = some h) :
    ¬ p.Inserted := by
  cases p <;> simp_all [HandshakeTask.joins?, HandshakeTask.Inserted]

theorem arg?_of_joins? {p : HandshakeTask} {h : Handshake} (hp : p.joins? = some h) :
    p.arg? = some h := by
  cases p <;> simp_all [HandshakeTask.joins?, HandshakeTask.arg?]

/-- Nobody enters a table once the registration phase has ended, so never after it has been
cloned. -/
theorem FanOut.joinsFresh (hs : s.Wf) (hF : s.FanOut) (a : ServerAction) : s.JoinsFresh a := by
  cases a with
  | handle i =>
    intro h hj j _ k _ _
    cases hp : s.phaseOver with
    | true =>
      have hh := hs.tasks.handshake_of_arg (arg?_of_joins? hj)
      exact absurd (hF.after hp i h hh) (not_inserted_of_joins? hj)
    | false =>
      -- there is no copy yet
      have hw := (hF.before hp j).1
      cases hr : s.receiver j <;> simp_all [ReceiverTask.db?, ReceiverTask.PastWait]
  | _ => trivial

/-- Before the end of the registration phase nothing is read or forwarded. -/
theorem FanOut.before_step (hs : s.Wf) (hF : s.FanOut) (h : Step s a t)
    (hp : t.phaseOver = false) (i : ℕ) :
    ¬ (t.receiver i).PastWait ∧ t.received i = [] ∧ (t.channel i).log = [] := by
  have hps : s.phaseOver = false := by
    cases h with
    | endRegistration _ => cases hp
    | _ => exact hp
  obtain ⟨hw, hr, hl⟩ := hF.before hps i
  refine ⟨?_, ?_, ?_⟩
  · rcases receiver_cases hs.tasks h i with he | ⟨p, q, hp', hq, hn⟩
    · rwa [he]
    · rw [hp'] at hw
      rw [hq]
      cases hn with
      | wake =>
        cases h with
        | endRegistration _ => cases hp
      | respawn | spawn | poll | readError | readMalformed | putFailed | terminate => exact id
      | _ => exact absurd trivial hw
  · rcases received_cases h i with he | ⟨db, m, -, hi⟩
    · rw [he, hr]
    · rw [hi] at hw
      exact absurd trivial hw
  · rcases log_cases h i with he | ⟨j, db, m, cs, -, hj, -⟩
    · rw [he, hl]
    · have hwj := (hF.before hps j).1
      rw [hj] at hwj
      exact absurd trivial hwj

/-- Once the registration phase has ended, the tables do not change any more. -/
theorem FanOut.stored_of_phaseOver (hs : s.Wf) (hF : s.FanOut) (hp : s.phaseOver = true)
    (h : Step s a t) (k : Handshake) : t.storedChannel k = s.storedChannel k := by
  rcases storedChannel_next hs h k with he | ⟨i, -, hj⟩
  · exact he
  · have hh := hs.tasks.handshake_of_arg (arg?_of_joins? hj)
    exact absurd (hF.after hp i k hh) (not_inserted_of_joins? hj)

theorem FanOut.stored_of_endRegistration (h : Step s .endRegistration t) (k : Handshake) :
    t.storedChannel k = s.storedChannel k := by
  cases h with
  | endRegistration _ => rfl

/-- After the end of the phase both handshakes and tables are what they were. -/
theorem FanOut.kept_of_phaseOver (hs : s.Wf) (hF : s.FanOut) (hC : s.Registering a)
    (h : Step s a t) (hp : t.phaseOver = true) :
    (∀ i hk, t.handshake i = some hk → s.handshake i = some hk) ∧
      ∀ k, t.storedChannel k = s.storedChannel k := by
  rcases phaseOver_cases h hp with hps | rfl
  · refine ⟨fun i hk hi => ?_, hF.stored_of_phaseOver hs hps h⟩
    rcases handshake_cases h hi with hi | rfl
    · exact hi
    · cases hps.symm.trans hC.1
  · refine ⟨fun i hk hi => ?_, FanOut.stored_of_endRegistration h⟩
    rcases handshake_cases h hi with hi | ha
    · exact hi
    · cases ha

theorem fanOut_step (hs : s.Wf) (hF : s.FanOut) (hC : s.Registering a) (h : Step s a t) :
    t.FanOut := by
  have hadm : ∀ i m hk db, a = .read i m → s.receiver i = .receiving db →
      s.handshake i = some hk → db.Admits hk m := by
    rintro i m hk db rfl hi hh
    exact admits_of_legit hF.current hh (by rw [hi]; rfl) (hC hk hh)
  have hbefore := fun hp => hF.before_step hs h hp
  have hcur := copiesCurrent_step hs hF.current (hF.joinsFresh hs a) h
  have hafter := fun hp => hF.kept_of_phaseOver hs hC h hp
  constructor
  case distinct =>
    intro i j hk hi hj
    -- a new handshake is not one that was there
    have hnew : ∀ {i j}, a = .handshake i hk → s.handshake j = some hk → False := by
      rintro i j rfl hj
      exact hC.2 j (hs.tasks.lt_of_handshake hj) hj
    rcases handshake_cases h hi with hi | ha <;> rcases handshake_cases h hj with hj | ha'
    · exact hF.distinct i j hk hi hj
    · exact (hnew ha' hi).elim
    · exact (hnew ha hj).elim
    · rw [ha] at ha'
      cases ha'
      rfl
  case before => exact hbefore
  case after =>
    intro hp i hk hi
    have hi := (hafter hp).1 i hk hi
    rcases phaseOver_cases h hp with hps | rfl
    · exact inserted_mono hs.tasks h (hF.after hps i hk hi)
    · exact inserted_mono hs.tasks h (hC i (hs.tasks.lt_of_handshake hi) (by simp [hi]))
  case current => exact hcur
  case running =>
    intro i hi
    rcases receiver_cases hs.tasks h i with he | ⟨p, q, hp, hq, hn⟩
    · exact hF.running i (he ▸ hi)
    · rw [hi] at hq
      cases hn with
      | @read hk db m hh =>
        rw [dispatch_of_own (hadm i m hk db rfl hp hh)] at hq
        split at hq <;> cases hq
      | readMalformed => exact hC
      | @putFailed db m c cs hc => exact hs.running_of_forwarding hp List.mem_cons_self hc
      | _ => cases hq
  case nodup =>
    intro i db m cs hi
    rcases forwarding_cases hs.tasks h hi with hi | ⟨-, c, hi⟩ | ⟨hk, hr, hh, rfl, hd⟩
    · exact hF.nodup i db m cs hi
    · exact (List.nodup_cons.mp (hF.nodup i db m _ hi)).2
    · rw [dispatch_of_own (hadm i m hk db rfl hr hh)] at hd
      split at hd
      · cases hd
      · cases hd
        exact nodup_targets (i := i) hs (by rw [hr]; rfl) hk.sender
  case silent =>
    intro c hc
    cases hp : t.phaseOver with
    | false => exact (hbefore hp c).2.2
    | true =>
      have hcs : ∀ k, s.storedChannel k ≠ some c := fun k => (hafter hp).2 k ▸ hc k
      rcases log_cases h c with he | ⟨i, db, m, cs, -, hi, -⟩
      · rw [he, hF.silent c hcs]
      · -- the copy the channel is taken from is the table
        obtain ⟨hk, hh⟩ := hs.tasks.exists_handshake (i := i) (.inl (by simp [hi]))
        have hmem := (hs.tables.rest i db m _ hi).2 c List.mem_cons_self
        obtain ⟨r, hr⟩ := mem_channels.mp hmem
        rw [hF.current i hk db hh (by rw [hi]; rfl) r] at hr
        exact absurd hr (hcs _)
  case origin =>
    intro c e he
    have hmono : (∃ hk, s.handshake e.1 = some hk) → ∃ hk, t.handshake e.1 = some hk :=
      fun ⟨hk, hh⟩ => ⟨hk, handshake_mono hs.tasks h hh⟩
    rcases log_cases h c with hl | ⟨i, db, m, cs, -, hi, hl⟩
    · exact hmono (hF.origin c e (hl ▸ he))
    · rw [hl, List.mem_append, List.mem_singleton] at he
      rcases he with he | rfl
      · exact hmono (hF.origin c e he)
      · exact hmono (hs.tasks.exists_handshake (i := i) (.inl (by simp [hi])))
  case forwarded =>
    intro i hk k c hi hc
    cases hp : t.phaseOver with
    | false =>
      -- nothing has been read, and nothing forwarded
      obtain ⟨hw, hr, -⟩ := hbefore hp i
      have hin : (t.receiver i).inHand c = [] := by
        cases hr : t.receiver i <;> simp_all [ReceiverTask.PastWait, ReceiverTask.inHand]
      simp [forwarded, (hbefore hp c).2.2, hr, hin]
    | true =>
      have hi := (hafter hp).1 i hk hi
      have hc := (hafter hp).2 k ▸ hc
      have hF' := hF.forwarded i hk k c hi hc
      obtain ⟨hr, hf⟩ | ⟨m, hk', db, hh, hrec, hm, hr, hf⟩ :=
        forwarded_cases hs hF.nodup hadm h i c
      · rw [hr, hf, hF']
      · cases hi.symm.trans hh
        rw [hr, hf, hF', List.filter_append]
        congr 1
        have hiff := mem_targets_iff (m := m) hs hF.current hi (by rw [hrec]; rfl) hc
        by_cases hT : m.IsFor hk k
        · simp [hT, hiff.mpr hT]
        · simp [hT, mt hiff.mp hT]

theorem FanOut.init : Server.init.FanOut where
  distinct i j h hi := by cases hi
  before _ i := ⟨id, rfl, rfl⟩
  after hp := by cases hp
  current := .init
  running i hi := by cases hi
  nodup i db m cs hi := by cases hi
  silent _ _ := rfl
  origin c e he := by cases he
  forwarded i h k c hi := by cases hi

/-- A client whose receiver waits is in the table of its group. -/
theorem registering_of_orderly (hs : s.Wf) (hF : s.FanOut) (hC : s.Orderly a) :
    s.Registering a := by
  cases a with
  | endRegistration =>
    intro j hj hh
    have hw := hC j hj hh
    have hc := hs.tasks.conn j
    cases hj' : s.handler j with
    | spawn _ _ | publish _ | finished => trivial
    | handOver h u =>
      -- only the sender of another connection of the same client could be handed over to
      obtain ⟨⟨h, hh, hu⟩, hsnd⟩ := hs.sockets.updater j u (by rw [hj']; rfl)
      rw [ConnOk, hj'] at hc
      rw [← hF.distinct j u h hh hu] at hsnd
      exact absurd hc.2 hsnd
    | _ =>
      rw [ConnOk, hj'] at hc
      rw [hc.2.1] at hw
      exact hw.elim
  | _ => exact hC

theorem fanOut_of_orderly {as : List ServerAction} (hC : serverSystem.Along Orderly .init as)
    (hrun : serverSystem.run .init as = some t) : t.Wf ∧ t.FanOut :=
  System.invariant_along (I := fun s => s.Wf ∧ s.FanOut)
    (fun _ _ _ hs hC h => ⟨wf_step hs.1 (step_cases h),
      fanOut_step hs.1 hs.2 (registering_of_orderly hs.1 hs.2 hC) (step_cases h)⟩)
    ⟨.init, .init⟩ hC hrun

/-- **Exactly-once fan-out in order.** In an orderly run, what the receiver of a connection
has put, or is about to put, on the channel of a member is what it has read for that member,
one by one and in order; what the member's sender has taken from there is a prefix of it; and
there is nothing on any other channel. -/
theorem fan_out {as : List ServerAction} (hC : serverSystem.Along Orderly .init as)
    (hrun : serverSystem.run .init as = some t) {h : Handshake} (hi : t.handshake i = some h) :
    (∀ k c, t.storedChannel k = some c →
      fromConnection i (t.channel c).log ++ (t.receiver i).inHand c =
        (t.received i).filter (·.IsFor h k) ∧
      fromConnection i (t.channel c).received <+: (t.received i).filter (·.IsFor h k)) ∧
    ∀ c, (∀ k, t.storedChannel k ≠ some c) → (t.channel c).log = [] := by
  obtain ⟨-, hF⟩ := fanOut_of_orderly hC hrun
  refine ⟨fun k c hc => ⟨hF.forwarded i h k c hi hc, ?_⟩, hF.silent⟩
  rw [← hF.forwarded i h k c hi hc]
  have hlog : fromConnection i (t.channel c).received <+: fromConnection i (t.channel c).log :=
    (t.channel c).isPrefix_received.filterMap _
  exact hlog.trans (List.prefix_append ..)

/-- Two clients of a group register, the first sends a message and the second answers with a
receipt. -/
def exchange : List ServerAction :=
  let db := ((∅ : GroupSnds).insert "a" 0).insert "b" 1
  [.accept, .accept, .handshake 0 ⟨"a", "g"⟩, .handle 0, .handle 0, .handle 0, .handle 0,
    .handshake 1 ⟨"b", "g"⟩, .handle 1, .handle 1, .handle 1, .handle 1, .handle 1, .handle 0,
    .handle 0, .poll 1, .poll 0, .endRegistration, .snapshot 0 db, .snapshot 1 db,
    .read 0 ⟨"a", "g", 7, .size ⟨100, by decide⟩⟩, .put 0, .takeSocket 1, .takeMessage 1,
    .written 1, .read 1 ⟨"b", "a", 7, .receipt⟩, .put 1, .takeSocket 0, .takeMessage 0]

theorem fan_out_exchange : ∃ t, serverSystem.run .init exchange = some t ∧
    fromConnection 0 (t.channel 1).received = [⟨"a", "g", 7, .size ⟨100, by decide⟩⟩] ∧
    fromConnection 0 (t.channel 1).received <+:
      (t.received 0).filter (·.IsFor ⟨"a", "g"⟩ ⟨"b", "g"⟩) := by
  have hrun : ((serverSystem.run .init exchange).map fun s =>
      (s.handshake 0, s.storedChannel ⟨"b", "g"⟩, fromConnection 0 (s.channel 1).received)) =
      some (some ⟨"a", "g"⟩, some 1, [⟨"a", "g", 7, .size ⟨100, by decide⟩⟩]) := by
    rfl
  obtain ⟨t, ht, hobs⟩ := Option.map_eq_some_iff.mp hrun
  simp only [Prod.mk.injEq] at hobs
  exact ⟨t, ht, hobs.2.2, ((fan_out (by decide +kernel) ht hobs.1).1 _ _ hobs.2.1).2⟩

end Server

end SignalSim.Mgen
