import SignalSim.Mgen.Server.FanOut
import SignalSim.Mgen.Server.Senders

/-!
# Isolation

Clients may register late or twice, send anything and break off, and the server keeps to the
following. What a receiver puts on a channel it has read from its own client, for the client
of the channel, who is another member of the same group or the one a receipt names. Nothing is
put there more often than it was read, or in another order. A receiver whose client sends
anything else panics, and a sender panics only when another connection of its client has taken
its place.

## Main definitions

* `MessageHeader.MayReach` — what the client of one connection may be sent by that of another
* `Server.Isolated` — the invariant
* `Server.ReadsAdmitted` — a receiver reads a message that its copy of the table admits

## Main results

* `Server.isolated_of_run` — the invariant holds in every reachable state
* `Server.isolation` — what is on a channel, and what its sender has written where
* `Server.receiversRun_iff` — the runs in which no receiver panics
* `Server.superseded_of_panicked` — what has become of the client of a panicked sender
-/

namespace SignalSim.Mgen

open Function (update update_self update_of_ne)

/-- A message that the client of `h` has sent under its own name, and with a size to its own
group, and that is for the client of `k`. -/
def MessageHeader.MayReach (m : MessageHeader) (h k : Handshake) : Prop :=
  m.IsFor h k ∧ m.sender = h.sender ∧
    match m.body with
    | .size _ => m.group = h.group
    | .receipt => True

instance (m : MessageHeader) (h k : Handshake) : Decidable (m.MayReach h k) :=
  match m with
  | ⟨_, _, _, .size _⟩ | ⟨_, _, _, .receipt⟩ => inferInstanceAs (Decidable (_ ∧ _ ∧ _))

/-- A receiver panics over everything that its table does not admit. -/
theorem Server.dispatch_of_not_admits {db : GroupSnds} {h : Handshake} {m : MessageHeader}
    (hm : ¬ db.Admits h m) : Server.dispatch h.sender h.group db m = .panicked := by
  by_cases hs : m.sender = h.sender
  · cases hb : m.body with
    | size n =>
      have hg : m.group ≠ h.group := fun hg => hm ⟨hs, by simpa only [hb] using hg⟩
      simp only [Server.dispatch, hb, ne_eq, hs, hg, not_true_eq_false, not_false_eq_true,
        if_false, if_true]
    | receipt =>
      cases hl : db.lookup m.group with
      | some c => exact absurd ⟨hs, by simp [hb, hl]⟩ hm
      | none => simp [Server.dispatch, hb, hs, hl]
  · simp [Server.dispatch, hs]

namespace Server

variable {s t : Server} {a : ServerAction} {i c : ℕ} {m : MessageHeader}

/-- What is on a connection is a message that the receiver's copy of the table admits. -/
def ReadsAdmitted (s : Server) : ServerAction → Prop
  | .read i m => ∀ h ∈ s.handshake i, ∀ db ∈ (s.receiver i).db?, db.Admits h m
  | .readMalformed .. => False
  | _ => True

instance (s : Server) (a : ServerAction) : Decidable (s.ReadsAdmitted a) :=
  match a with
  | .read .. => inferInstanceAs (Decidable (∀ h ∈ _, ∀ db ∈ _, _))
  | .readMalformed .. => .isFalse id
  | .accept | .endRegistration | .handshake .. | .refuse _ | .handle _ | .poll _ | .snapshot ..
  | .readError _ | .put _ | .terminate _ | .takeSocket _ | .takeMessage _ | .channelClosed _
  | .written _ | .writeError _ | .disconnect _ => .isTrue trivial

/-- A message that the client of connection `i` may have sent to the client of connection
`c`. -/
def Reaches (s : Server) (i c : ℕ) (m : MessageHeader) : Prop :=
  ∃ h ∈ s.handshake i, ∃ k ∈ s.handshake c, m.MayReach h k

instance (s : Server) (i c : ℕ) (m : MessageHeader) : Decidable (s.Reaches i c m) :=
  inferInstanceAs (Decidable (∃ h ∈ s.handshake i, ∃ k ∈ s.handshake c, m.MayReach h k))

/-- What holds of the channels and sockets in every reachable state. -/
structure Isolated (s : Server) : Prop where
  nodup : ∀ i db m cs, s.receiver i = .forwarding db m cs → cs.Nodup
  forwarded : ∀ i c, (s.forwarded i c).Sublist ((s.received i).filter (s.Reaches i c))
  taken : s.Taken
  sent : ∀ c e, e ∈ s.sent c → s.SameClient e.1 c

/-! ### The channels -/

theorem Reaches.mono (hs : s.Tasks) (h : Step s a t) (hm : s.Reaches i c m) :
    t.Reaches i c m := by
  obtain ⟨hk, hi, k, hc, hm⟩ := hm
  exact ⟨hk, handshake_mono hs h hi, k, handshake_mono hs h hc, hm⟩

/-- The targets of an admitted message are channels of clients that the message is for. -/
theorem reaches_of_mem_targets (hs : s.Wf) {h : Handshake} {db : GroupSnds}
    (hi : s.handshake i = some h) (hdb : (s.receiver i).db? = some db) (hm : db.Admits h m)
    (hc : c ∈ db.targets h.sender m) : s.Reaches i c m := by
  -- what is in the copy is there under the name of its client
  have hcopy : ∀ {r}, db.lookup r = some c → s.handshake c = some ⟨r, h.group⟩ := by
    intro r hr
    obtain ⟨hk, hi', hc, -⟩ := hs.tables.copy i db r c hdb hr
    rwa [Option.some_inj.mp (hi.symm.trans hi')]
  obtain ⟨hsnd, hbody⟩ := hm
  cases hb : m.body with
  | size n =>
    simp only [GroupSnds.targets, hb, GroupSnds.messageChannels, List.mem_map,
      List.mem_filter, ne_eq, decide_not, Bool.not_eq_true', decide_eq_false_iff_not] at hc
    obtain ⟨e, ⟨he, hne⟩, rfl⟩ := hc
    simp only [hb] at hbody
    refine ⟨h, hi, _, hcopy (AList.mem_lookup_iff.mpr he), ⟨rfl, ?_⟩, hsnd, ?_⟩
    · simpa only [hb] using hne
    · simpa only [hb] using hbody
  | receipt =>
    simp only [GroupSnds.targets, hb, Option.mem_toList] at hc
    exact ⟨h, hi, _, hcopy hc, ⟨rfl, by simp only [hb]⟩, hsnd, by simp only [hb]⟩

/-- A message that is not admitted is read, and goes nowhere. -/
theorem forwarded_of_not_admitted (hC : ¬ s.ReadsAdmitted a) (h : Step s a t) (i c : ℕ) :
    t.forwarded i c = s.forwarded i c := by
  cases h with
  | @read j db hk m hj hh =>
    have hm : ¬ db.Admits hk m := by
      intro hm
      refine hC fun hk' hh' db' hdb => ?_
      obtain rfl := Option.some_inj.mp (hh.symm.trans hh')
      obtain rfl : db = db' := by simpa [hj, ReceiverTask.db?] using hdb
      exact hm
    rw [dispatch_of_not_admits hm]
    by_cases hij : i = j
    · subst hij
      simp [forwarded, hj, ReceiverTask.inHand]
    · simp [forwarded, hij]
  | @readMalformed j _ _ hj _ =>
    by_cases hij : i = j
    · subst hij
      simp [forwarded, hj, ReceiverTask.inHand]
    · simp [forwarded, hij]
  | _ => exact absurd trivial hC

theorem Isolated.forwarded_step (hs : s.Wf) (hI : s.Isolated) (h : Step s a t) (i c : ℕ) :
    (t.forwarded i c).Sublist ((t.received i).filter (t.Reaches i c)) := by
  have hold := (hI.forwarded i c).trans
    (List.monotone_filter_right (s.received i) (q := fun m => decide (t.Reaches i c m))
      fun m hm => by simpa using Reaches.mono hs.tasks h (by simpa using hm))
  have hrec : (s.received i).Sublist (t.received i) := by
    rcases received_cases h i with he | ⟨db, m, rfl, hj⟩
    · rw [he]
    · rw [received_read h]
      exact List.sublist_append_left ..
  by_cases hC : s.ReadsAdmitted a
  · have hok : ∀ i m h db, a = .read i m → s.receiver i = .receiving db →
        s.handshake i = some h → db.Admits h m := by
      rintro i m hk db rfl hi hh
      exact hC hk hh db (by rw [hi]; rfl)
    rcases forwarded_cases hs hI.nodup hok h i c with
      ⟨hr, hf⟩ | ⟨m, hk, db, hh, hi, hm, hr, hf⟩
    · rwa [hr, hf]
    · rw [hr, hf, List.filter_append]
      refine hold.append ?_
      by_cases hc : c ∈ db.targets hk.sender m
      · have hreach := reaches_of_mem_targets hs hh (by rw [hi]; rfl) hm hc
        simp [hc, hreach.mono hs.tasks h]
      · simp [hc]
  · rw [forwarded_of_not_admitted hC h]
    exact hold.trans (hrec.filter _)

theorem Isolated.nodup_step (hs : s.Wf) (hI : s.Isolated) (h : Step s a t) {db : GroupSnds}
    {cs : List ℕ} (hi : t.receiver i = .forwarding db m cs) : cs.Nodup := by
  rcases forwarding_cases hs.tasks h hi with hi | ⟨-, c, hi⟩ | ⟨hk, hr, hh, rfl, hd⟩
  · exact hI.nodup i db m cs hi
  · exact (List.nodup_cons.mp (hI.nodup i db m _ hi)).2
  · by_cases hm : db.Admits hk m
    · rw [dispatch_of_own hm] at hd
      split at hd
      · cases hd
      · cases hd
        exact nodup_targets (i := i) hs (by rw [hr]; rfl) hk.sender
    · cases (dispatch_of_not_admits hm).symm.trans hd

/-- What is written goes to a socket of the channel's client. -/
theorem Isolated.sent_step (hs : s.Wf) (hI : s.Isolated) (h : Step s a t) {e : ℕ × MessageHeader}
    (he : e ∈ t.sent c) : t.SameClient e.1 c := by
  rcases sent_cases h c with hc | ⟨k, m, -, hw, hc⟩
  · exact (hI.sent c e (hc ▸ he)).mono hs.tasks h
  · rw [hc, List.mem_append, List.mem_singleton] at he
    rcases he with he | rfl
    · exact (hI.sent c e he).mono hs.tasks h
    · exact (hs.sockets.owns c k (.inr (by rw [hw]; rfl))).mono hs.tasks h

theorem isolated_step (hs : s.Wf) (hI : s.Isolated) (h : Step s a t) : t.Isolated where
  nodup _ _ _ _ hi := hI.nodup_step hs h hi
  forwarded := hI.forwarded_step hs h
  taken := taken_step hs.tasks hI.taken h
  sent _ _ he := hI.sent_step hs h he

theorem Isolated.init : Server.init.Isolated where
  nodup i db m cs hi := by cases hi
  forwarded i c := List.nil_sublist _
  taken := .init
  sent c e he := by cases he

theorem isolated_of_run {as : List ServerAction} (hrun : serverSystem.run .init as = some t) :
    t.Wf ∧ t.Isolated :=
  System.invariant (I := fun s => s.Wf ∧ s.Isolated)
    (fun _ _ _ hs h => ⟨wf_step hs.1 (step_cases h), isolated_step hs.1 hs.2 (step_cases h)⟩)
    ⟨.init, .init⟩ hrun

/-- **Isolation.** Whatever the clients do: what the receiver of a connection has put on a
channel is a part, in order, of what it has read and what its client may send the client of
the channel; what the channel's sender has written is the beginning of what is on the channel,
and it was written to connections of the channel's client. -/
theorem isolation {as : List ServerAction} (hrun : serverSystem.run .init as = some t)
    (i c : ℕ) :
    (fromConnection i (t.channel c).log).Sublist ((t.received i).filter (t.Reaches i c)) ∧
      (t.sent c).map (·.2) <+: (t.channel c).log.map (·.2) ∧
      ∀ e ∈ t.sent c, t.SameClient e.1 c := by
  obtain ⟨-, hI⟩ := isolated_of_run hrun
  refine ⟨(List.sublist_append_left ..).trans (hI.forwarded i c), hI.taken.isPrefix_sent c, ?_⟩
  exact fun e he => hI.sent c e he

/-- Two clients register for one group and a third one for another. The first client sends a
message to its group and one to the other group, over which its receiver panics. -/
def intrusion : List ServerAction :=
  let db := ((∅ : GroupSnds).insert "a" 0).insert "b" 1
  [.accept, .accept, .accept, .handshake 0 ⟨"a", "g"⟩, .handle 0, .handle 0, .handle 0,
    .handle 0, .handshake 1 ⟨"b", "g"⟩, .handle 1, .handle 1, .handle 1, .handle 1,
    .handshake 2 ⟨"c", "g'"⟩, .handle 2, .handle 2, .handle 2, .handle 2, .handle 2, .handle 1,
    .handle 0, .handle 0, .poll 0, .endRegistration, .snapshot 0 db,
    .read 0 ⟨"a", "g", 7, .size ⟨128, by decide⟩⟩, .put 0, .takeSocket 1, .takeMessage 1,
    .written 1, .read 0 ⟨"a", "g'", 8, .size ⟨128, by decide⟩⟩]

theorem isolation_intrusion : ∃ t, serverSystem.run .init intrusion = some t ∧
    t.received 0 = [⟨"a", "g", 7, .size ⟨128, by decide⟩⟩, ⟨"a", "g'", 8, .size ⟨128, by decide⟩⟩] ∧
    (fromConnection 0 (t.channel 1).log).Sublist ((t.received 0).filter (t.Reaches 0 1)) ∧
    t.sent 1 = [(1, ⟨"a", "g", 7, .size ⟨128, by decide⟩⟩)] ∧
    (t.channel 2).log = [] := by
  have hrun : ((serverSystem.run .init intrusion).map fun s =>
      (s.received 0, s.sent 1, (s.channel 2).log)) =
      some ([⟨"a", "g", 7, .size ⟨128, by decide⟩⟩, ⟨"a", "g'", 8, .size ⟨128, by decide⟩⟩],
        [(1, ⟨"a", "g", 7, .size ⟨128, by decide⟩⟩)], []) := by
    rfl
  obtain ⟨t, ht, hobs⟩ := Option.map_eq_some_iff.mp hrun
  simp only [Prod.mk.injEq] at hobs
  exact ⟨t, ht, hobs.1, (isolation ht 0 1).1, hobs.2.1, hobs.2.2⟩

/-! ### Who panics -/

/-- No receiver has panicked. -/
def ReceiversRun (s : Server) : Prop := ∀ i, s.receiver i ≠ .panicked

theorem receiversRun_step (hs : s.Wf) (hR : s.ReceiversRun) (hC : s.ReadsAdmitted a)
    (h : Step s a t) : t.ReceiversRun := by
  intro i hi
  rcases receiver_cases hs.tasks h i with he | ⟨p, q, hp, hq, hn⟩
  · exact hR i (he ▸ hi)
  · rw [hi] at hq
    cases hn with
    | @read hk db m hh =>
      rw [dispatch_of_own (hC hk hh db (by rw [hp]; rfl))] at hq
      split at hq <;> cases hq
    -- the sender of a channel that is held does not panic
    | putFailed hc => exact hs.running_of_forwarding hp List.mem_cons_self hc
    | readMalformed => exact hC
    | _ => cases hq

theorem readsAdmitted_of_receiversRun (h : Step s a t) (hR : t.ReceiversRun) :
    s.ReadsAdmitted a := by
  cases h with
  | @read j db hk m hj hh =>
    intro hk' hh' db' hdb
    obtain rfl := Option.some_inj.mp (hh.symm.trans hh')
    obtain rfl : db = db' := by simpa [hj, ReceiverTask.db?] using hdb
    by_contra hm
    apply hR j
    rw [dispatch_of_not_admits hm]
    exact update_self ..
  | @readMalformed j => exact hR j (update_self ..)
  | _ => trivial

/-- No receiver panics throughout a run if and only if what one reads off its connection is
always a message, with the sender and group of the connection or as a receipt for a member in
the receiver's copy of the table. -/
theorem receiversRun_iff (as : List ServerAction) :
    serverSystem.Always ReceiversRun .init as ↔ serverSystem.Along ReadsAdmitted .init as :=
  System.always_iff_along (fun _ _ _ hs h => wf_step hs (step_cases h))
    (fun _ _ _ hs hR hC h => receiversRun_step hs hR hC (step_cases h)) (fun _ _ hR => hR)
    (fun _ _ _ _ h hR => readsAdmitted_of_receiversRun (step_cases h) hR) .init
    (fun i hi => by cases hi)

/-- A client registers alone and sends a message to its group, then the length field of a header
of three bytes, which its receiver cannot slice. -/
def shortHeader : List ServerAction :=
  [.accept, .handshake 0 ⟨"a", "g"⟩, .handle 0, .handle 0, .handle 0, .handle 0, .handle 0,
    .handle 0, .poll 0, .endRegistration, .snapshot 0 ((∅ : GroupSnds).insert "a" 0),
    .read 0 ⟨"a", "g", 7, .size ⟨128, by decide⟩⟩, .readMalformed 0 [0, 0, 0, 3]]

theorem receiversRun_shortHeader :
    (serverSystem.run .init shortHeader).isSome ∧
      serverSystem.Always ReceiversRun .init (shortHeader.take 12) ∧
      ¬ serverSystem.Always ReceiversRun .init shortHeader := by
  have hno : ¬ serverSystem.Along ReadsAdmitted .init shortHeader := by decide +kernel
  refine ⟨by rfl, (receiversRun_iff _).mpr (by decide +kernel), ?_⟩
  exact fun hR => hno ((receiversRun_iff _).mp hR)

/-- Whoever has spawned a sender, or is about to, has stored a channel for its client. -/
def Stored (s : Server) : Prop :=
  ∀ i h, s.handshake i = some h → (s.sender i ≠ .absent ∨ ∃ g, s.handler i = .spawn h g) →
    ∃ c, s.storedChannel h = some c

theorem stored_step (hs : s.Wf) (hS : s.Stored) (h : Step s a t) : t.Stored := by
  intro i hk hh hi
  have hkeep : (∃ c, s.storedChannel hk = some c) → ∃ c, t.storedChannel hk = some c :=
    fun ⟨_, hc⟩ => storedChannel_mono h hc
  have hold : ∀ {hk'}, s.handshake i = some hk' → hk' = hk :=
    fun hh' => handshake_unique hs.tasks h hh' hh
  rcases hi with hi | ⟨g, hg⟩
  · rcases sender_cases h hi with hi | ⟨hk', g, hg⟩
    · obtain ⟨hk', hh'⟩ := hs.tasks.exists_handshake (.inr hi)
      exact hkeep (hS i hk (hold hh' ▸ hh') (.inl hi))
    · have hh' := hs.tasks.handshake_of_arg (i := i) (h := hk') (by rw [hg]; rfl)
      obtain rfl := hold hh'
      exact hkeep (hS i hk' hh' (.inr ⟨g, hg⟩))
  · rcases spawn_cases hs.tasks h hg with hg' | hj
    · have hh' := hs.tasks.handshake_of_arg (i := i) (h := hk) (by rw [hg']; rfl)
      exact hkeep (hS i hk hh' (.inr ⟨g, hg'⟩))
    · exact ⟨i, storedChannel_of_joins hs h hj hg⟩

/-- **A panicked sender has been superseded.** Another connection of its client has stored its
own channel, whose sender has not panicked. -/
theorem superseded_of_panicked {as : List ServerAction}
    (hrun : serverSystem.run .init as = some t) (hc : t.sender c = .panicked) :
    ∃ h d, t.handshake c = some h ∧ t.handshake d = some h ∧ d ≠ c ∧
      t.storedChannel h = some d ∧ t.sender d ≠ .panicked := by
  obtain ⟨hs, hS⟩ := System.invariant (I := fun s => s.Wf ∧ s.Stored)
    (fun _ _ _ hs h => ⟨wf_step hs.1 (step_cases h), stored_step hs.1 hs.2 (step_cases h)⟩)
    ⟨.init, fun i h hh => by cases hh⟩ hrun
  have hne : t.sender c ≠ .absent := by simp [hc]
  obtain ⟨h, hh⟩ := hs.tasks.exists_handshake (.inr hne)
  obtain ⟨d, hd⟩ := hS c h hh (.inl hne)
  have hrunning : t.sender d ≠ .panicked := by
    obtain ⟨x, -, hx⟩ := storedChannel_eq_some.mp hd
    exact hs.tables.running d (.inl ⟨x, mem_channels.mpr ⟨_, hx⟩⟩)
  refine ⟨h, d, hh, handshake_of_stored hs hd, ?_, hd, hrunning⟩
  rintro rfl
  exact hrunning hc

/-- A client registers on a second connection before its first handshake has finished, and the
first connection's sender finds that nobody holds its channel any more. -/
def superseding : List ServerAction :=
  crossingHandshakes ++ [.takeSocket 0, .channelClosed 0]

theorem superseded_superseding : ∃ t, serverSystem.run .init superseding = some t ∧
    t.sender 0 = .panicked ∧ ∃ h d, t.handshake 0 = some h ∧ t.handshake d = some h ∧ d ≠ 0 ∧
      t.storedChannel h = some d ∧ t.sender d ≠ .panicked := by
  have hrun : ((serverSystem.run .init superseding).map fun s => s.sender 0) =
      some .panicked := by
    rfl
  obtain ⟨t, ht, hobs⟩ := Option.map_eq_some_iff.mp hrun
  exact ⟨t, ht, hobs, superseded_of_panicked ht hobs⟩

end Server

end SignalSim.Mgen
