import SignalSim.Mgen.Server.Forwarding

/-!
# The end of the registration phase

`notify_waiters` wakes the receivers that have been polled by then. A receiver polled for
the first time later, such as that of a client that reconnects, waits for a notification
that never comes. And since a handshake task accepted in time may finish late, a client can
enter the table of its group after others have cloned it.

## Main definitions

* `Server.ReadersServe` — polled receivers of unbroken connections forward what they read
* `Server.PolledInTime` — no such receiver is polled for the first time too late
* `Server.GroupsAgree` — in addition, all receivers of a group work with the same members
* `Server.JoinedInTime` — in addition, no client enters a table that has been cloned

## Main results

* `Server.readersServe_iff` — a run keeps its readers serving exactly if they are polled in
  time
* `Server.reader_left_waiting` — a client that reconnects after the phase
* `Server.groupsAgree_iff` — the same for agreement
* `Server.client_left_out` — a client that registers after the phase
-/

namespace SignalSim.Mgen

open Function (update update_self update_of_ne)

/-- The client whose channel a task is about to put into a table. -/
def HandshakeTask.joins? : HandshakeTask → Option Handshake
  | joinGroup h _ | joinNewGroup h _ => some h
  | _ => none

namespace Server

variable {s t : Server} {a : ServerAction} {i : ℕ}

/-! ### Readers -/

/-- Once the registration phase has ended, the receiver of every unbroken connection is past
its wait, if it has been polled, and can forward every message its client may send. -/
def ReadersServe (s : Server) : Prop :=
  s.phaseOver = true → ∀ i, s.alive i = true → (s.receiver i).Polled →
    (s.receiver i).PastWait ∧ ∀ m, s.OwnMessage i m → s.CanForward i m

/-- After the end of the registration phase, no receiver of an unbroken connection is polled
for the first time. -/
def PolledInTime (s : Server) : ServerAction → Prop
  | .poll i => s.phaseOver = true → s.alive i = false
  | _ => True

instance (s : Server) (a : ServerAction) : Decidable (s.PolledInTime a) :=
  match a with
  | .poll _ => inferInstanceAs (Decidable (_ → _))
  | .accept | .endRegistration | .handshake .. | .refuse _ | .handle _ | .snapshot ..
  | .read .. | .readError _ | .readMalformed .. | .put _ | .terminate _ | .takeSocket _
  | .takeMessage _ | .channelClosed _ | .written _ | .writeError _
  | .disconnect _ => .isTrue trivial

/-- After the end of the registration phase nobody waits for it on an unbroken connection. -/
def NobodyWaits (s : Server) : Prop :=
  s.phaseOver = true → ∀ i g, s.alive i = true → s.receiver i ≠ .waiting g

/-- The next connection has no receiver yet. -/
theorem receiver_accepted (hs : s.Tasks) : s.receiver s.accepted = .absent := by
  have hc := hs.conn s.accepted
  rw [ConnOk, hs.fresh _ (Nat.le_refl _)] at hc
  exact hc.2.1

theorem nobodyWaits_step (hs : s.Wf) (hN : s.NobodyWaits) (hC : s.PolledInTime a)
    (h : Step s a t) : t.NobodyWaits := by
  intro hp i g hi hw
  rcases receiver_cases hs.tasks h i with he | ⟨p, q, hp', hq, hn⟩
  · rw [he] at hw
    rcases phaseOver_cases h hp with hp | rfl
    · rcases alive_cases h hi with hi | rfl
      · exact hN hp i g hi hw
      · cases (receiver_accepted hs.tasks).symm.trans hw
    · -- the end of the phase wakes whoever waits
      cases h with
      | endRegistration _ => simp [hw, ReceiverTask.wake] at he
  · rw [hw] at hq
    cases hn with
    | poll =>
      cases h with
      | poll hj => cases hi.symm.trans (hC hp)
    | @read hk db m _ =>
      rcases dispatch_cases hk.sender hk.group db m with hd | hd | ⟨cs, _, hd, _⟩ <;>
        cases hq.trans hd
    | _ => cases hq

theorem readersServe_of_nobodyWaits (hs : s.Wf) (hN : s.NobodyWaits) : s.ReadersServe := by
  intro hp i hi hpoll
  have hw : (s.receiver i).PastWait := by
    cases hr : s.receiver i with
    | waiting g => exact absurd hr (hN hp i g hi)
    | woken g | receiving db | forwarding db m cs => trivial
    | _ => simp [hr, ReceiverTask.Polled] at hpoll
  exact ⟨hw, fun m hm => canForward_of_pastWait hs hw hm⟩

/-- A receiver polled too late waits. -/
theorem polledInTime_of_readersServe (h : Step s a t) (hP : t.ReadersServe) :
    s.PolledInTime a := by
  cases h with
  | @poll i g hi =>
    intro hp
    by_contra ha
    have hw := (hP hp i (by simpa using ha) (by simp [ReceiverTask.Polled])).1
    simp [ReceiverTask.PastWait] at hw
  | _ => trivial

theorem NobodyWaits.init : Server.init.NobodyWaits := fun hp => by cases hp

/-- The readers serve throughout a run if and only if all of them are polled in time. -/
theorem readersServe_iff (as : List ServerAction) :
    serverSystem.Always ReadersServe .init as ↔ serverSystem.Along PolledInTime .init as :=
  System.always_iff_along (fun _ _ _ hs h => wf_step hs (step_cases h))
    (fun _ _ _ hs hN hC h => nobodyWaits_step hs hN hC (step_cases h))
    (fun _ hs hN => readersServe_of_nobodyWaits hs hN)
    (fun _ _ _ _ h hP => polledInTime_of_readersServe (step_cases h) hP) .init .init

/-- A client that registers in time, loses its connection after the end of the registration
phase and connects again. -/
def lateReconnect : List ServerAction :=
  [.accept, .handshake 0 ⟨"a", "g"⟩, .handle 0, .handle 0, .handle 0, .handle 0, .handle 0,
    .handle 0, .poll 0, .takeSocket 0, .endRegistration,
    .snapshot 0 ((∅ : GroupSnds).insert "a" 0), .disconnect 0, .readError 0, .accept,
    .handshake 1 ⟨"a", "g"⟩, .handle 1, .handle 1, .handle 1, .poll 1]

theorem reader_left_waiting : ¬ serverSystem.Always ReadersServe .init lateReconnect := by
  intro hP
  have hC : serverSystem.Along PolledInTime .init lateReconnect :=
    System.along_of_always (I := fun _ => True)
      (fun _ _ _ _ h hP => polledInTime_of_readersServe (step_cases h) hP) (by simp) trivial hP
  revert hC
  decide +kernel

/-! ### Groups -/

/-- All receivers that work with a copy of the table of their group have all members of the
group in it and nobody else, and the readers of the members serve. -/
def GroupsAgree (s : Server) : Prop :=
  (∀ i h db, s.handshake i = some h → (s.receiver i).db? = some db →
    ∀ r, db.lookup r = s.storedChannel ⟨r, h.group⟩) ∧ s.ReadersServe

/-- Nobody enters the table of a group that a receiver has cloned. -/
def JoinsFresh (s : Server) : ServerAction → Prop
  | .handle i => ∀ h ∈ (s.handler i).joins?, ∀ j < s.accepted, ∀ k ∈ s.handshake j,
      k.group = h.group → (s.receiver j).db? = none
  | _ => True

instance (s : Server) (a : ServerAction) : Decidable (s.JoinsFresh a) :=
  match a with
  | .handle _ => inferInstanceAs (Decidable (∀ h ∈ _, ∀ j < _, ∀ k ∈ _, _ → _))
  | .accept | .endRegistration | .handshake .. | .refuse _ | .poll _ | .snapshot .. | .read ..
  | .readError _ | .readMalformed .. | .put _ | .terminate _ | .takeSocket _ | .takeMessage _
  | .channelClosed _ | .written _ | .writeError _ | .disconnect _ => .isTrue trivial

/-- Nobody enters the table of a group that a receiver has cloned, and receivers are polled in
time. -/
def JoinedInTime (s : Server) (a : ServerAction) : Prop := s.PolledInTime a ∧ s.JoinsFresh a

instance (s : Server) (a : ServerAction) : Decidable (s.JoinedInTime a) :=
  inferInstanceAs (Decidable (_ ∧ _))

/-- Every copy of a table is what the table is now. -/
def CopiesCurrent (s : Server) : Prop :=
  ∀ i h db, s.handshake i = some h → (s.receiver i).db? = some db →
    ∀ r, db.lookup r = s.storedChannel ⟨r, h.group⟩

theorem joins?_of_joins {h : Handshake} {g : ℕ} (hj : s.Joins i h g) :
    (s.handler i).joins? = some h := by
  rcases hj with hj | hj <;> rw [hj] <;> rfl

theorem joins_of_joins? {h : Handshake} (hj : (s.handler i).joins? = some h) :
    ∃ g, s.Joins i h g := by
  cases hi : s.handler i with
  | joinGroup h' g =>
    obtain rfl : h' = h := by simpa [hi, HandshakeTask.joins?] using hj
    exact ⟨g, .inl hi⟩
  | joinNewGroup h' g =>
    obtain rfl : h' = h := by simpa [hi, HandshakeTask.joins?] using hj
    exact ⟨g, .inr hi⟩
  | _ => simp [hi, HandshakeTask.joins?] at hj

/-- The stored channel of a client changes only when a task of the client stores its own. -/
theorem storedChannel_next (hs : s.Wf) (h : Step s a t) (hk : Handshake) :
    t.storedChannel hk = s.storedChannel hk ∨
      ∃ i, a = .handle i ∧ (s.handler i).joins? = some hk := by
  cases ht : t.storedChannel hk with
  | none =>
    cases hsc : s.storedChannel hk with
    | none => exact .inl rfl
    | some c =>
      obtain ⟨d, hd⟩ := storedChannel_mono h hsc
      cases ht.symm.trans hd
  | some c =>
    rcases storedChannel_cases hs h ht with hc | ⟨g, ha, hj, -⟩
    · exact .inl hc.symm
    · exact .inr ⟨c, ha, joins?_of_joins hj⟩

theorem copiesCurrent_step (hs : s.Wf) (hK : s.CopiesCurrent) (hC : s.JoinsFresh a)
    (h : Step s a t) : t.CopiesCurrent := by
  intro i hk db hh hdb r
  rcases db_cases hs.tasks h hdb with hdb' | ⟨g, rfl, hw, hp⟩
  · obtain ⟨hk', hh'⟩ : ∃ hk', s.handshake i = some hk' := by
      apply hs.tasks.exists_handshake
      left
      intro h0
      rw [h0] at hdb'
      cases hdb'
    obtain rfl : hk' = hk := handshake_unique hs.tasks h hh' hh
    rw [hK i hk' db hh' hdb' r]
    rcases storedChannel_next hs h ⟨r, hk'.group⟩ with he | ⟨j, rfl, hj⟩
    · exact he.symm
    · -- a client that joins now finds the copy of receiver `i`
      have hnone := hC _ hj i (hs.tasks.lt_of_handshake hh') hk' hh' rfl
      cases hnone.symm.trans hdb'
  · obtain ⟨hk', hh', hg⟩ := hs.tables.receiverGroup i g (by rw [hw]; rfl)
    obtain rfl : hk' = hk := handshake_unique hs.tasks h hh' hh
    rcases storedChannel_next hs h ⟨r, hk'.group⟩ with he | ⟨j, ha, -⟩
    · rw [he, AList.perm_lookup hp, storedChannel, hg, Option.bind_some]
    · cases ha

theorem CopiesCurrent.init : Server.init.CopiesCurrent := fun _ _ _ hh => by cases hh

/-- No step of a handshake task takes a copy of a table away. -/
theorem db?_of_handle (hs : s.Tasks) (h : Step s (.handle i) t) {j : ℕ} {db : GroupSnds}
    (hdb : (s.receiver j).db? = some db) : (t.receiver j).db? = some db := by
  rcases receiver_cases hs h j with he | ⟨p, q, hp, hq, hn⟩
  · rwa [he]
  · rw [hp] at hdb
    cases hn <;> cases hdb

theorem handler_of_joins (h : Step s (.handle i) t) {hk : Handshake} {g : ℕ}
    (hj : s.Joins i hk g) : t.handler i = .spawn hk g := by
  rcases hj with hj | hj <;> cases h <;> simp_all

theorem groupsAgree_of_copiesCurrent (hs : s.Wf) (hK : s.CopiesCurrent) (hN : s.NobodyWaits) :
    s.GroupsAgree :=
  ⟨hK, readersServe_of_nobodyWaits hs hN⟩

/-- A client that joins too late is missing in the copies that exist. -/
theorem joinedInTime_of_groupsAgree (hs : s.Wf) (h : Step s a t) (hP : t.GroupsAgree) :
    s.JoinedInTime a := by
  refine ⟨polledInTime_of_readersServe h hP.2, ?_⟩
  cases a with
  | handle i =>
    intro hk hj j hlt k hjk hg
    obtain ⟨g, hj⟩ := joins_of_joins? hj
    by_contra hne
    obtain ⟨db, hdb⟩ := Option.ne_none_iff_exists'.mp hne
    have hti := handler_of_joins h hj
    have hst : t.storedChannel ⟨hk.sender, k.group⟩ = some i := by
      rw [hg]
      exact storedChannel_of_joins hs h hj hti
    have hlook := hP.1 j k db (handshake_mono hs.tasks h hjk) (db?_of_handle hs.tasks h hdb)
      hk.sender
    obtain ⟨-, -, -, hins⟩ := hs.tables.copy j db _ i hdb (hlook.trans hst)
    -- it has yet to enter a table, so no copy can have it
    rcases hj with hj | hj <;> rw [hj] at hins <;> exact hins
  | _ => trivial

/-- The receivers of each group agree and serve throughout a run if and only if everybody
joins and is polled in time. -/
theorem groupsAgree_iff (as : List ServerAction) :
    serverSystem.Always GroupsAgree .init as ↔ serverSystem.Along JoinedInTime .init as :=
  System.always_iff_along (J := fun s => s.CopiesCurrent ∧ s.NobodyWaits)
    (fun _ _ _ hs h => wf_step hs (step_cases h))
    (fun _ _ _ hs hJ hC h => ⟨copiesCurrent_step hs hJ.1 hC.2 (step_cases h),
      nobodyWaits_step hs hJ.2 hC.1 (step_cases h)⟩)
    (fun _ hs hJ => groupsAgree_of_copiesCurrent hs hJ.1 hJ.2)
    (fun _ _ _ hs h hP => joinedInTime_of_groupsAgree hs (step_cases h) hP) .init ⟨.init, .init⟩

/-- Two clients of one group connect in time; the second finishes its handshake after the end
of the registration phase, when the first one's receiver has cloned the table. -/
def lateHandshake : List ServerAction :=
  [.accept, .handshake 0 ⟨"a", "g"⟩, .handle 0, .handle 0, .handle 0, .handle 0, .handle 0,
    .handle 0, .poll 0, .accept, .endRegistration, .snapshot 0 ((∅ : GroupSnds).insert "a" 0),
    .handshake 1 ⟨"b", "g"⟩, .handle 1, .handle 1, .handle 1]

theorem client_left_out : ¬ serverSystem.Always GroupsAgree .init lateHandshake := by
  intro hP
  have hC : serverSystem.Along JoinedInTime .init lateHandshake :=
    System.along_of_always (I := Wf)
      (fun _ _ _ hs h hP => joinedInTime_of_groupsAgree hs (step_cases h) hP)
      (fun _ _ _ hs h => wf_step hs (step_cases h)) .init hP
  revert hC
  decide +kernel

end Server

end SignalSim.Mgen
