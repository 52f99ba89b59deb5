import SignalSim.Mgen.Server.Invariants

/-!
# Registration

A handshake task of a new client looks into `writer_db`, puts a channel into the table of
the group and later an updater into `writer_db`. Between the look and the second insertion
another task of the same client can do the same. Both tables then hold an entry of one of
the two tasks, and they agree if the task whose channel is stored is the last one to put
its updater in.

## Main definitions

* `Server.storedChannel` — the channel stored for a client in `snd_db`
* `Server.RegistryAgrees` — once all handshake tasks have finished, both tables lead to the
  same running sender for every registered client
* `Server.PublishesInOrder` — the condition on the second insertions

## Main results

* `Server.registryAgrees_of_along` — runs that meet the condition keep the tables in
  agreement
* `Server.registry_disagrees` — two crossing handshakes of one client
-/

namespace SignalSim.Mgen

open Function (update update_self update_of_ne)

/-- The client for which a task puts its updater into `writer_db`. -/
def HandshakeTask.publishes? : HandshakeTask → Option Handshake
  | publish h => some h
  | _ => none

namespace Server

variable {s t : Server} {a : ServerAction} {i c : ℕ} {h : Handshake}

/-- The channel stored for a client in `snd_db`. -/
def storedChannel (s : Server) (h : Handshake) : Option ℕ :=
  (s.sndDb.lookup h.group).bind fun x => (s.groupSnds x).lookup h.sender

/-- A sender has been spawned for the client. -/
def Registered (s : Server) (h : Handshake) : Prop :=
  ∃ i, s.handshake i = some h ∧ s.sender i ≠ .absent

/-- Once all handshake tasks have finished, the channel and the updater of every registered
client are with one and the same running sender. -/
def RegistryAgrees (s : Server) : Prop :=
  (∀ i, i < s.accepted → s.handler i = .finished) → ∀ h, s.Registered h →
    ∃ c, s.storedChannel h = some c ∧ s.writerDb.lookup h = some c ∧
      s.sender c ≠ .absent ∧ s.sender c ≠ .panicked

/-- A task puts its updater into `writer_db` only if the task whose channel is stored for the
client is itself, or has not done so yet. -/
def PublishesInOrder (s : Server) : ServerAction → Prop
  | .handle i => ∀ h ∈ (s.handler i).publishes?, ∀ c ∈ s.storedChannel h,
      c = i ∨ s.handler c ≠ .finished
  | _ => True

instance (s : Server) (a : ServerAction) : Decidable (s.PublishesInOrder a) :=
  match a with
  | .handle _ => inferInstanceAs (Decidable (∀ h ∈ _, ∀ c ∈ _, _ ∨ _))
  | .accept | .endRegistration | .handshake .. | .refuse _ | .poll _ | .snapshot .. | .read ..
  | .readError _ | .readMalformed .. | .put _ | .terminate _ | .takeSocket _ | .takeMessage _
  | .channelClosed _ | .written _ | .writeError _ | .disconnect _ => .isTrue trivial

theorem storedChannel_eq_some : s.storedChannel h = some c ↔
    ∃ x, s.sndDb.lookup h.group = some x ∧ (s.groupSnds x).lookup h.sender = some c :=
  Option.bind_eq_some_iff

theorem handshake_of_stored (hs : s.Wf) (hc : s.storedChannel h = some c) :
    s.handshake c = some h := by
  obtain ⟨x, hx, hc⟩ := storedChannel_eq_some.mp hc
  obtain ⟨hk, hh, hsnd, hg, -⟩ := hs.tables.channel x _ c hc
  obtain ⟨hx1, hh1, hg1⟩ := hs.tables.group _ _ hx
  obtain ⟨hx2, hh2, hg2⟩ := hs.tables.group _ _ hg
  obtain rfl : hx1 = hx2 := Option.some_inj.mp (hh1.symm.trans hh2)
  rw [hh, Option.some_inj]
  exact Handshake.ext hsnd (hg2.symm.trans hg1)

/-- A stored channel was stored before, or is being stored by its handshake task. -/
theorem storedChannel_cases (hs : s.Wf) (hstep : Step s a t) (hc : t.storedChannel h = some c) :
    s.storedChannel h = some c ∨
      ∃ g, a = .handle c ∧ s.Joins c h g ∧ t.handler c = .spawn h g := by
  have ht := handshake_of_stored (wf_step hs hstep) hc
  obtain ⟨x, hx, hc⟩ := storedChannel_eq_some.mp hc
  rcases groupSnds_cases hstep hc with hc | ⟨hk, ha, hj, hsnd, hsp⟩
  · obtain ⟨hk, hh, hsnd, hg, -⟩ := hs.tables.channel x _ c hc
    obtain rfl : hk = h := handshake_unique hs.tasks hstep hh ht
    exact .inl (storedChannel_eq_some.mpr ⟨x, hg, hc⟩)
  · have hh := (wf_step hs hstep).tasks.handshake_of_arg (i := c) (h := hk) (by rw [hsp]; rfl)
    obtain rfl : hk = h := Option.some_inj.mp (hh.symm.trans ht)
    exact .inr ⟨x, ha, hj, hsp⟩

/-- A task that has put its channel into a table has stored it for its client. -/
theorem storedChannel_of_joins (hs : s.Wf) (hstep : Step s a t) {g : ℕ} (hj : s.Joins i h g)
    (ht : t.handler i = .spawn h g) : t.storedChannel h = some i := by
  obtain ⟨harg, hgrp⟩ := args_of_joins hj
  obtain ⟨hk, hh, hg⟩ := hs.tables.handlerGroup i g hgrp
  obtain rfl : h = hk := Option.some_inj.mp ((hs.tasks.handshake_of_arg harg).symm.trans hh)
  refine storedChannel_eq_some.mpr ⟨g, sndDb_mono hstep hg, ?_⟩
  rcases handler_cases hs.tasks hstep i with he | ⟨p, q, hp, hq, hn⟩
  · rw [ht] at he
    rcases hj with hj | hj <;> cases he.trans hj
  · cases hq.symm.trans ht
    rcases hj with hj | hj <;> cases hp.symm.trans hj <;> cases hn <;> assumption

theorem groupSnds_mono (hstep : Step s a t) {x : ℕ} {r : ID}
    (hc : (s.groupSnds x).lookup r = some c) : ∃ d, (t.groupSnds x).lookup r = some d := by
  have joined : ∀ {j g : ℕ} {u : ID},
      t.groupSnds = update s.groupSnds g ((s.groupSnds g).insert u j) →
      ∃ d, (t.groupSnds x).lookup r = some d := by
    intro j g u ht
    rw [ht]
    by_cases hx : x = g
    · subst hx
      rw [update_self]
      by_cases hr : r = u
      · subst hr
        exact ⟨j, AList.lookup_insert _⟩
      · exact ⟨c, by rw [AList.lookup_insert_ne hr, hc]⟩
    · exact ⟨c, by rw [update_of_ne hx, hc]⟩
  cases hstep with
  | joinGroup _ => exact joined rfl
  | joinNewGroup _ => exact joined rfl
  | _ => exact ⟨c, hc⟩

theorem storedChannel_mono (hstep : Step s a t) (hc : s.storedChannel h = some c) :
    ∃ d, t.storedChannel h = some d := by
  obtain ⟨x, hx, hc⟩ := storedChannel_eq_some.mp hc
  obtain ⟨d, hd⟩ := groupSnds_mono hstep hc
  exact ⟨d, storedChannel_eq_some.mpr ⟨x, sndDb_mono hstep hx, hd⟩⟩

/-! ### The invariant -/

/-- A stored channel belongs to a task that has yet to put its updater in, or the stored
updater is its own; and whoever spawned a sender, or is about to, has stored a channel. -/
structure RegistryOk (s : Server) : Prop where
  stored : ∀ h c, s.storedChannel h = some c →
    (∃ g, s.handler c = .spawn h g) ∨ s.handler c = .publish h ∨ s.writerDb.lookup h = some c
  spawned : ∀ i h, s.handshake i = some h →
    (s.sender i ≠ .absent ∨ ∃ g, s.handler i = .spawn h g) → ∃ c, s.storedChannel h = some c

theorem spawn_cases (hs : s.Tasks) (hstep : Step s a t) {g : ℕ} (hi : t.handler i = .spawn h g) :
    s.handler i = .spawn h g ∨ s.Joins i h g := by
  rcases handler_cases hs hstep i with he | ⟨p, q, hp, hq, hn⟩
  · exact .inl (he ▸ hi)
  · cases hn <;> simp_all [Joins]

theorem spawn_next (hs : s.Tasks) (hstep : Step s a t) {g : ℕ} (hi : s.handler i = .spawn h g) :
    t.handler i = .spawn h g ∨ t.handler i = .publish h := by
  rcases handler_cases hs hstep i with he | ⟨p, q, hp, hq, hn⟩
  · exact .inl (he ▸ hi)
  · cases hn <;> simp_all

theorem publish_next (hs : s.Tasks) (hstep : Step s a t) (hi : s.handler i = .publish h) :
    t.handler i = .publish h ∨ t.writerDb.lookup h = some i := by
  rcases handler_cases hs hstep i with he | ⟨p, q, hp, hq, hn⟩
  · exact .inl (he ▸ hi)
  · cases hn with
    | publish hu =>
      cases hp.symm.trans hi
      exact .inr hu
    | _ => cases hp.symm.trans hi

theorem writerDb_next (hstep : Step s a t) (hu : s.writerDb.lookup h = some c) :
    t.writerDb.lookup h = some c ∨
      ∃ j, a = .handle j ∧ s.handler j = .publish h ∧ t.writerDb.lookup h = some j := by
  cases hstep with
  | @publish j hk hj _ =>
    by_cases hne : h = hk
    · subst hne
      exact .inr ⟨j, rfl, hj, AList.lookup_insert _⟩
    · exact .inl ((AList.lookup_insert_ne hne).trans hu)
  | _ => exact .inl hu

theorem registryOk_step (hs : s.Wf) (hR : s.RegistryOk) (hC : s.PublishesInOrder a)
    (hstep : Step s a t) : t.RegistryOk where
  stored h c hc := by
    rcases storedChannel_cases hs hstep hc with hc | ⟨g, -, -, hsp⟩
    · rcases hR.stored h c hc with ⟨g, hsp⟩ | hpub | hu
      · exact (spawn_next hs.tasks hstep hsp).imp (fun h => ⟨g, h⟩) .inl
      · exact .inr (publish_next hs.tasks hstep hpub)
      · rcases writerDb_next hstep hu with hu | ⟨j, rfl, hj, hu'⟩
        · exact .inr (.inr hu)
        · -- the stored task has published, so the condition leaves only itself
          rcases hC h (by rw [hj]; rfl) c hc with rfl | hne
          · exact .inr (.inr hu')
          · exact absurd (hs.sockets.writerDb h c hu).2.1 hne
    · exact .inl ⟨g, hsp⟩
  spawned i h hh hi := by
    have hkeep : (∃ c, s.storedChannel h = some c) → ∃ c, t.storedChannel h = some c :=
      fun ⟨c, hc⟩ => storedChannel_mono hstep hc
    rcases hi with hi | ⟨g, hg⟩
    · rcases sender_cases hstep hi with hi | ⟨hk, g, hg⟩
      · obtain ⟨hk, hh'⟩ := hs.tasks.exists_handshake (.inr hi)
        obtain rfl : hk = h := handshake_unique hs.tasks hstep hh' hh
        exact hkeep (hR.spawned i hk hh' (.inl hi))
      · have hh' := hs.tasks.handshake_of_arg (i := i) (h := hk) (by rw [hg]; rfl)
        obtain rfl : hk = h := handshake_unique hs.tasks hstep hh' hh
        exact hkeep (hR.spawned i hk hh' (.inr ⟨g, hg⟩))
    · rcases spawn_cases hs.tasks hstep hg with hg' | hj
      · have hh' := hs.tasks.handshake_of_arg (i := i) (h := h) (by rw [hg']; rfl)
        exact hkeep (hR.spawned i h hh' (.inr ⟨g, hg'⟩))
      · -- the task has just stored its own channel
        exact ⟨i, storedChannel_of_joins hs hstep hj hg⟩

theorem RegistryOk.init : Server.init.RegistryOk where
  stored h c hc := by simp [storedChannel, Server.init] at hc
  spawned i h hh := by cases hh

theorem RegistryOk.agrees (hs : s.Wf) (hR : s.RegistryOk) : s.RegistryAgrees := by
  intro hfin h ⟨i, hh, hi⟩
  obtain ⟨c, hc⟩ := hR.spawned i h hh (.inl hi)
  have hlt := hs.tasks.lt_of_handshake (handshake_of_stored hs hc)
  have hu : s.writerDb.lookup h = some c := by
    -- a task that has yet to publish has not finished
    rcases hR.stored h c hc with ⟨g, hg⟩ | hp | hu
    · cases (hfin c hlt).symm.trans hg
    · cases (hfin c hlt).symm.trans hp
    · exact hu
  obtain ⟨x, hx, hcx⟩ := storedChannel_eq_some.mp hc
  have hheld : s.Held c := .inl ⟨x, mem_channels.mpr ⟨_, hcx⟩⟩
  exact ⟨c, hc, hu, (hs.sockets.writerDb h c hu).2.2, hs.tables.running c hheld⟩

/-- In a run in which no task overrules a stored one that has already put its updater in, the
tables agree in every state in which all handshake tasks have finished. -/
theorem registryAgrees_of_along {as : List ServerAction}
    (hC : serverSystem.Along PublishesInOrder .init as) :
    serverSystem.Always RegistryAgrees .init as :=
  System.always_of_along (I := fun s => s.Wf ∧ s.RegistryOk)
    (fun _ _ _ hs hC h =>
      ⟨wf_step hs.1 (step_cases h), registryOk_step hs.1 hs.2 hC (step_cases h)⟩)
    (fun _ hs => hs.2.agrees hs.1) ⟨.init, .init⟩ hC

/-- Two crossing handshakes of one client whose tasks put their updaters in in the order in
which they have stored their channels. -/
theorem registryAgrees_orderly : serverSystem.Always RegistryAgrees .init
    [.accept, .handshake 0 ⟨"a", "g"⟩, .handle 0, .handle 0, .handle 0, .handle 0, .handle 0,
      .accept, .handshake 1 ⟨"a", "g"⟩, .handle 1, .handle 1, .handle 1, .handle 1, .handle 0,
      .handle 1] :=
  registryAgrees_of_along (by decide +kernel)

/-- A client that connects a second time before its first handshake has finished. The second
task stores its channel and its updater, then the first one its updater. -/
def crossingHandshakes : List ServerAction :=
  [.accept, .handshake 0 ⟨"a", "g"⟩, .handle 0, .handle 0, .handle 0, .handle 0, .handle 0,
    .accept, .handshake 1 ⟨"a", "g"⟩, .handle 1, .handle 1, .handle 1, .handle 1, .handle 1,
    .handle 0]

theorem registry_disagrees : ¬ serverSystem.Always RegistryAgrees .init crossingHandshakes := by
  intro hP
  have hrun : ((serverSystem.run .init crossingHandshakes).map fun s =>
      (s.accepted, s.handler 0, s.handler 1, s.handshake 0, s.sender 0,
        s.storedChannel ⟨"a", "g"⟩, (s.writerDb.lookup ⟨"a", "g"⟩ : Option ℕ))) =
      some (2, .finished, .finished, some ⟨"a", "g"⟩, .starting, some 1, some 0) := by
    rfl
  obtain ⟨t, ht, hobs⟩ := Option.map_eq_some_iff.mp hrun
  simp only [Prod.mk.injEq] at hobs
  obtain ⟨hacc, h0, h1, hh, hsnd, hst, hu⟩ := hobs
  have hfin : ∀ i, i < t.accepted → t.handler i = .finished := by
    intro i hi
    rcases by omega with rfl | rfl : i = 0 ∨ i = 1
    · exact h0
    · exact h1
  obtain ⟨c, hc, hcu, -⟩ := hP.last ht hfin ⟨"a", "g"⟩ ⟨0, hh, by simp [hsnd]⟩
  rw [hst] at hc
  rw [hu] at hcu
  cases hc.trans hcu.symm

end Server

end SignalSim.Mgen
