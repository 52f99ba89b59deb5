import SignalSim.Mgen.Server.Model

/-!
# The tasks of a connection

Receiver and sender of a connection exist only once its handshake task has spawned them,
and a handshake task goes through its states in one direction.

## Main definitions

* `Server.ConnOk` — how the tasks of one connection hang together
* `Server.Tasks` — the same for all connections

## Main results

* `Server.tasks_step` — every step preserves it
-/

namespace SignalSim.Mgen

open Function (update update_self update_of_ne)

namespace HandshakeTask

/-- The handshake that a task has read. -/
def arg? : HandshakeTask → Option Handshake
  | absent | accepting | finished => none
  | checkWriterDb h | known h _ | handOver h _ | register h | joinGroup h _ | createGroup h
  | joinNewGroup h _ | spawn h _ | publish h => some h

/-- The group table that a task has found or made. -/
def group? : HandshakeTask → Option ℕ
  | joinGroup _ g | joinNewGroup _ g | spawn _ g => some g
  | _ => none

/-- The updater that a task has found. -/
def updater? : HandshakeTask → Option ℕ
  | known _ u | handOver _ u => some u
  | _ => none

/-- The task is past the insertion into a group table, if it ever makes one. -/
def Inserted : HandshakeTask → Prop
  | spawn _ _ | publish _ | finished => True
  | _ => False

end HandshakeTask

/-- The group table that a receiver has not cloned yet. -/
def ReceiverTask.group? : ReceiverTask → Option ℕ
  | spawned g | waiting g | woken g => some g
  | _ => none

/-- The socket that a sender works with. -/
def SenderTask.socket? : SenderTask → Option ℕ
  | idle k | writing k _ | reconnecting k _ => some k
  | _ => none

namespace Server

variable {s t : Server} {a : ServerAction} {i : ℕ}

/-- How the tasks of a connection hang together: the handshake task has recorded the
handshake it works on, and receiver and sender exist once it has spawned them. -/
def ConnOk (s : Server) (i : ℕ) : Prop :=
  match s.handler i with
  | .absent | .accepting =>
    s.handshake i = none ∧ s.receiver i = .absent ∧ s.sender i = .absent
  | .checkWriterDb h | .known h _ | .register h | .joinGroup h _ | .createGroup h
  | .joinNewGroup h _ | .spawn h _ =>
    s.handshake i = some h ∧ s.receiver i = .absent ∧ s.sender i = .absent
  | .handOver h _ => s.handshake i = some h ∧ s.sender i = .absent
  | .publish h => s.handshake i = some h ∧ s.sender i ≠ .absent
  | .finished => s.handshake i = none → s.receiver i = .absent ∧ s.sender i = .absent

/-- Connections that have not been accepted have no tasks, the others have what `ConnOk`
says. -/
structure Tasks (s : Server) : Prop where
  fresh : ∀ i, s.accepted ≤ i → s.handler i = .absent
  conn : ∀ i, s.ConnOk i

namespace Tasks

theorem lt (hs : s.Tasks) (hi : s.handler i ≠ .absent) : i < s.accepted :=
  Nat.lt_of_not_le fun h => hi (hs.fresh i h)

theorem handshake_of_arg (hs : s.Tasks) {h : Handshake} (hi : (s.handler i).arg? = some h) :
    s.handshake i = some h := by
  have hc := hs.conn i
  unfold ConnOk at hc
  split at hc <;> simp_all [HandshakeTask.arg?]

theorem lt_of_handshake (hs : s.Tasks) {h : Handshake} (hi : s.handshake i = some h) :
    i < s.accepted := by
  apply hs.lt
  intro h0
  have hc := hs.conn i
  rw [ConnOk, h0] at hc
  rw [hc.1] at hi
  cases hi

theorem exists_handshake (hs : s.Tasks) (hi : s.receiver i ≠ .absent ∨ s.sender i ≠ .absent) :
    ∃ h, s.handshake i = some h := by
  have hc := hs.conn i
  unfold ConnOk at hc
  cases h0 : s.handshake i with
  | some h => exact ⟨h, rfl⟩
  | none => split at hc <;> simp_all

/-- A step that touches the tasks of one connection only. -/
theorem of_local (hs : s.Tasks) (i : ℕ) (hi : s.handler i ≠ .absent)
    (hacc : t.accepted = s.accepted)
    (hne : ∀ j, j ≠ i → t.handler j = s.handler j ∧ t.handshake j = s.handshake j ∧
      t.receiver j = s.receiver j ∧ t.sender j = s.sender j)
    (hok : t.ConnOk i) : t.Tasks := by
  constructor
  · intro j hj
    rw [hacc] at hj
    have hji : j ≠ i := by
      rintro rfl
      exact hi (hs.fresh j hj)
    rw [(hne j hji).1]
    exact hs.fresh j hj
  · intro j
    by_cases hji : j = i
    · exact hji ▸ hok
    · obtain ⟨h1, h2, h3, h4⟩ := hne j hji
      unfold ConnOk
      rw [h1, h2, h3, h4]
      exact hs.conn j

/-- A step that touches the receiver of one connection only. -/
theorem of_receiver (hs : s.Tasks) (i : ℕ) (hi : s.receiver i ≠ .absent)
    (hacc : t.accepted = s.accepted) (hh : t.handler = s.handler)
    (hk : t.handshake = s.handshake) (hsn : t.sender = s.sender)
    (hne : ∀ j, j ≠ i → t.receiver j = s.receiver j) : t.Tasks := by
  have hc := hs.conn i
  refine hs.of_local i (fun h0 => ?_) hacc (fun j hj => ?_) ?_
  · -- a connection with a receiver has a handshake task
    rw [ConnOk, h0] at hc
    exact hi hc.2.1
  · exact ⟨congrFun hh j, congrFun hk j, hne j hj, congrFun hsn j⟩
  · unfold ConnOk at hc ⊢
    rw [hh, hk, hsn]
    split at hc <;> simp_all

/-- A step that touches the sender of one connection only. -/
theorem of_sender (hs : s.Tasks) (i : ℕ) (hi : s.sender i ≠ .absent)
    (hacc : t.accepted = s.accepted) (hh : t.handler = s.handler)
    (hk : t.handshake = s.handshake) (hr : t.receiver = s.receiver)
    (hne : ∀ j, j ≠ i → t.sender j = s.sender j) (hti : t.sender i ≠ .absent) : t.Tasks := by
  have hc := hs.conn i
  refine hs.of_local i (fun h0 => ?_) hacc (fun j hj => ?_) ?_
  · rw [ConnOk, h0] at hc
    exact hi hc.2.2
  · exact ⟨congrFun hh j, congrFun hk j, congrFun hr j, hne j hj⟩
  · unfold ConnOk at hc ⊢
    rw [hh, hk, hr]
    split at hc <;> simp_all

theorem init : Server.init.Tasks := ⟨fun _ _ => rfl, fun _ => ⟨rfl, rfl, rfl⟩⟩

end Tasks

theorem tasks_step (hs : s.Tasks) (h : Step s a t) : t.Tasks := by
  cases h with
  | accept =>
    have hc := hs.conn s.accepted
    rw [ConnOk, hs.fresh s.accepted (Nat.le_refl _)] at hc
    constructor
    · intro j hj
      have hne : j ≠ s.accepted := by
        rintro rfl
        exact absurd hj (Nat.not_succ_le_self _)
      exact (update_of_ne hne _ _).trans (hs.fresh j (Nat.le_of_succ_le hj))
    · intro j
      by_cases hj : j = s.accepted
      · subst hj
        simpa only [ConnOk, Server.accept, update_self] using hc
      · simpa only [ConnOk, Server.accept, update_of_ne hj] using hs.conn j
  | endRegistration _ =>
    refine ⟨hs.fresh, fun j => ?_⟩
    have hc := hs.conn j
    unfold ConnOk at hc ⊢
    simp only [endRegistration]
    split at hc <;> simp_all [ReceiverTask.wake]
  | @handshake i _ hi | @refuse i hi | @findUpdater i _ _ hi _ | @register i _ hi _ _
  | @lateRegistration i _ hi _ _ | @respawn i _ _ _ hi _ | @missGroup i _ _ hi _
  | @sendSocket i _ _ hi | @findGroup i _ _ hi _ | @findNoGroup i _ hi _
  | @joinGroup i _ _ hi | @enterGroup i _ hi | @joinNewGroup i _ _ hi | @spawnTasks i _ _ hi
  | @publish i _ hi _ =>
    have hc := hs.conn i
    rw [ConnOk, hi] at hc
    refine hs.of_local i (by simp [hi]) rfl (fun j hj => ?_) ?_
    · simp [update_of_ne hj]
    · simp_all [ConnOk]
  | @poll i _ hi | @snapshot i _ _ hi _ | @read i _ _ _ hi _ | @readError i _ hi _
  | @readMalformed i _ _ hi _ | @putFailed i _ _ _ _ hi _ | @put i _ _ _ _ hi _ =>
    exact hs.of_receiver i (by simp [hi]) rfl rfl rfl rfl fun j hj => update_of_ne hj _ _
  | @terminate i _ hi =>
    refine hs.of_receiver i (fun h0 => ?_) rfl rfl rfl rfl fun j hj => update_of_ne hj _ _
    rw [h0] at hi
    cases hi
  | @takeFirstSocket i _ hi _ | @takeNextSocket i _ _ _ hi _ | @takeMessage i _ _ _ _ hi _
  | @channelClosed i _ hi _ _ | @written i _ _ hi | @writeError i _ _ hi _ =>
    refine hs.of_sender i (by simp [hi]) rfl rfl rfl rfl (fun j hj => update_of_ne hj _ _) ?_
    simp
  | disconnect => exact ⟨hs.fresh, hs.conn⟩

/-! ### What only grows -/

theorem handshake_mono (hs : s.Tasks) (h : Step s a t) {hk : Handshake}
    (hi : s.handshake i = some hk) : t.handshake i = some hk := by
  cases h with
  | @handshake j _ hj =>
    have hc := hs.conn j
    rw [ConnOk, hj] at hc
    have hne : i ≠ j := by
      rintro rfl
      rw [hc.1] at hi
      cases hi
    exact (update_of_ne hne _ _).trans hi
  | _ => exact hi

/-- The handshake that is read on a connection is read once. -/
theorem handshake_unique (hs : s.Tasks) (h : Step s a t) {hk hk' : Handshake}
    (hi : s.handshake i = some hk) (ht : t.handshake i = some hk') : hk = hk' :=
  Option.some_inj.mp ((handshake_mono hs h hi).symm.trans ht)

theorem sndDb_mono (h : Step s a t) {g : ID} {x : ℕ} (hg : s.sndDb.lookup g = some x) :
    t.sndDb.lookup g = some x := by
  cases h with
  | @enterGroup j hk hj =>
    simp only [Server.enterGroup]
    split
    · exact hg
    · -- a group that is there is not made again
      rw [AList.lookup_insert_ne]
      · exact hg
      · rintro rfl
        simp [hg] at *
  | _ => exact hg

theorem handshake_cases (h : Step s a t) {hk : Handshake} (hi : t.handshake i = some hk) :
    s.handshake i = some hk ∨ a = .handshake i hk := by
  cases h with
  | @handshake j hj _ =>
    by_cases hij : i = j
    · subst hij
      simp only [shakeHands, setHandler, update_self, Option.some_inj] at hi
      exact .inr (by rw [hi])
    · exact .inl (by simpa [hij] using hi)
  | _ => exact .inl hi

theorem phaseOver_cases (h : Step s a t) (hp : t.phaseOver = true) :
    s.phaseOver = true ∨ a = .endRegistration := by
  cases h with
  | endRegistration _ => exact .inr rfl
  | _ => exact .inl hp

theorem alive_cases (h : Step s a t) (hi : t.alive i = true) :
    s.alive i = true ∨ i = s.accepted := by
  cases h with
  | accept =>
    by_cases hj : i = s.accepted
    · exact .inr hj
    · exact .inl (by simpa [update_of_ne hj] using hi)
  | @refuse j | @lateRegistration j | @missGroup j | @disconnect j =>
    by_cases hj : i = j
    · simp [hj] at hi
    · exact .inl (by simpa [update_of_ne hj] using hi)
  | _ => exact .inl hi

theorem accepted_le (h : Step s a t) : s.accepted ≤ t.accepted := by
  cases h with
  | accept => exact Nat.le_succ _
  | _ => exact Nat.le_refl _

/-- A broken connection stays broken. -/
theorem broken_mono (h : Step s a t) (hi : i < s.accepted) (ha : s.alive i = false) :
    t.alive i = false := by
  by_contra ht
  rcases alive_cases h (by simpa using ht) with hs | rfl
  · cases ha.symm.trans hs
  · exact Nat.lt_irrefl _ hi

/-! ### How a handshake task goes on -/

/-- The next state of a handshake task, with what it finds in the tables of `s` or leaves in
those of `t`. -/
inductive Next (s t : Server) (i : ℕ) : HandshakeTask → HandshakeTask → Prop
  | accept : Next s t i .absent .accepting
  | shakeHands {h} : Next s t i .accepting (.checkWriterDb h)
  | refuse : Next s t i .accepting .finished
  | findUpdater {h u} : s.writerDb.lookup h = some u →
      Next s t i (.checkWriterDb h) (.known h u)
  | register {h} : s.writerDb.lookup h = none → Next s t i (.checkWriterDb h) (.register h)
  | lateRegistration {h} : Next s t i (.checkWriterDb h) .finished
  | respawn {h u} : Next s t i (.known h u) (.handOver h u)
  | missGroup {h u} : Next s t i (.known h u) .finished
  | sendSocket {h u} : Next s t i (.handOver h u) .finished
  | findGroup {h g} : s.sndDb.lookup h.group = some g →
      Next s t i (.register h) (.joinGroup h g)
  | findNoGroup {h} : Next s t i (.register h) (.createGroup h)
  | joinGroup {h g} : (t.groupSnds g).lookup h.sender = some i →
      Next s t i (.joinGroup h g) (.spawn h g)
  | enterGroup {h g} : t.sndDb.lookup h.group = some g →
      Next s t i (.createGroup h) (.joinNewGroup h g)
  | joinNewGroup {h g} : (t.groupSnds g).lookup h.sender = some i →
      Next s t i (.joinNewGroup h g) (.spawn h g)
  | spawnTasks {h g} : Next s t i (.spawn h g) (.publish h)
  | publish {h} : t.writerDb.lookup h = some i → Next s t i (.publish h) .finished

/-- A step that moves one handshake task on. -/
theorem next_of_update {j : ℕ} {p q : HandshakeTask} (ht : t.handler = update s.handler j q)
    (hp : s.handler j = p) (hn : s.Next t j p q) (i : ℕ) :
    t.handler i = s.handler i ∨
      ∃ p q, s.handler i = p ∧ t.handler i = q ∧ s.Next t i p q := by
  rw [ht]
  by_cases hij : i = j
  · subst hij
    exact .inr ⟨p, q, hp, update_self .., hn⟩
  · exact .inl (update_of_ne hij ..)

theorem handler_cases (hs : s.Tasks) (h : Step s a t) (i : ℕ) :
    t.handler i = s.handler i ∨
      ∃ p q, s.handler i = p ∧ t.handler i = q ∧ s.Next t i p q := by
  cases h with
  | accept => exact next_of_update rfl (hs.fresh _ (Nat.le_refl _)) .accept i
  | handshake hj => exact next_of_update rfl hj .shakeHands i
  | refuse hj => exact next_of_update rfl hj .refuse i
  | findUpdater hj hu => exact next_of_update rfl hj (.findUpdater hu) i
  | register hj hu _ => exact next_of_update rfl hj (.register hu) i
  | lateRegistration hj _ _ => exact next_of_update rfl hj .lateRegistration i
  | respawn hj _ => exact next_of_update rfl hj .respawn i
  | missGroup hj _ => exact next_of_update rfl hj .missGroup i
  | sendSocket hj => exact next_of_update rfl hj .sendSocket i
  | findGroup hj hg => exact next_of_update rfl hj (.findGroup hg) i
  | findNoGroup hj _ => exact next_of_update rfl hj .findNoGroup i
  | joinGroup hj => exact next_of_update rfl hj (.joinGroup (by simp)) i
  | @enterGroup _ hk hj =>
    -- the table is the one that was there, or the one that has just been made
    refine next_of_update rfl hj (.enterGroup ?_) i
    cases hl : s.sndDb.lookup hk.group <;> simp [hl]
  | joinNewGroup hj => exact next_of_update rfl hj (.joinNewGroup (by simp)) i
  | spawnTasks hj => exact next_of_update rfl hj .spawnTasks i
  | publish hj _ => exact next_of_update rfl hj (.publish (AList.lookup_insert _)) i
  | _ => exact .inl rfl

theorem inserted_mono (hs : s.Tasks) (h : Step s a t) (hi : (s.handler i).Inserted) :
    (t.handler i).Inserted := by
  rcases handler_cases hs h i with he | ⟨p, q, hp, hq, hn⟩
  · rwa [he]
  · cases hn <;> simp_all [HandshakeTask.Inserted]

theorem finished_mono (hs : s.Tasks) (h : Step s a t) (hi : s.handler i = .finished) :
    t.handler i = .finished := by
  rcases handler_cases hs h i with he | ⟨p, q, hp, hq, hn⟩
  · rwa [he]
  · cases hn <;> simp_all

/-- A sender was there before, or is being spawned by its handshake task. -/
theorem sender_cases (h : Step s a t) (hi : t.sender i ≠ .absent) :
    s.sender i ≠ .absent ∨ ∃ hk g, s.handler i = .spawn hk g := by
  cases h with
  | @spawnTasks j hk g hj =>
    by_cases hij : i = j
    · exact .inr ⟨hk, g, hij ▸ hj⟩
    · exact .inl (by simpa [update_of_ne hij] using hi)
  | @takeFirstSocket j _ hj | @takeNextSocket j _ _ _ hj | @takeMessage j _ _ _ _ hj
  | @channelClosed j _ hj | @written j _ _ hj | @writeError j _ _ hj =>
    left
    by_cases hij : i = j
    · simp [hij, hj]
    · simpa [update_of_ne hij] using hi
  | _ => exact .inl hi

theorem sender_mono (h : Step s a t) (hi : s.sender i ≠ .absent) : t.sender i ≠ .absent := by
  cases h with
  | @spawnTasks j | @takeFirstSocket j | @takeNextSocket j | @takeMessage j
  | @channelClosed j | @written j | @writeError j =>
    by_cases hij : i = j
    · simp [hij]
    · simpa [update_of_ne hij] using hi
  | _ => exact hi

end Server

end SignalSim.Mgen
