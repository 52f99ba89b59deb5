import SignalSim.Mgen.Server.Tables

/-!
# The invariant of the server

What holds in every state the server can reach, whatever the clients, the network and the
scheduler do.

## Main definitions

* `Server.Owns` — a sender has a connection's write half, or will get it
* `Server.Sockets` — updaters and sockets are with a sender of the right client
* `Server.Wf` — the whole invariant

## Main results

* `Server.wf_step` — every step preserves the invariant
-/

namespace SignalSim.Mgen

open Function (update update_self update_of_ne)

namespace Server

variable {s t : Server} {a : ServerAction} {i : ℕ}

/-! ### The sockets -/

/-- A socket is in the hands of a sender, or in its updater. -/
def Owns (s : Server) (j k : ℕ) : Prop :=
  (s.socketUpdater j).object = some k ∨ (s.sender j).socket? = some k

theorem writerDb_cases (h : Step s a t) {hk : Handshake} {u : ℕ}
    (hu : t.writerDb.lookup hk = some u) :
    s.writerDb.lookup hk = some u ∨ s.handler u = .publish hk ∧ t.handler u = .finished := by
  cases h with
  | @publish j hk' hj _ =>
    simp only [insertUpdater, setHandler] at hu ⊢
    by_cases hkk : hk = hk'
    · subst hkk
      rw [AList.lookup_insert, Option.some_inj] at hu
      subst hu
      exact .inr ⟨hj, update_self ..⟩
    · rw [AList.lookup_insert_ne hkk] at hu
      exact .inl hu
  | _ => exact .inl hu

theorem updater_cases (hs : s.Tasks) (h : Step s a t) {u : ℕ}
    (hu : (t.handler i).updater? = some u) :
    (s.handler i).updater? = some u ∨
      ∃ hk, s.handler i = .checkWriterDb hk ∧ s.writerDb.lookup hk = some u := by
  rcases handler_cases hs h i with he | ⟨p, q, hp, hq, hn⟩
  · exact .inl (he ▸ hu)
  · rw [hq] at hu
    rw [hp]
    cases hn with
    | @findUpdater hk v hv =>
      obtain rfl := Option.some_inj.mp hu
      exact .inr ⟨hk, rfl, hv⟩
    | respawn => exact .inl hu
    | _ => cases hu

/-- A socket comes to a sender from a handshake task of a known client, or from its own. -/
theorem owns_cases (h : Step s a t) {j k : ℕ} (ho : t.Owns j k) :
    s.Owns j k ∨ (∃ hk, s.handler k = .handOver hk j) ∨
      k = j ∧ ∃ hk g, s.handler j = .spawn hk g := by
  cases h with
  | @sendSocket l hk u hl =>
    by_cases hj : j = u
    · subst hj
      rcases ho with ho | ho
      · simp only [Server.sendSocket, update_self, Updater.send_object, Option.some_inj] at ho
        exact .inr (.inl ⟨hk, ho ▸ hl⟩)
      · exact .inl (.inr ho)
    · exact .inl (by simpa [Owns, update_of_ne hj] using ho)
  | @spawnTasks l hk g hl =>
    by_cases hj : j = l
    · subst hj
      rcases ho with ho | ho
      · simp only [Server.spawnTasks, update_self, Updater.send_object, Option.some_inj] at ho
        exact .inr (.inr ⟨ho.symm, hk, g, hl⟩)
      · simp [SenderTask.socket?] at ho
    · exact .inl (by simpa [Owns, update_of_ne hj] using ho)
  | @takeFirstSocket l k' hl hk | @takeNextSocket l _ _ k' hl hk =>
    by_cases hj : j = l
    · subst hj
      rcases ho with ho | ho
      · -- the updater is empty now
        simp at ho
      · simp only [takeSocket, setSender, update_self, SenderTask.socket?, Option.some_inj] at ho
        exact .inl (.inl (ho ▸ hk))
    · exact .inl (by simpa [Owns, update_of_ne hj] using ho)
  | @takeMessage l _ _ _ _ hl | @written l _ _ hl | @writeError l _ _ hl | @channelClosed l _ hl =>
    left
    by_cases hj : j = l
    · subst hj
      exact ho.imp id fun ho => by simp_all [SenderTask.socket?]
    · simpa [Owns, update_of_ne hj] using ho
  | _ => exact .inl ho

/-- Two connections carry the same client. -/
def SameClient (s : Server) (i j : ℕ) : Prop :=
  ∃ h, s.handshake i = some h ∧ s.handshake j = some h

/-- Updaters and sockets are with a sender of the same client. -/
structure Sockets (s : Server) : Prop where
  writerDb : ∀ h u, s.writerDb.lookup h = some u →
    s.handshake u = some h ∧ s.handler u = .finished ∧ s.sender u ≠ .absent
  updater : ∀ i u, (s.handler i).updater? = some u → s.SameClient i u ∧ s.sender u ≠ .absent
  owns : ∀ j k, s.Owns j k → s.SameClient k j

theorem SameClient.mono (hs : s.Tasks) (h : Step s a t) {j : ℕ} (hij : s.SameClient i j) :
    t.SameClient i j :=
  hij.imp fun _ hk => ⟨handshake_mono hs h hk.1, handshake_mono hs h hk.2⟩

theorem sockets_step (hs : s.Tasks) (hS : s.Sockets) (h : Step s a t) : t.Sockets where
  writerDb hk u hu := by
    rcases writerDb_cases h hu with hu | ⟨hp, hf⟩
    · obtain ⟨h1, h2, h3⟩ := hS.writerDb hk u hu
      exact ⟨handshake_mono hs h h1, finished_mono hs h h2, sender_mono h h3⟩
    · -- a task puts its updater in when its sender runs
      have hc := hs.conn u
      rw [ConnOk, hp] at hc
      exact ⟨handshake_mono hs h hc.1, hf, sender_mono h hc.2⟩
  updater i u hu := by
    rcases updater_cases hs h hu with hu | ⟨hk, hi, hu⟩
    · exact ⟨(hS.updater i u hu).1.mono hs h, sender_mono h (hS.updater i u hu).2⟩
    · obtain ⟨h1, -, h3⟩ := hS.writerDb hk u hu
      have hik : s.SameClient i u := ⟨hk, hs.handshake_of_arg (by rw [hi]; rfl), h1⟩
      exact ⟨hik.mono hs h, sender_mono h h3⟩
  owns j k ho := by
    rcases owns_cases h ho with ho | ⟨hk, hi⟩ | ⟨rfl, hk, g, hi⟩
    · exact (hS.owns j k ho).mono hs h
    · exact ((hS.updater k j (by rw [hi]; rfl)).1).mono hs h
    · have hh := hs.handshake_of_arg (i := k) (h := hk) (by rw [hi]; rfl)
      exact SameClient.mono hs h ⟨hk, hh, hh⟩

theorem Sockets.init : Server.init.Sockets where
  writerDb h u hu := by simp [Server.init] at hu
  updater i u hu := by cases hu
  owns j k ho := by rcases ho with ho | ho <;> cases ho

/-! ### The invariant -/

/-- What holds in every reachable state. -/
structure Wf (s : Server) : Prop where
  tasks : s.Tasks
  tables : s.Tables
  sockets : s.Sockets

theorem wf_step (hs : s.Wf) (h : Step s a t) : t.Wf :=
  ⟨tasks_step hs.tasks h, tables_step hs.tasks hs.tables h, sockets_step hs.tasks hs.sockets h⟩

theorem Wf.init : Server.init.Wf := ⟨.init, .init, .init⟩

/-- The sender behind a channel that a receiver is about to use is running. -/
theorem Wf.running_of_forwarding (hs : s.Wf) {db : GroupSnds} {m : MessageHeader} {c : ℕ}
    {cs : List ℕ} (hi : s.receiver i = .forwarding db m cs) (hc : c ∈ cs) :
    s.sender c ≠ .panicked := by
  have hmem := (hs.tables.rest i db m cs hi).2 c hc
  exact hs.tables.running c (.inr ⟨i, db, by rw [hi]; rfl, hmem⟩)

end Server

end SignalSim.Mgen
