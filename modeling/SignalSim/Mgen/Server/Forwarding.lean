import SignalSim.Mgen.Server.Registration

/-!
# Forwarding

What a receiver does with a message of its own client: a message with a size goes to every
other member in the receiver's copy of the table, a receipt to the member it names. A
receiver that is past its wait for the end of the registration phase can always read such a
message and put it on all these channels, by steps of its own.

## Main definitions

* `GroupSnds.targets` — the channels a message is meant for
* `Server.OwnMessage` — a message that the client of a connection may send
* `Server.CanForward` — the receiver of a connection can read a message and forward it

## Main results

* `Server.dispatch_of_own` — a receiver forwards an own message to its targets
* `Server.canForward_of_pastWait` — a receiver past its wait can forward every own message
-/

namespace SignalSim.Mgen

open Function (update update_self update_of_ne)

/-- The channels that a message of a sender is meant for. -/
def GroupSnds.targets (db : GroupSnds) (sender : ID) (m : MessageHeader) : List ℕ :=
  match m.body with
  | .size _ => db.messageChannels sender
  | .receipt => (db.lookup m.group).toList

/-- A message with the sender and group of its connection, or a receipt that names a member
in the table. -/
def GroupSnds.Admits (db : GroupSnds) (h : Handshake) (m : MessageHeader) : Prop :=
  m.sender = h.sender ∧
    match m.body with
    | .size _ => m.group = h.group
    | .receipt => (db.lookup m.group).isSome

instance (db : GroupSnds) (h : Handshake) (m : MessageHeader) : Decidable (db.Admits h m) :=
  match m with
  | ⟨_, _, _, .size _⟩ | ⟨_, _, _, .receipt⟩ => inferInstanceAs (Decidable (_ ∧ _))

/-- The receiver has been polled and has not come to an end. -/
def ReceiverTask.Polled : ReceiverTask → Prop
  | waiting _ | woken _ | receiving _ | forwarding _ _ _ => True
  | _ => False

/-- The action is a step of the receiver of the connection. -/
def ServerAction.OfReceiver (i : ℕ) : ServerAction → Prop
  | snapshot j _ | read j _ | put j => j = i
  | _ => False

namespace Server

variable {s t : Server} {i : ℕ} {db : GroupSnds} {h : Handshake} {m : MessageHeader}

theorem mem_channels_of_mem_targets {c : ℕ} {sender : ID} (hc : c ∈ db.targets sender m) :
    c ∈ db.channels := by
  unfold GroupSnds.targets at hc
  split at hc
  · exact mem_channels_of_mem_messageChannels hc
  · exact mem_channels.mpr ⟨_, Option.mem_toList.mp hc⟩

/-- A receiver that has read an own message forwards it to its targets. -/
theorem dispatch_of_own (hm : db.Admits h m) : dispatch h.sender h.group db m =
    if db.targets h.sender m = [] then .receiving db
    else .forwarding db m (db.targets h.sender m) := by
  obtain ⟨hs, hg⟩ := hm
  unfold GroupSnds.targets
  cases hb : m.body with
  | size n =>
    simp only [hb] at hg
    simp only [dispatch, hb, ne_eq, hs, hg, not_true_eq_false, if_false]
    cases db.messageChannels h.sender <;> rfl
  | receipt =>
    simp only [hb] at hg
    obtain ⟨c, hc⟩ := Option.isSome_iff_exists.mp hg
    simp [dispatch, hb, hs, hc]

/-- The table that the receiver of a connection works with, or is about to clone. -/
def view (s : Server) (i : ℕ) : Option GroupSnds :=
  match s.receiver i with
  | .woken g => some (s.groupSnds g)
  | r => r.db?

/-- A message that the client of the connection may send: one with the sender and group of
the connection, or a receipt that names a registered member. -/
def OwnMessage (s : Server) (i : ℕ) (m : MessageHeader) : Prop :=
  ∃ h ∈ s.handshake i, ∃ db ∈ s.view i, db.Admits h m

/-- By its own steps, the receiver of the connection can read the message, put it on every
channel it is meant for and be ready for the next one. -/
def CanForward (s : Server) (i : ℕ) (m : MessageHeader) : Prop :=
  ∃ as t h db, (∀ a ∈ as, ServerAction.OfReceiver i a) ∧ serverSystem.run s as = some t ∧
    s.handshake i = some h ∧ t.receiver i = .receiving db ∧
    t.received i = s.received i ++ [m] ∧
    ∀ c ∈ db.targets h.sender m, ∃ l, (t.channel c).log = (s.channel c).log ++ l ++ [(i, m)]

theorem step_put {c : ℕ} {cs : List ℕ} (hi : s.receiver i = .forwarding db m (c :: cs))
    (hc : s.sender c ≠ .panicked) : s.step (.put i) = some (s.forward i db m c cs) := by
  simp only [step, hi, if_neg hc]

theorem log_forward (s : Server) (i : ℕ) (db : GroupSnds) (m : MessageHeader) (c : ℕ)
    (cs : List ℕ) (d : ℕ) : ((s.forward i db m c cs).channel d).log =
      (s.channel d).log ++ if d = c then [(i, m)] else [] := by
  by_cases hd : d = c
  · subst hd
    simp
  · simp [hd]

theorem ofReceiver_replicate (i n : ℕ) :
    ∀ a ∈ List.replicate n (ServerAction.put i), a.OfReceiver i := by
  intro a ha
  rw [List.eq_of_mem_replicate ha]
  rfl

/-- The loop that forwards a message puts it on the channels that are left, one by one. -/
theorem run_put {c : ℕ} {cs : List ℕ} (hi : s.receiver i = .forwarding db m (c :: cs))
    (hc : ∀ d ∈ c :: cs, s.sender d ≠ .panicked) :
    ∃ t, serverSystem.run s (List.replicate (cs.length + 1) (.put i)) = some t ∧
      t.receiver i = .receiving db ∧ t.received = s.received ∧ t.handshake = s.handshake ∧
      t.sender = s.sender ∧ ∀ d, (t.channel d).log =
        (s.channel d).log ++ List.replicate ((c :: cs).count d) (i, m) := by
  have hstep := step_put hi (hc c List.mem_cons_self)
  induction cs generalizing s c with
  | nil =>
    refine ⟨s.forward i db m c [], ?_, by simp, rfl, rfl, rfl, fun d => ?_⟩
    · exact System.run_cons_eq_some.mpr ⟨_, hstep, rfl⟩
    · rw [log_forward]
      by_cases hd : d = c
      · simp [hd]
      · simp [hd, Ne.symm hd]
  | cons e cs ih =>
    obtain ⟨t, hrun, hrec, hred, hh, hsnd, hch⟩ :=
      ih (s := s.forward i db m c (e :: cs)) (c := e) (by simp)
        (fun d hd => hc d (List.mem_cons_of_mem c hd)) (step_put (by simp) (hc e (by simp)))
    refine ⟨t, ?_, hrec, hred, hh, hsnd, fun d => ?_⟩
    · exact System.run_cons_eq_some.mpr ⟨_, hstep, hrun⟩
    · rw [hch, log_forward]
      by_cases hd : d = c
      · simp [hd, List.count_cons, List.replicate_succ]
      · simp [hd, List.count_cons, Ne.symm hd]

/-- A receiver that waits for a message can read an own one and forward it. -/
theorem canForward_of_receiving (hs : s.Wf) (hi : s.receiver i = .receiving db)
    (hh : s.handshake i = some h) (hm : db.Admits h m) :
    ∃ as t, (∀ a ∈ as, ServerAction.OfReceiver i a) ∧ serverSystem.run s as = some t ∧
      t.receiver i = .receiving db ∧ t.received i = s.received i ++ [m] ∧
      ∀ d, (t.channel d).log =
        (s.channel d).log ++ List.replicate ((db.targets h.sender m).count d) (i, m) := by
  have hread : s.step (.read i m) = some (s.receive i m (dispatch h.sender h.group db m)) := by
    simp only [step, hi, hh]
  rw [dispatch_of_own hm] at hread
  cases hT : db.targets h.sender m with
  | nil =>
    rw [if_pos hT] at hread
    refine ⟨[.read i m], _, ?_, System.run_cons_eq_some.mpr ⟨_, hread, rfl⟩, ?_, ?_, ?_⟩
    · simp [ServerAction.OfReceiver]
    all_goals simp
  | cons c cs =>
    rw [if_neg (by simp [hT]), hT] at hread
    obtain ⟨t, hrun, hrec, hred, -, -, hch⟩ :=
      run_put (s := s.receive i m (.forwarding db m (c :: cs))) (m := m)
        (update_self ..) (fun d hd => hs.tables.running d (.inr ⟨i, db, by rw [hi]; rfl,
          mem_channels_of_mem_targets (hT ▸ hd)⟩))
    refine ⟨.read i m :: List.replicate (cs.length + 1) (.put i), t, ?_,
      System.run_cons_eq_some.mpr ⟨_, hread, hrun⟩, hrec, ?_, hch⟩
    · intro a ha
      obtain rfl | ha := List.mem_cons.mp ha
      · rfl
      · exact ofReceiver_replicate i _ a ha
    · rw [hred]
      simp

/-- A receiver past its wait for the end of the registration phase can forward every own
message. -/
theorem canForward_of_pastWait (hs : s.Wf) (hi : (s.receiver i).PastWait)
    (hm : s.OwnMessage i m) : s.CanForward i m := by
  obtain ⟨h, hh, db, hdb, hm⟩ := hm
  -- first the receiver gets to the point where it waits for the next message
  have ready : ∃ as u, (∀ a ∈ as, ServerAction.OfReceiver i a) ∧ serverSystem.run s as = some u ∧
      u.receiver i = .receiving db ∧ u.received = s.received ∧ u.handshake = s.handshake ∧
      u.Wf ∧ ∀ d, ∃ l, (u.channel d).log = (s.channel d).log ++ l := by
    cases hr : s.receiver i with
    | woken g =>
      obtain rfl : s.groupSnds g = db := by simpa [view, hr] using hdb
      have hstep : s.step (.snapshot i (s.groupSnds g)) =
          some (s.setReceiver i (.receiving (s.groupSnds g))) := by
        simp only [step, hr, List.Perm.refl, if_true]
      refine ⟨[.snapshot i (s.groupSnds g)], _, by simp [ServerAction.OfReceiver],
        System.run_cons_eq_some.mpr ⟨_, hstep, rfl⟩, by simp, rfl, rfl,
        wf_step hs (step_cases hstep), fun d => ⟨[], by simp⟩⟩
    | receiving db' =>
      obtain rfl : db' = db := by simpa [view, hr, ReceiverTask.db?] using hdb
      exact ⟨[], s, by simp, rfl, hr, rfl, rfl, hs, fun d => ⟨[], by simp⟩⟩
    | forwarding db' m' cs =>
      obtain rfl : db' = db := by simpa [view, hr, ReceiverTask.db?] using hdb
      cases cs with
      | nil => exact absurd rfl (hs.tables.rest i db' m' [] hr).1
      | cons c cs =>
        obtain ⟨u, hrun, hrec, hred, hhs, -, hch⟩ :=
          run_put hr fun d hd => hs.running_of_forwarding hr hd
        refine ⟨_, u, ofReceiver_replicate i _, hrun, hrec, hred, hhs, ?_, fun d => ⟨_, hch d⟩⟩
        · exact System.invariant (fun _ _ _ hs h => wf_step hs (step_cases h)) hs hrun
    | _ => simp [hr, ReceiverTask.PastWait] at hi
  obtain ⟨as, u, has, hrun, hrec, hred, hhs, hu, hlog⟩ := ready
  obtain ⟨bs, t, hbs, hrun', hrec', hred', hch⟩ :=
    canForward_of_receiving hu hrec (hhs ▸ hh) hm
  refine ⟨as ++ bs, t, h, db, ?_, ?_, hh, hrec', by rw [hred', hred], fun c hc => ?_⟩
  · intro a ha
    exact (List.mem_append.mp ha).elim (has a) (hbs a)
  · rw [System.run_append, hrun]
    exact hrun'
  · obtain ⟨l, hl⟩ := hlog c
    obtain ⟨n, hn⟩ := Nat.exists_eq_add_of_lt (List.count_pos_iff.mpr hc)
    refine ⟨l ++ List.replicate n (i, m), ?_⟩
    rw [hch, hl, hn, Nat.zero_add, List.replicate_succ']
    simp only [List.append_assoc]

end Server

end SignalSim.Mgen
