import SignalSim.Mgen.Server.Tasks

/-!
# The group tables

What is in `snd_db`, in the tables it leads to and in the receivers' copies of these is
there under the right name, and a sender whose channel somebody holds does not panic.

## Main definitions

* `Server.Held` — somebody holds a sending end of a channel
* `Server.Tables` — the invariant of the tables

## Main results

* `Server.tables_step` — every step preserves it
-/

namespace SignalSim.Mgen

open Function (update update_self update_of_ne)

namespace Server

variable {s t : Server} {a : ServerAction} {i : ℕ}

/-! ### Where things come from -/

theorem sndDb_cases (h : Step s a t) {g : ID} {x : ℕ} (hg : t.sndDb.lookup g = some x) :
    s.sndDb.lookup g = some x ∨ ∃ hk, s.handler x = .createGroup hk ∧ hk.group = g := by
  cases h with
  | @enterGroup j hk hj =>
    simp only [Server.enterGroup] at hg
    split at hg
    · exact .inl hg
    · by_cases hgk : g = hk.group
      · subst hgk
        rw [AList.lookup_insert, Option.some_inj] at hg
        exact .inr ⟨hk, hg ▸ hj, rfl⟩
      · rw [AList.lookup_insert_ne hgk] at hg
        exact .inl hg
  | _ => exact .inl hg

/-- A handshake task is about to put its channel into a table. -/
def Joins (s : Server) (i : ℕ) (h : Handshake) (g : ℕ) : Prop :=
  s.handler i = .joinGroup h g ∨ s.handler i = .joinNewGroup h g

theorem groupSnds_cases (h : Step s a t) {x c : ℕ} {r : ID}
    (hc : (t.groupSnds x).lookup r = some c) :
    (s.groupSnds x).lookup r = some c ∨
      ∃ hk, a = .handle c ∧ s.Joins c hk x ∧ hk.sender = r ∧ t.handler c = .spawn hk x := by
  have joined : ∀ {j g hk}, a = .handle j → s.Joins j hk g → t.handler j = .spawn hk g →
      t.groupSnds = update s.groupSnds g ((s.groupSnds g).insert hk.sender j) →
      (s.groupSnds x).lookup r = some c ∨
        ∃ hk, a = .handle c ∧ s.Joins c hk x ∧ hk.sender = r ∧ t.handler c = .spawn hk x := by
    intro j g hk ha hj ht htab
    rw [htab] at hc
    by_cases hx : x = g
    · subst hx
      rw [update_self] at hc
      by_cases hr : r = hk.sender
      · -- the entry that has just been made
        subst hr
        rw [AList.lookup_insert, Option.some_inj] at hc
        subst hc
        exact .inr ⟨hk, ha, hj, rfl, ht⟩
      · rw [AList.lookup_insert_ne hr] at hc
        exact .inl hc
    · rw [update_of_ne hx] at hc
      exact .inl hc
  cases h with
  | joinGroup hj => exact joined rfl (.inl hj) (update_self ..) rfl
  | joinNewGroup hj => exact joined rfl (.inr hj) (update_self ..) rfl
  | _ => exact .inl hc

theorem handlerGroup_cases (hs : s.Tasks) (h : Step s a t) {x : ℕ}
    (hx : (t.handler i).group? = some x) :
    (s.handler i).group? = some x ∨
      ∃ hk, (s.handler i).arg? = some hk ∧ t.sndDb.lookup hk.group = some x := by
  rcases handler_cases hs h i with he | ⟨p, q, hp, hq, hn⟩
  · exact .inl (he ▸ hx)
  · rw [hq] at hx
    rw [hp]
    cases hn with
    | @findGroup hk g hg =>
      obtain rfl := Option.some_inj.mp hx
      exact .inr ⟨hk, rfl, sndDb_mono h hg⟩
    | @enterGroup hk g hg =>
      obtain rfl := Option.some_inj.mp hx
      exact .inr ⟨hk, rfl, hg⟩
    | joinGroup | joinNewGroup => exact .inl hx
    | _ => cases hx

theorem mem_channels {db : GroupSnds} {c : ℕ} :
    c ∈ db.channels ↔ ∃ r, db.lookup r = some c := by
  simp [GroupSnds.channels, AList.mem_lookup_iff, ← Option.mem_def]

theorem mem_channels_of_mem_messageChannels {db : GroupSnds} {sender : ID} {c : ℕ}
    (h : c ∈ db.messageChannels sender) : c ∈ db.channels := by
  simp only [GroupSnds.messageChannels, GroupSnds.channels, List.mem_map] at h ⊢
  obtain ⟨e, he, rfl⟩ := h
  exact ⟨e, List.mem_of_mem_filter he, rfl⟩

/-- A receiver forwards to channels of its copy of the table, or goes on receiving. -/
theorem dispatch_cases (sender group : ID) (db : GroupSnds) (m : MessageHeader) :
    dispatch sender group db m = .panicked ∨ dispatch sender group db m = .receiving db ∨
      ∃ cs, cs ≠ [] ∧ dispatch sender group db m = .forwarding db m cs ∧
        ∀ c ∈ cs, c ∈ db.channels := by
  cases hb : m.body with
  | size _ =>
    simp only [dispatch, hb]
    split_ifs
    · exact .inl rfl
    · exact .inl rfl
    · split
      · exact .inr (.inl rfl)
      case h_2 hne =>
        refine .inr (.inr ⟨_, hne, rfl, fun c hc => ?_⟩)
        exact mem_channels_of_mem_messageChannels hc
  | receipt =>
    simp only [dispatch, hb]
    split_ifs
    · exact .inl rfl
    · split
      · exact .inl rfl
      case h_2 c hc =>
        refine .inr (.inr ⟨[c], by simp, rfl, fun d hd => ?_⟩)
        rw [List.mem_singleton.mp hd]
        exact mem_channels.mpr ⟨_, hc⟩

/-- The next state of a receiver. -/
inductive ReceiverNext (s : Server) (i : ℕ) : ServerAction → ReceiverTask → ReceiverTask → Prop
  | respawn {h u g a} : s.handler i = .known h u → s.sndDb.lookup h.group = some g →
      ReceiverNext s i a .absent (.spawned g)
  | spawn {h g a} : s.handler i = .spawn h g → ReceiverNext s i a .absent (.spawned g)
  | poll {g} : ReceiverNext s i (.poll i) (.spawned g) (.waiting g)
  | wake {g} : ReceiverNext s i .endRegistration (.waiting g) (.woken g)
  | snapshot {g db} : db.entries.Perm (s.groupSnds g).entries →
      ReceiverNext s i (.snapshot i db) (.woken g) (.receiving db)
  | read {h db m} : s.handshake i = some h →
      ReceiverNext s i (.read i m) (.receiving db) (dispatch h.sender h.group db m)
  | readError {db} : s.alive i = false → ReceiverNext s i (.readError i) (.receiving db) .ended
  | readMalformed {db bytes} : malformed bytes = true →
      ReceiverNext s i (.readMalformed i bytes) (.receiving db) .panicked
  | putFailed {db m c cs} : s.sender c = .panicked →
      ReceiverNext s i (.put i) (.forwarding db m (c :: cs)) .panicked
  | put {db m c d cs} : ReceiverNext s i (.put i) (.forwarding db m (c :: d :: cs))
      (.forwarding db m (d :: cs))
  | putLast {db m c} : ReceiverNext s i (.put i) (.forwarding db m [c]) (.receiving db)
  | terminate {r} : r.AtAwait = true → ReceiverNext s i (.terminate i) r .ended

/-- A step that moves one receiver on. -/
theorem receiverNext_of_update {j : ℕ} {p q : ReceiverTask}
    (ht : t.receiver = update s.receiver j q) (hp : s.receiver j = p)
    (hn : s.ReceiverNext j a p q) (i : ℕ) :
    t.receiver i = s.receiver i ∨
      ∃ p q, s.receiver i = p ∧ t.receiver i = q ∧ s.ReceiverNext i a p q := by
  rw [ht]
  by_cases hij : i = j
  · subst hij
    exact .inr ⟨p, q, hp, update_self .., hn⟩
  · exact .inl (update_of_ne hij ..)

theorem receiver_cases (hs : s.Tasks) (h : Step s a t) (i : ℕ) :
    t.receiver i = s.receiver i ∨
      ∃ p q, s.receiver i = p ∧ t.receiver i = q ∧ s.ReceiverNext i a p q := by
  cases h with
  | endRegistration _ =>
    -- the one step that moves several receivers
    cases hr : s.receiver i with
    | waiting g => exact .inr ⟨_, _, rfl, by simp [hr, ReceiverTask.wake], .wake⟩
    | _ => exact .inl (by simp [hr, ReceiverTask.wake])
  | @respawn j _ _ _ hj hg =>
    have hc := hs.conn j
    rw [ConnOk, hj] at hc
    exact receiverNext_of_update rfl hc.2.1 (.respawn hj hg) i
  | @spawnTasks j _ _ hj =>
    have hc := hs.conn j
    rw [ConnOk, hj] at hc
    exact receiverNext_of_update rfl hc.2.1 (.spawn hj) i
  | poll hj => exact receiverNext_of_update rfl hj .poll i
  | snapshot hj hp => exact receiverNext_of_update rfl hj (.snapshot hp) i
  | read hj hh => exact receiverNext_of_update rfl hj (.read hh) i
  | readError hj ha => exact receiverNext_of_update rfl hj (.readError ha) i
  | readMalformed hj hb => exact receiverNext_of_update rfl hj (.readMalformed hb) i
  | putFailed hj hp => exact receiverNext_of_update rfl hj (.putFailed hp) i
  | @put _ _ _ _ cs hj _ =>
    cases cs with
    | nil => exact receiverNext_of_update rfl hj .putLast i
    | cons d cs => exact receiverNext_of_update rfl hj .put i
  | terminate _ hj => exact receiverNext_of_update rfl rfl (.terminate hj) i
  | _ => exact .inl rfl

theorem receiverGroup_cases (hs : s.Tasks) (h : Step s a t) {x : ℕ}
    (hx : (t.receiver i).group? = some x) :
    (s.receiver i).group? = some x ∨ (s.handler i).group? = some x ∨
      ∃ hk, (s.handler i).arg? = some hk ∧ s.sndDb.lookup hk.group = some x := by
  rcases receiver_cases hs h i with he | ⟨p, q, hp, hq, hn⟩
  · exact .inl (he ▸ hx)
  · rw [hq] at hx
    rw [hp]
    cases hn with
    | @respawn hk u g _ hi hg =>
      obtain rfl := Option.some_inj.mp hx
      exact .inr (.inr ⟨hk, by rw [hi]; rfl, hg⟩)
    | spawn hi => exact .inr (.inl (by rw [hi]; exact hx))
    | poll | wake => exact .inl hx
    | @read hk db m _ =>
      rcases dispatch_cases hk.sender hk.group db m with hd | hd | ⟨cs, _, hd, _⟩ <;>
        rw [hd] at hx <;> cases hx
    | _ => cases hx

theorem db_cases (hs : s.Tasks) (h : Step s a t) {db : GroupSnds}
    (hdb : (t.receiver i).db? = some db) :
    (s.receiver i).db? = some db ∨
      ∃ g, a = .snapshot i db ∧ s.receiver i = .woken g ∧
        db.entries.Perm (s.groupSnds g).entries := by
  rcases receiver_cases hs h i with he | ⟨p, q, hp, hq, hn⟩
  · exact .inl (he ▸ hdb)
  · rw [hq] at hdb
    rw [hp]
    cases hn with
    | @snapshot g _ hperm =>
      obtain rfl := Option.some_inj.mp hdb
      exact .inr ⟨g, rfl, rfl, hperm⟩
    | @read hk db m _ =>
      rcases dispatch_cases hk.sender hk.group db m with hd | hd | ⟨cs, _, hd, _⟩ <;>
        rw [hd] at hdb
      · cases hdb
      · exact .inl hdb
      · exact .inl hdb
    | put | putLast => exact .inl hdb
    | _ => cases hdb

/-- Somebody holds a sending end of the channel. -/
def Held (s : Server) (c : ℕ) : Prop :=
  (∃ x, c ∈ (s.groupSnds x).channels) ∨ ∃ i db, (s.receiver i).db? = some db ∧ c ∈ db.channels

theorem held_cases (hs : s.Tasks) (h : Step s a t) {c : ℕ} (hc : t.Held c) :
    s.Held c ∨ ∃ hk x, s.Joins c hk x := by
  rcases hc with ⟨x, hx⟩ | ⟨i, db, hdb, hx⟩
  · obtain ⟨r, hr⟩ := mem_channels.mp hx
    rcases groupSnds_cases h hr with hr | ⟨hk, -, hj, -⟩
    · exact .inl (.inl ⟨x, mem_channels.mpr ⟨r, hr⟩⟩)
    · exact .inr ⟨hk, x, hj⟩
  · rcases db_cases hs h hdb with hdb | ⟨g, -, -, hp⟩
    · exact .inl (.inr ⟨i, db, hdb, hx⟩)
    · -- a copy holds what the table it was made of holds
      exact .inl (.inl ⟨g, (hp.map _).mem_iff.mp hx⟩)

/-- A sender panics only when nobody holds its channel. -/
theorem panicked_cases (h : Step s a t) {c : ℕ} (hc : t.sender c = .panicked) :
    s.sender c = .panicked ∨ s.sender c ≠ .absent ∧ s.channelOpen c = false := by
  cases h with
  | @channelClosed j _ hj _ ho =>
    by_cases hcj : c = j
    · subst hcj
      exact .inr ⟨by simp [hj], ho⟩
    · exact .inl (by simpa [update_of_ne hcj] using hc)
  | @spawnTasks j | @takeFirstSocket j | @takeNextSocket j | @takeMessage j | @written j
  | @writeError j =>
    by_cases hcj : c = j
    · simp [hcj] at hc
    · exact .inl (by simpa [update_of_ne hcj] using hc)
  | _ => exact .inl hc

/-- A receiver that forwards has just read the message, or is in the middle of it. -/
theorem forwarding_cases (hs : s.Tasks) (h : Step s a t) {db : GroupSnds} {m : MessageHeader}
    {cs : List ℕ} (hi : t.receiver i = .forwarding db m cs) :
    s.receiver i = .forwarding db m cs ∨
      (cs ≠ [] ∧ ∃ c, s.receiver i = .forwarding db m (c :: cs)) ∨
      ∃ hk, s.receiver i = .receiving db ∧ s.handshake i = some hk ∧ a = .read i m ∧
        dispatch hk.sender hk.group db m = .forwarding db m cs := by
  rcases receiver_cases hs h i with he | ⟨p, q, hp, hq, hn⟩
  · exact .inl (he ▸ hi)
  · rw [hi] at hq
    rw [hp]
    cases hn with
    | @read hk db' m' hh =>
      rcases dispatch_cases hk.sender hk.group db' m' with hd | hd | ⟨cs', _, hd, _⟩
      · cases hq.trans hd
      · cases hq.trans hd
      · cases hq.trans hd
        exact .inr (.inr ⟨hk, rfl, hh, rfl, hd⟩)
    | @put _ _ c _ _ =>
      cases hq
      exact .inr (.inl ⟨by simp, c, rfl⟩)
    | _ => cases hq

/-! ### The tables -/

/-- What is in the tables, and in the receivers' copies of them, is there under the right
name, and the sender behind a channel that somebody holds is running. -/
structure Tables (s : Server) : Prop where
  group : ∀ g x, s.sndDb.lookup g = some x → ∃ h, s.handshake x = some h ∧ h.group = g
  channel : ∀ x r c, (s.groupSnds x).lookup r = some c →
    ∃ h, s.handshake c = some h ∧ h.sender = r ∧ s.sndDb.lookup h.group = some x ∧
      (s.handler c).Inserted
  handlerGroup : ∀ i x, (s.handler i).group? = some x →
    ∃ h, s.handshake i = some h ∧ s.sndDb.lookup h.group = some x
  receiverGroup : ∀ i x, (s.receiver i).group? = some x →
    ∃ h, s.handshake i = some h ∧ s.sndDb.lookup h.group = some x
  copy : ∀ i db r c, (s.receiver i).db? = some db → db.lookup r = some c →
    ∃ h, s.handshake i = some h ∧ s.handshake c = some ⟨r, h.group⟩ ∧ (s.handler c).Inserted
  running : ∀ c, s.Held c → s.sender c ≠ .panicked
  rest : ∀ i db m cs, s.receiver i = .forwarding db m cs → cs ≠ [] ∧ ∀ c ∈ cs, c ∈ db.channels

theorem channelOpen_of_held (hs : s.Tasks) (hT : s.Tables) {c : ℕ} (hc : s.Held c) :
    s.channelOpen c = true := by
  simp only [channelOpen, List.any_eq_true, List.mem_range]
  rcases hc with ⟨x, hx⟩ | ⟨i, db, hdb, hx⟩
  · -- the table goes by the number of an accepted connection
    obtain ⟨r, hr⟩ := mem_channels.mp hx
    obtain ⟨h, -, -, hg, -⟩ := hT.channel x r c hr
    obtain ⟨h', hx', -⟩ := hT.group _ _ hg
    exact ⟨x, hs.lt_of_handshake hx', by simp [hx]⟩
  · have hi : s.receiver i ≠ .absent := by
      intro h0
      rw [h0] at hdb
      cases hdb
    obtain ⟨h, hh⟩ := hs.exists_handshake (.inl hi)
    exact ⟨i, hs.lt_of_handshake hh, by simp [hdb, hx]⟩

theorem sender_of_joins (hs : s.Tasks) {h : Handshake} {x : ℕ} (hj : s.Joins i h x) :
    s.sender i = .absent := by
  have hc := hs.conn i
  rcases hj with hj | hj <;> rw [ConnOk, hj] at hc <;> exact hc.2.2

/-- A task that is about to put its channel into a table knows its client and the table. -/
theorem args_of_joins {h : Handshake} {x : ℕ} (hj : s.Joins i h x) :
    (s.handler i).arg? = some h ∧ (s.handler i).group? = some x := by
  rcases hj with hj | hj <;> rw [hj] <;> exact ⟨rfl, rfl⟩

theorem tables_step (hs : s.Tasks) (hT : s.Tables) (h : Step s a t) : t.Tables where
  group g x hg := by
    rcases sndDb_cases h hg with hg | ⟨hk, hx, rfl⟩
    · obtain ⟨hk, hx, rfl⟩ := hT.group g x hg
      exact ⟨hk, handshake_mono hs h hx, rfl⟩
    · exact ⟨hk, handshake_mono hs h (hs.handshake_of_arg (by rw [hx]; rfl)), rfl⟩
  channel x r c hc := by
    rcases groupSnds_cases h hc with hc | ⟨hk, -, hj, rfl, hins⟩
    · obtain ⟨hk, hh, rfl, hg, hins⟩ := hT.channel x r c hc
      exact ⟨hk, handshake_mono hs h hh, rfl, sndDb_mono h hg, inserted_mono hs h hins⟩
    · obtain ⟨harg, hgrp⟩ := args_of_joins hj
      obtain ⟨hk', hh, hg⟩ := hT.handlerGroup c x hgrp
      obtain rfl : hk = hk' := Option.some_inj.mp ((hs.handshake_of_arg harg).symm.trans hh)
      exact ⟨hk, handshake_mono hs h hh, rfl, sndDb_mono h hg, hins ▸ trivial⟩
  handlerGroup i x hx := by
    rcases handlerGroup_cases hs h hx with hx | ⟨hk, ha, hg⟩
    · obtain ⟨hk, hh, hg⟩ := hT.handlerGroup i x hx
      exact ⟨hk, handshake_mono hs h hh, sndDb_mono h hg⟩
    · exact ⟨hk, handshake_mono hs h (hs.handshake_of_arg ha), hg⟩
  receiverGroup i x hx := by
    rcases receiverGroup_cases hs h hx with hx | hx | ⟨hk, ha, hg⟩
    · obtain ⟨hk, hh, hg⟩ := hT.receiverGroup i x hx
      exact ⟨hk, handshake_mono hs h hh, sndDb_mono h hg⟩
    · obtain ⟨hk, hh, hg⟩ := hT.handlerGroup i x hx
      exact ⟨hk, handshake_mono hs h hh, sndDb_mono h hg⟩
    · exact ⟨hk, handshake_mono hs h (hs.handshake_of_arg ha), sndDb_mono h hg⟩
  copy i db r c hdb hc := by
    rcases db_cases hs h hdb with hdb | ⟨g, -, hw, hp⟩
    · obtain ⟨hk, hi, hc, hins⟩ := hT.copy i db r c hdb hc
      exact ⟨hk, handshake_mono hs h hi, handshake_mono hs h hc, inserted_mono hs h hins⟩
    · obtain ⟨hk, hi, hg⟩ := hT.receiverGroup i g (by rw [hw]; rfl)
      rw [AList.perm_lookup hp] at hc
      obtain ⟨hk', hc', rfl, hg', hins⟩ := hT.channel g r c hc
      refine ⟨hk, handshake_mono hs h hi, handshake_mono hs h ?_, inserted_mono hs h hins⟩
      -- both groups lead to the table, which goes by one name only
      obtain ⟨hx, hx', hxg⟩ := hT.group _ _ hg
      obtain ⟨hy, hy', hyg⟩ := hT.group _ _ hg'
      obtain rfl : hx = hy := Option.some_inj.mp (hx'.symm.trans hy')
      rw [hc', ← hxg, hyg]
  running c hc := by
    intro hp
    -- whoever joins a table has no sender yet, and a held channel is open
    rcases panicked_cases h hp with hp | ⟨ha, ho⟩ <;>
      rcases held_cases hs h hc with hc | ⟨hk, x, hj⟩
    · exact hT.running c hc hp
    · rw [sender_of_joins hs hj] at hp
      cases hp
    · rw [channelOpen_of_held hs hT hc] at ho
      cases ho
    · exact ha (sender_of_joins hs hj)
  rest i db m cs hr := by
    rcases forwarding_cases hs h hr with hr | ⟨hne, c, hr⟩ | ⟨hk, -, -, -, hd⟩
    · exact hT.rest i db m cs hr
    · exact ⟨hne, fun d hd => (hT.rest i db m _ hr).2 d (List.mem_cons_of_mem c hd)⟩
    · rcases dispatch_cases hk.sender hk.group db m with hd' | hd' | ⟨cs', hne, hd', hcs⟩ <;>
        rw [hd'] at hd
      · cases hd
      · cases hd
      · obtain ⟨-, -, rfl⟩ := ReceiverTask.forwarding.inj hd
        exact ⟨hne, hcs⟩

theorem Tables.init : Server.init.Tables where
  group g x hg := by simp [Server.init] at hg
  channel x r c hc := by simp [Server.init] at hc
  handlerGroup i x hx := by cases hx
  receiverGroup i x hx := by cases hx
  copy i db r c hdb := by cases hdb
  running c _ := by simp [Server.init]
  rest i db m cs hr := by cases hr

end Server

end SignalSim.Mgen
