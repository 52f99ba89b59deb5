import Mathlib.Data.Rat.Defs
import SignalSim.Foundations.Keys
import SignalSim.Mnettools.CreateGroups

/-!
# The members of the groups

Who is in the groups that are created, and who lists them. The lists of the users are at all
times what the groups created so far add to them, group by group; as the groups have different
numbers, what a user lists of one group is what that group added.

## Main definitions

* `entries` — what a group adds to the list of a user
* `World.Consistent` — the lists are made of what the groups added
* `World.WellFormed` — what is expected of a group that was created

## Main results

* `createGroup_eq` — a group adds its entries
* `main_consistent` — the lists after a run
* `main_wellFormed` — every group that a run creates is well formed
-/

namespace SignalSim.Mnettools

variable {W : Type}

/-! ### One group -/

section Entries

variable {hour : W}

/-- The entries of sampled members: those of the user. -/
def sampledEntries (group : Group W) (silent : List ℕ) (pairs : List (ℕ × W)) (user : ℕ) :
    List (Group W × W) :=
  (pairs.filter fun p => p.1 = user ∧ p.1 ∉ silent).map fun p => (group, p.2)

/-- The entries of silent members. -/
def silentEntries (hour : W) (group : Group W) (silent : List ℕ) (user : ℕ) :
    List (Group W × W) :=
  (silent.filter (· = user)).map fun _ => (group, hour)

/-- What a group adds to the list of a user. -/
def entries [LE W] [DecidableLE W] (hour : W) (group : Group W) (silent : List ℕ) (user : ℕ) :
    List (Group W × W) :=
  if group.conversation.waits.all (hour ≤ ·) then []
  else sampledEntries group silent group.conversation.pairs user ++
    silentEntries hour group silent user

theorem foldl_append_silent (group : Group W) (silent : List ℕ) (lists : Lists W) :
    silent.foldl (fun lists user => lists.append user (group, hour)) lists =
      fun u => lists u ++ silentEntries hour group silent u := by
  induction silent generalizing lists with
  | nil =>
    funext u
    exact (List.append_nil _).symm
  | cons user silent ih =>
    rw [List.foldl_cons, ih]
    funext u
    by_cases heq : u = user
    · simp [Lists.append, silentEntries, heq]
    · simp [Lists.append, silentEntries, heq, Ne.symm heq]

/-- The loop over the members from the one at `done.length` on. -/
theorem foldlM_append_sampled (group : Group W) (silent : List ℕ) {users : List ℕ}
    {done rest : List W} (hwaits : group.conversation.waits = done ++ rest)
    (hlen : users.length = rest.length) (lists : Lists W) :
    (users.zipIdx done.length).foldlM (fun lists (user, i) =>
      if user ∉ silent then (group.conversation.waits[i]?).map fun wait =>
        Lists.append lists user (group, wait) else some lists) lists =
      some fun u => lists u ++ sampledEntries group silent (users.zip rest) u := by
  induction users generalizing done rest lists with
  | nil =>
    simp [sampledEntries]
  | cons user users ih =>
    obtain ⟨wait, rest, rfl⟩ : ∃ wait rest', rest = wait :: rest' := by
      cases rest with
      | nil => cases hlen
      | cons wait rest => exact ⟨wait, rest, rfl⟩
    have hget : group.conversation.waits[done.length]? = some wait := by
      rw [hwaits]
      simp
    have hwaits' : group.conversation.waits = (done ++ [wait]) ++ rest := by
      rw [hwaits, List.append_assoc, List.singleton_append]
    have hrest := ih hwaits' (Nat.succ.inj hlen)
    rw [List.length_append, List.length_singleton] at hrest
    rw [List.zipIdx_cons, List.foldlM_cons]
    by_cases hsilent : user ∈ silent
    · have hskip : (if user ∉ silent then (group.conversation.waits[done.length]?).map fun wait =>
          Lists.append lists user (group, wait) else some lists) = some lists :=
        if_neg (not_not_intro hsilent)
      have hpairs : ∀ u, sampledEntries group silent ((user :: users).zip (wait :: rest)) u =
          sampledEntries group silent (users.zip rest) u := by
        intro u
        simp [sampledEntries, hsilent]
      simp only [hskip, Option.bind_eq_bind, Option.bind_some, hrest, hpairs]
    · have hstep : (if user ∉ silent then (group.conversation.waits[done.length]?).map fun wait =>
          Lists.append lists user (group, wait) else some lists) =
            some (Lists.append lists user (group, wait)) := by
        rw [if_pos hsilent, hget]
        rfl
      simp only [hstep, Option.bind_eq_bind, Option.bind_some, hrest, Option.some_inj]
      funext u
      by_cases heq : u = user
      · simp [Lists.append, sampledEntries, heq, hsilent]
      · simp [Lists.append, sampledEntries, heq, Ne.symm heq]

/-- **Entries.** A group with a wait for each member adds its entries to the lists. -/
theorem createGroup_eq [LE W] [DecidableLE W] {group : Group W}
    (h : group.conversation.Balanced) (silent : List ℕ) (lists : Lists W) :
    createGroup hour group silent lists =
      some fun u => lists u ++ entries hour group silent u := by
  by_cases hidle : group.conversation.waits.all (hour ≤ ·)
  · simp only [createGroup, entries, if_pos hidle, List.append_nil]
  · have hwaits : group.conversation.waits = [] ++ group.conversation.waits := rfl
    have hsampled := foldlM_append_sampled group silent hwaits h lists
    rw [List.length_nil] at hsampled
    simp only [createGroup, entries, if_neg hidle, Option.bind_eq_bind, hsampled,
      Option.bind_some, foldl_append_silent, List.append_assoc]
    rfl

end Entries

/-! ### Padding -/

/-- The group is padded to its size with users who are not in it. -/
structure Created.Padded (hour : W) (users : List ℕ) (c : Created W) : Prop where
  conversation_eq : c.group.conversation = c.sampled.addSilentMembers hour c.silent
  formed : c.sampled.Formed c.sampled.size
  silent_subperm : c.silent.Subperm (users.filter (· ∉ c.sampled.users))
  length_eq : c.sampled.users.length + c.silent.length = c.sampled.size

namespace Created.Padded

variable {hour : W} {users : List ℕ} {c : Created W}

theorem users_eq (h : c.Padded hour users) :
    c.group.conversation.users = c.sampled.users ++ c.silent := by
  rw [h.conversation_eq, Conversation.addSilentMembers]

theorem waits_eq (h : c.Padded hour users) : c.group.conversation.waits =
    c.sampled.waits ++ List.replicate c.silent.length hour := by
  rw [h.conversation_eq, Conversation.addSilentMembers]

theorem balanced (h : c.Padded hour users) : c.group.conversation.Balanced := by
  rw [Conversation.Balanced, h.users_eq, h.waits_eq, List.length_append, List.length_append,
    List.length_replicate, h.formed.balanced]

theorem pairs_eq (h : c.Padded hour users) : c.group.conversation.pairs =
    c.sampled.pairs ++ c.silent.zip (List.replicate c.silent.length hour) := by
  rw [Conversation.pairs, h.users_eq, h.waits_eq]
  exact List.zip_append h.formed.balanced

/-- A silent member was not sampled into the group. -/
theorem not_mem_sampled (h : c.Padded hour users) {u : ℕ} (hu : u ∈ c.silent) :
    u ∈ users ∧ u ∉ c.sampled.users := by
  have hmem := List.mem_filter.mp (h.silent_subperm.subset hu)
  exact ⟨hmem.1, of_decide_eq_true hmem.2⟩

theorem nodup_silent (h : c.Padded hour users) (husers : users.Nodup) : c.silent.Nodup := by
  obtain ⟨picked, hperm, hsub⟩ := h.silent_subperm
  exact hperm.nodup_iff.mp ((husers.filter _).sublist hsub)

/-- **Members.** They are different, and as many as the size says. -/
theorem nodup_users (h : c.Padded hour users) (husers : users.Nodup) :
    c.group.conversation.users.Nodup := by
  rw [h.users_eq]
  refine List.nodup_append.mpr ⟨h.formed.nodup, h.nodup_silent husers, ?_⟩
  rintro u hu v hv rfl
  exact (h.not_mem_sampled hv).2 hu

theorem length_users (h : c.Padded hour users) :
    c.group.conversation.users.length = c.group.conversation.size := by
  rw [h.users_eq, List.length_append, h.length_eq, h.conversation_eq]
  rfl

end Created.Padded

section Step

variable [LE W] [DecidableLE W] {hour : W} {sampler : Sampler} {users : List ℕ}

/-- What a pass of the loop creates. -/
theorem createNumbered_eq_some {w w' : World W} {g : Conversation ℕ W} (hg : g.Formed g.size)
    (h : createNumbered hour sampler users w g = some w') :
    ∃ c : Created W, c.sampled = g ∧ c.group.number = w.groupCount ∧ c.Padded hour users ∧
      w.create hour c = some w' := by
  unfold createNumbered at h
  by_cases hfull : g.size = g.users.length
  · rw [if_pos hfull] at h
    refine ⟨_, rfl, rfl, ?_, h⟩
    have hpad : g = g.addSilentMembers hour [] := by
      simp [Conversation.addSilentMembers]
    exact ⟨hpad, hg, List.nil_subperm, hfull.symm⟩
  · rw [if_neg hfull] at h
    obtain ⟨hle, h⟩ := Option.ite_none_left_eq_some.mp h
    obtain ⟨hcount, h⟩ := Option.ite_none_left_eq_some.mp h
    have hcount := Nat.le_of_not_lt hcount
    refine ⟨_, rfl, rfl, ?_, h⟩
    refine ⟨rfl, hg, sampler.subperm _ _ _ hcount, ?_⟩
    rw [sampler.length_eq _ _ _ hcount]
    exact Nat.add_sub_cancel' (Nat.le_of_not_lt hle)

end Step

/-! ### The lists -/

/-- The lists are made of the entries of the groups created so far, which are numbered. -/
structure World.Consistent [LE W] [DecidableLE W] (hour : W) (users : List ℕ) (w : World W) :
    Prop where
  lists_eq : ∀ u, w.lists u = w.created.flatMap fun c => entries hour c.group c.silent u
  numbers : w.created.map (·.group.number) = List.range w.groupCount
  padded : ∀ c ∈ w.created, c.Padded hour users

section Run

variable [LE W] [DecidableLE W] {hour : W} {sampler : Sampler} {users : List ℕ}

/-- A pass of the loop over the groups adds one group to the lists. -/
theorem World.Consistent.createNumbered {w w' : World W} (hw : w.Consistent hour users)
    {g : Conversation ℕ W} (hg : g.Formed g.size)
    (h : Mnettools.createNumbered hour sampler users w g = some w') :
    w'.Consistent hour users ∧
      w'.created.map Created.sampled = w.created.map Created.sampled ++ [g] := by
  obtain ⟨c, rfl, hnumber, hpadded, h⟩ := createNumbered_eq_some hg h
  rw [World.create, createGroup_eq hpadded.balanced] at h
  cases h
  refine ⟨⟨fun u => ?_, ?_, ?_⟩, ?_⟩
  · simp [hw.lists_eq u]
  · simp [hw.numbers, hnumber, List.range_succ]
  · intro d hd
    rcases List.mem_append.mp hd with hd | hd
    · exact hw.padded d hd
    · rw [List.mem_singleton.mp hd]
      exact hpadded
  · simp

/-- The loop over the groups of a size. -/
theorem World.Consistent.foldlM {w w' : World W} (hw : w.Consistent hour users)
    {grouped : List (Conversation ℕ W)} (hformed : ∀ g ∈ grouped, g.Formed g.size)
    (h : grouped.foldlM (Mnettools.createNumbered hour sampler users) w = some w') :
    w'.Consistent hour users ∧
      w'.created.map Created.sampled = w.created.map Created.sampled ++ grouped := by
  induction grouped generalizing w with
  | nil =>
    cases h
    exact ⟨hw, (List.append_nil _).symm⟩
  | cons g grouped ih =>
    rw [List.foldlM_cons] at h
    obtain ⟨w₁, hstep, h⟩ := Option.bind_eq_some_iff.mp h
    obtain ⟨hw₁, hcreated₁⟩ := hw.createNumbered (hformed g List.mem_cons_self) hstep
    obtain ⟨hw', hcreated⟩ := ih hw₁ (fun d hd => hformed d (List.mem_cons_of_mem g hd)) h
    refine ⟨hw', ?_⟩
    rw [hcreated, hcreated₁, List.append_assoc, List.singleton_append]

/-- The loop over the sizes. -/
theorem World.Consistent.foldlM_sizes {samples : List (UserSample W)} {w w' : World W}
    (hw : w.Consistent hour users) {ns : List ℕ}
    (h : ns.foldlM (fun w size => do
      let grouped ← createGroups size (conversationsOf samples size)
      grouped.foldlM (Mnettools.createNumbered hour sampler users) w) w = some w') :
    w'.Consistent hour users ∧ w'.created.map Created.sampled = w.created.map Created.sampled ++
      ns.flatMap fun size => (createGroups size (conversationsOf samples size)).getD [] := by
  induction ns generalizing w with
  | nil =>
    cases h
    exact ⟨hw, (List.append_nil _).symm⟩
  | cons size ns ih =>
    rw [List.foldlM_cons] at h
    obtain ⟨w₁, hstep, h⟩ := Option.bind_eq_some_iff.mp h
    obtain ⟨grouped, hgrouped, hstep⟩ := Option.bind_eq_some_iff.mp hstep
    have hformed : ∀ g ∈ grouped, g.Formed g.size := by
      intro g hg
      have hform := createGroups_formed hgrouped g hg
      rwa [← hform.size_eq] at hform
    obtain ⟨hw₁, hcreated₁⟩ := hw.foldlM hformed hstep
    obtain ⟨hw', hcreated⟩ := ih hw₁ h
    refine ⟨hw', ?_⟩
    rw [hcreated, hcreated₁, List.flatMap_cons, hgrouped, Option.getD_some, List.append_assoc]

/-- **A run.** The lists are those the created groups make up, and these come from the loop
over the sampled conversations of their size. -/
theorem main_consistent {samples : List (UserSample W)} {w : World W}
    (h : main hour sampler samples = some w) :
    w.Consistent hour (List.range samples.length) ∧ w.created.map Created.sampled =
      (sizes samples).flatMap fun size =>
        (createGroups size (conversationsOf samples size)).getD [] := by
  have hstart : (⟨fun _ => [], 0, []⟩ : World W).Consistent hour
      (List.range samples.length) :=
    ⟨fun _ => rfl, rfl, fun c hc => absurd hc List.not_mem_nil⟩
  obtain ⟨hw, hcreated⟩ := hstart.foldlM_sizes h
  exact ⟨hw, hcreated⟩

end Run

/-! ### Who lists a group -/

section Listed

variable {hour : W} {users : List ℕ} {c : Created W} {u : ℕ}

/-- The waits of sampled members go to those who were sampled. -/
theorem sampledEntries_eq (h : c.Padded hour users) :
    sampledEntries c.group c.silent c.group.conversation.pairs u =
      (c.sampled.pairs.filter fun p => p.1 = u).map fun p => (c.group, p.2) := by
  have hsampled : c.sampled.pairs.filter (fun p => p.1 = u ∧ p.1 ∉ c.silent) =
      c.sampled.pairs.filter fun p => p.1 = u := by
    refine List.filter_congr fun p hp => ?_
    have hnot : p.1 ∉ c.silent := fun hmem =>
      (h.not_mem_sampled hmem).2 (List.of_mem_zip hp).1
    simp only [hnot, not_false_eq_true, and_true]
  have hsilent : (c.silent.zip (List.replicate c.silent.length hour)).filter
      (fun p => p.1 = u ∧ p.1 ∉ c.silent) = [] := by
    refine List.filter_eq_nil_iff.mpr fun p hp hboth => ?_
    exact (of_decide_eq_true hboth).2 (List.of_mem_zip hp).1
  rw [sampledEntries, h.pairs_eq, List.filter_append, hsampled, hsilent, List.append_nil]

theorem keys_pairs (h : c.Padded hour users) : c.sampled.pairs.map Prod.fst = c.sampled.users :=
  List.map_fst_zip (Nat.le_of_eq h.formed.balanced)

variable [LE W] [DecidableLE W]

theorem fst_of_mem_entries {group : Group W} {silent : List ℕ} {e : Group W × W}
    (he : e ∈ entries hour group silent u) : e.1 = group := by
  unfold entries at he
  split at he
  · cases he
  · rcases List.mem_append.mp he with he | he
    · obtain ⟨p, -, rfl⟩ := List.mem_map.mp he
      rfl
    · obtain ⟨v, -, rfl⟩ := List.mem_map.mp he
      rfl

/-- **Sampled members.** Their own wait, and nothing else. -/
theorem entries_of_sampled (h : c.Padded hour users)
    (hbusy : ¬ ∀ wait ∈ c.group.conversation.waits, hour ≤ wait) {p : ℕ × W}
    (hp : p ∈ c.sampled.pairs) :
    entries hour c.group c.silent p.1 = [(c.group, p.2)] := by
  have hnot : p.1 ∉ c.silent := fun hmem =>
    (h.not_mem_sampled hmem).2 (List.of_mem_zip hp).1
  have hone : c.sampled.pairs.filter (fun q => q.1 = p.1) = [p] := by
    refine filter_key_eq Prod.fst ?_ hp
    rw [keys_pairs h]
    exact h.formed.nodup
  have hsilent : silentEntries hour c.group c.silent p.1 = [] := by
    have hnone : c.silent.filter (fun v => v = p.1) = [] :=
      filter_key_eq_nil id fun v hv heq => hnot (heq ▸ hv)
    rw [silentEntries, hnone]
    rfl
  rw [entries, if_neg (by simpa using hbusy), sampledEntries_eq h, hone, hsilent]
  rfl

/-- **Silent members.** An hour, and nothing else. -/
theorem entries_of_silent (h : c.Padded hour users) (husers : users.Nodup)
    (hbusy : ¬ ∀ wait ∈ c.group.conversation.waits, hour ≤ wait) (hu : u ∈ c.silent) :
    entries hour c.group c.silent u = [(c.group, hour)] := by
  have hnone : c.sampled.pairs.filter (fun p => p.1 = u) = [] :=
    filter_key_eq_nil Prod.fst fun p hp heq =>
      (h.not_mem_sampled hu).2 (heq ▸ (List.of_mem_zip hp).1)
  have hone : c.silent.filter (fun v => v = u) = [u] := by
    refine filter_key_eq id ?_ hu
    rw [List.map_id]
    exact h.nodup_silent husers
  rw [entries, if_neg (by simpa using hbusy), sampledEntries_eq h, hnone, silentEntries, hone]
  rfl

/-- **Others.** Nothing. -/
theorem entries_of_not_mem (h : c.Padded hour users)
    (hu : u ∉ c.group.conversation.users) : entries hour c.group c.silent u = [] := by
  rw [h.users_eq, List.mem_append, not_or] at hu
  have hsampled : c.sampled.pairs.filter (fun p => p.1 = u) = [] :=
    filter_key_eq_nil Prod.fst fun p hp heq => hu.1 (heq ▸ (List.of_mem_zip hp).1)
  have hsilent : c.silent.filter (fun v => v = u) = [] :=
    filter_key_eq_nil id fun v hv heq => hu.2 (heq ▸ hv)
  rw [entries, sampledEntries_eq h, hsampled, silentEntries, hsilent]
  exact ite_self _

theorem entries_of_idle (hidle : ∀ wait ∈ c.group.conversation.waits, hour ≤ wait) :
    entries hour c.group c.silent u = [] := by
  rw [entries, if_pos (by simpa using hidle)]

end Listed

/-- What a user lists of a group. -/
def World.listed (w : World W) (u : ℕ) (group : Group W) : List (Group W × W) :=
  (w.lists u).filter (·.1.number = group.number)

/-- The groups of one size that are created. -/
theorem created_of_size {samples : List (UserSample W)} {w : World W}
    (hcreated : w.created.map Created.sampled = (sizes samples).flatMap fun size =>
      (createGroups size (conversationsOf samples size)).getD []) (size : ℕ) :
    (w.created.map Created.sampled).filter (·.size = size) =
      ((sizes samples).filter (· = size)).flatMap fun size =>
        (createGroups size (conversationsOf samples size)).getD [] := by
  rw [hcreated]
  refine filter_flatMap_key id (fun size _ g hg => ?_) size
  cases hgrouped : createGroups size (conversationsOf samples size) with
  | none =>
    rw [hgrouped] at hg
    cases hg
  | some grouped =>
    rw [hgrouped] at hg
    exact (createGroups_formed hgrouped g hg).size_eq

section WellFormed

variable [LE W] [DecidableLE W] {hour : W} {sampler : Sampler} {users : List ℕ}

/-- Only users are members of groups. -/
theorem mem_range_of_mem_users {samples : List (UserSample W)} {w : World W}
    (h : main hour sampler samples = some w) {c : Created W} (hc : c ∈ w.created) {user : ℕ}
    (hu : user ∈ c.group.conversation.users) : user ∈ List.range samples.length := by
  obtain ⟨hw, hcreated⟩ := main_consistent h
  have hpadded := hw.padded c hc
  rw [hpadded.users_eq, List.mem_append, ← keys_pairs hpadded] at hu
  rcases hu with hu | hu
  · obtain ⟨p, hp, rfl⟩ := List.mem_map.mp hu
    have hmem : c.sampled ∈ w.created.map Created.sampled := List.mem_map_of_mem hc
    rw [hcreated] at hmem
    obtain ⟨size, -, hmem⟩ := List.mem_flatMap.mp hmem
    cases hgrouped : createGroups size (conversationsOf samples size) with
    | none =>
      rw [hgrouped] at hmem
      cases hmem
    | some grouped =>
      rw [hgrouped] at hmem
      have hone := (createGroups_subperm hgrouped).subset (List.mem_flatMap.mpr ⟨_, hmem, hp⟩)
      obtain ⟨⟨s, user⟩, hs, hp⟩ := List.mem_flatMap.mp hone
      obtain ⟨q, -, rfl⟩ := List.mem_map.mp hp
      exact List.mem_range.mpr (List.snd_lt_of_mem_zipIdx hs)
  · exact (hpadded.not_mem_sampled hu).1

/-- What a user lists of a group is what the group added. -/
theorem World.Consistent.listed_eq {w : World W} (hw : w.Consistent hour users) {c : Created W}
    (hc : c ∈ w.created) (u : ℕ) : w.listed u c.group = entries hour c.group c.silent u := by
  have hone : w.created.filter (·.group.number = c.group.number) = [c] := by
    refine filter_key_eq (fun c : Created W => c.group.number) ?_ hc
    rw [hw.numbers]
    exact List.nodup_range
  rw [World.listed, hw.lists_eq, filter_flatMap_key (fun c : Created W => c.group.number)
    (fun d _ e he => congrArg Group.number (fst_of_mem_entries he)), hone]
  exact List.flatMap_singleton _ _

/-- What is expected of a group: as many different members as its size says, and in their lists
once with the waits they were sampled with, or an hour for silent members; nobody lists it if
everybody waits for an hour or more, and nobody else does in any case. -/
structure World.WellFormed (hour : W) (w : World W) (c : Created W) : Prop where
  length_eq : c.group.conversation.users.length = c.group.conversation.size
  nodup : c.group.conversation.users.Nodup
  users_eq : c.group.conversation.users = c.sampled.pairs.map Prod.fst ++ c.silent
  idle : (∀ wait ∈ c.group.conversation.waits, hour ≤ wait) → ∀ u, w.listed u c.group = []
  sampled : (¬ ∀ wait ∈ c.group.conversation.waits, hour ≤ wait) →
    ∀ p ∈ c.sampled.pairs, w.listed p.1 c.group = [(c.group, p.2)]
  silent : (¬ ∀ wait ∈ c.group.conversation.waits, hour ≤ wait) →
    ∀ u ∈ c.silent, w.listed u c.group = [(c.group, hour)]
  others : ∀ u, u ∉ c.group.conversation.users → w.listed u c.group = []

theorem World.Consistent.wellFormed {w : World W} (hw : w.Consistent hour users)
    (husers : users.Nodup) {c : Created W} (hc : c ∈ w.created) : w.WellFormed hour c := by
  have hpadded := hw.padded c hc
  constructor
  case length_eq => exact hpadded.length_users
  case nodup => exact hpadded.nodup_users husers
  case users_eq => rw [keys_pairs hpadded, hpadded.users_eq]
  case idle => exact fun hidle u => (hw.listed_eq hc u).trans (entries_of_idle hidle)
  case sampled =>
    exact fun hbusy p hp => (hw.listed_eq hc p.1).trans (entries_of_sampled hpadded hbusy hp)
  case silent =>
    exact fun hbusy u hu =>
      (hw.listed_eq hc u).trans (entries_of_silent hpadded husers hbusy hu)
  case others => exact fun u hu => (hw.listed_eq hc u).trans (entries_of_not_mem hpadded hu)

/-- **Groups.** Every group that is created is well formed, and the groups of a size have their
sampled members and waits from what was sampled for that size, each once. -/
theorem main_wellFormed {samples : List (UserSample W)} {w : World W}
    (h : main hour sampler samples = some w) :
    (∀ c ∈ w.created, w.WellFormed hour c) ∧
      ∀ size, (((w.created.map Created.sampled).filter (·.size = size)).flatMap
        Conversation.pairs).Subperm (conversationsOf samples size) := by
  obtain ⟨hw, hcreated⟩ := main_consistent h
  refine ⟨fun c hc => hw.wellFormed List.nodup_range hc, fun size => ?_⟩
  rw [created_of_size hcreated]
  by_cases hmem : size ∈ sizes samples
  · have hone : (sizes samples).filter (· = size) = [size] := by
      refine filter_key_eq id ?_ hmem
      rw [List.map_id]
      exact (sortedValues_pairwise _).nodup
    rw [hone, List.flatMap_singleton]
    cases hgrouped : createGroups size (conversationsOf samples size) with
    | none => exact List.nil_subperm
    | some grouped => exact createGroups_subperm hgrouped
  · have hnone : (sizes samples).filter (· = size) = [] :=
      filter_key_eq_nil id fun n hn heq => hmem (heq ▸ hn)
    rw [hnone]
    exact List.nil_subperm

end WellFormed

/-! ### A run -/

/-- The first of the users each time. -/
def firstUsers : Sampler where
  sample _ users count := users.take count
  length_eq _ _ _ h := List.length_take_of_le h
  subperm _ users count _ := (List.take_sublist count users).subperm

/-- Three users with a conversation for two each, of whom the first is sampled for two groups of
three as well. -/
def threeSamples : List (UserSample ℕ) :=
  [⟨1, [3, 3], [10, 20, 30], Nat.le_refl 3⟩, ⟨1, [], [4000], Nat.le_refl 1⟩,
    ⟨1, [], [50], Nat.le_refl 1⟩]

/-- Two users, of whom the first is sampled for two conversations. -/
def twoSamples : List (UserSample ℚ) :=
  [⟨2, [], [30, 10], Nat.le_refl 2⟩, ⟨1, [], [20], Nat.le_refl 1⟩]

/-- A group of two, and one of three with two silent members. -/
theorem main_wellFormed_threeSamples :
    ∃ w, main 3600 firstUsers threeSamples = some w ∧
      w.created.map (·.group.conversation.users) = [[2, 1], [0, 1, 2]] ∧
      (∀ c ∈ w.created, w.WellFormed 3600 c) ∧
      ∀ size, (((w.created.map Created.sampled).filter (·.size = size)).flatMap
        Conversation.pairs).Subperm (conversationsOf threeSamples size) := by
  have hmembers : (main 3600 firstUsers threeSamples).map
      (·.created.map (·.group.conversation.users)) = some [[2, 1], [0, 1, 2]] := by decide +kernel
  obtain ⟨w, hw, husers⟩ := Option.map_eq_some_iff.mp hmembers
  exact ⟨w, hw, husers, main_wellFormed hw⟩

end SignalSim.Mnettools
