import SignalSim.Foundations.Counter
import SignalSim.Mnettools.Grouping

/-!
# Creating the groups

What `main` of `mnettools.py` and of `mnettortools.py` does with the conversations it has sampled:
for each size it groups them, pads the groups that are not full with silent members, numbers
the groups, and enters each into the conversation lists of its members, unless all of them
would wait for an hour or more. The users are numbered; what is random is a parameter.

## Main definitions

* `UserSample`, `conversationsOf` — what is sampled, by the size of the conversations
* `createGroup` — enters a group into the lists of its members
* `createNumbered`, `main` — pads, numbers and creates a group, and the loops over all of them

## Main results

* `createGroups_formed` — the groups of the loop have different members
* `createGroups_subperm` — they have what was sampled, and nothing twice
-/

namespace SignalSim.Mnettools

/-! ### The groups of the loop -/

namespace Conversation

variable {U W : Type}

/-- The members are different and have a wait each. -/
structure Formed (size : ℕ) (c : Conversation U W) : Prop where
  size_eq : c.size = size
  balanced : c.Balanced
  nodup : c.users.Nodup

theorem formed_new (size : ℕ) : (new size : Conversation U W).Formed size :=
  ⟨rfl, rfl, List.nodup_nil⟩

/-- A user who is not in a group can join it. -/
theorem Formed.merge_single {size : ℕ} {c : Conversation U W} (h : c.Formed size)
    {size' : ℕ} {p : U × W} (hp : p.1 ∉ c.users) :
    (c.merge (single size' p)).Formed size where
  size_eq := h.size_eq
  balanced := h.balanced.merge_single size' p
  nodup := by
    rw [merge, single, ← List.concat_eq_append]
    exact h.nodup.concat hp

end Conversation

namespace GroupLoop

variable {U W : Type}

/-- The groups so far are formed, and so is the current one. -/
structure Forming (size : ℕ) (s : GroupLoop U W) : Prop where
  valid : s.Valid
  group : s.group.Formed size
  grouped : ∀ g ∈ s.grouped, g.Formed size

theorem Forming.close {size : ℕ} {s : GroupLoop U W} (h : s.Forming size) :
    (s.close size).Forming size where
  valid := ⟨h.valid.single, rfl⟩
  group := Conversation.formed_new size
  grouped := by
    intro g hg
    rcases List.mem_append.mp hg with hg | hg
    · exact h.grouped g hg
    · rw [List.mem_singleton.mp hg]
      exact h.group

theorem Forming.closeFull {size : ℕ} {s : GroupLoop U W} (h : s.Forming size) :
    (s.closeFull size).Forming size := by
  unfold GroupLoop.closeFull
  split
  · exact h.close
  · exact h

variable [DecidableEq U]

/-- Whom the search finds. -/
theorem findJoining_eq_some_some {users : List U} {remaining : List (Conversation U W)}
    {n i : ℕ} (h : findJoining users remaining n = some (some i)) :
    ∃ c user, remaining[i]? = some c ∧ c.users.head? = some user ∧ user ∉ users := by
  induction n with
  | zero => cases h
  | succ n ih =>
    obtain ⟨c, hc, h⟩ := Option.bind_eq_some_iff.mp h
    obtain ⟨user, huser, h⟩ := Option.bind_eq_some_iff.mp h
    by_cases hmem : user ∉ users
    · rw [if_pos hmem] at h
      cases h
      exact ⟨c, user, hc, huser, hmem⟩
    · rw [if_neg hmem] at h
      exact ih h

/-- A round keeps the groups formed. -/
theorem Forming.round {size : ℕ} {s : GroupLoop U W} (h : s.Forming size) :
    (∀ t, GroupLoop.round size s = some (.next t) → t.Forming size) ∧
      ∀ t, GroupLoop.round size s = some (.done t) → t.Forming size := by
  have hfull := h.closeFull
  constructor
  · intro t ht
    obtain ⟨found, hfound, ht⟩ := Option.bind_eq_some_iff.mp ht
    cases found with
    | none => cases ht
    | some i =>
      obtain ⟨c, user, hc, huser, hnot⟩ := findJoining_eq_some_some hfound
      simp only [hc, Option.map_some, Option.some_inj] at ht
      cases ht
      obtain ⟨hi, rfl⟩ := List.getElem?_eq_some_iff.mp hc
      obtain ⟨size', p, hsingle⟩ := hfull.valid.single _ (List.getElem_mem hi)
      have hp : p.1 ∉ (s.closeFull size).group.users := by
        rw [hsingle] at huser
        rwa [Option.some_inj.mp huser]
      have hvalid := (lost_merge hfull.valid hi).1
      rw [hsingle] at hvalid ⊢
      exact ⟨hvalid, hfull.group.merge_single hp, hfull.grouped⟩
  · intro t ht
    obtain ⟨found, hfound, ht⟩ := Option.bind_eq_some_iff.mp ht
    cases found with
    | none =>
      cases ht
      exact hfull.close
    | some i =>
      obtain ⟨c, -, ht⟩ := Option.map_eq_some_iff.mp ht
      cases ht

theorem Forming.run {size : ℕ} {s t : GroupLoop U W} (h : s.Forming size)
    (ht : GroupLoop.run size s = some t) : t.Forming size := by
  fun_induction GroupLoop.run size s with
  | case1 s hpos hround => cases ht
  | case2 s hpos u hround =>
    cases ht
    exact h.round.2 _ hround
  | case3 s hpos u hround ih => exact ih (h.round.1 u hround) ht
  | case4 s hpos =>
    cases ht
    exact h

end GroupLoop

section Sampled

variable {U W : Type} {size : ℕ} {sampled : List (U × W)}
  {grouped : List (Conversation U W)}

theorem valid_start (size : ℕ) (sampled : List (U × W)) :
    (⟨sampled.map (.single size), [], .new size⟩ : GroupLoop U W).Valid := by
  refine ⟨fun c hc => ?_, rfl⟩
  obtain ⟨p, -, rfl⟩ := List.mem_map.mp hc
  exact ⟨size, p, rfl⟩

variable [DecidableEq U]

/-- **Members.** The groups of the loop have different members with a wait each. -/
theorem createGroups_formed (h : createGroups size sampled = some grouped) :
    ∀ g ∈ grouped, g.Formed size := by
  obtain ⟨t, ht, rfl⟩ := Option.map_eq_some_iff.mp h
  have hstart : (⟨sampled.map (.single size), [], .new size⟩ : GroupLoop U W).Forming size :=
    ⟨valid_start size sampled, Conversation.formed_new size, fun _ hg => absurd hg (by simp)⟩
  exact (hstart.run ht).grouped

/-- **Waits.** The groups of the loop have what was sampled, and nothing twice. -/
theorem createGroups_subperm (h : createGroups size sampled = some grouped) :
    (grouped.flatMap Conversation.pairs).Subperm sampled := by
  obtain ⟨t, ht, rfl⟩ := Option.map_eq_some_iff.mp h
  rcases sampled.eq_nil_or_concat with rfl | ⟨rest, p, rfl⟩
  · rw [GroupLoop.run] at ht
    cases ht
    exact .refl _
  · have hpos : 0 < ((rest.concat p).map (Conversation.single size)).length := by simp
    obtain ⟨u, hu, hperm, -⟩ := GroupLoop.run_pairs size _ (valid_start size _) (.inl hpos)
    cases ht.symm.trans hu
    have hpairs : (⟨(rest.concat p).map (.single size), [], .new size⟩ :
        GroupLoop U W).pairs = rest.concat p := by
      simp [GroupLoop.pairs, GroupLoop.lost, List.flatMap_map]
    rw [hpairs, GroupLoop.pairs] at hperm
    exact (List.sublist_append_left _ _).subperm.trans hperm.subperm

end Sampled

/-! ### What is sampled -/

/-- What is sampled for a user: how many conversations with one other user, the sizes of the
group conversations, and the initial waits, at least as many as there are conversations. -/
structure UserSample (W : Type) where
  numDyadic : ℕ
  participants : List ℕ
  initialWaits : List W
  enough : numDyadic + participants.length ≤ initialWaits.length

section Samples

variable {W : Type}

/-- The conversations of a user with their sizes and waits. -/
def UserSample.conversations (s : UserSample W) : List (ℕ × W) :=
  -- `pop` takes the waits from the end
  let waits := s.initialWaits.reverse
  (waits.take s.numDyadic).map (2, ·) ++ s.participants.zip (waits.drop s.numDyadic)

/-- `conversations[size]`: who was sampled for a conversation of the size, with which wait. -/
def conversationsOf (samples : List (UserSample W)) (size : ℕ) : List (ℕ × W) :=
  samples.zipIdx.flatMap fun (s, user) =>
    (s.conversations.filter (·.1 = size)).map fun c => (user, c.2)

/-- `sorted(conversations)`; for two there is a list from the start. -/
def sizes (samples : List (UserSample W)) : List ℕ :=
  sortedValues (2 :: samples.flatMap (·.participants))

/-- `random.sample` on the list of a set of users, call by call: that many of them. -/
structure Sampler where
  sample : ℕ → List ℕ → ℕ → List ℕ
  length_eq : ∀ call users count, count ≤ users.length → (sample call users count).length = count
  subperm : ∀ call users count, count ≤ users.length → (sample call users count).Subperm users

/-! ### Creating a group -/

/-- A conversation with its number, after which it is named. -/
structure Group (W : Type) where
  number : ℕ
  conversation : Conversation ℕ W

/-- The `conversations` of the users. -/
abbrev Lists (W : Type) := ℕ → List (Group W × W)

def Lists.append (lists : Lists W) (user : ℕ) (entry : Group W × W) : Lists W :=
  fun u => if u = user then lists u ++ [entry] else lists u

/-- `add_silent_members`. -/
def Conversation.addSilentMembers (hour : W) (c : Conversation ℕ W) (users : List ℕ) :
    Conversation ℕ W :=
  { c with users := c.users ++ users, waits := c.waits ++ List.replicate users.length hour }

/-- A group as it is passed to `create_group`, with the silent members, and as the loop over
the sampled conversations has left it. -/
structure Created (W : Type) where
  sampled : Conversation ℕ W
  silent : List ℕ
  group : Group W

/-- The state of `main` while it creates the groups, with a record of those. -/
structure World (W : Type) where
  lists : Lists W
  groupCount : ℕ
  created : List (Created W)

variable [LE W] [DecidableLE W] (hour : W)

/-- `create_group`; `none` is an `IndexError`. The silent members are a set, of which each
member gets one entry, so its order has no part in the result. -/
def createGroup (group : Group W) (silent : List ℕ) (lists : Lists W) : Option (Lists W) :=
  let c := group.conversation
  if c.waits.all (hour ≤ ·) then some lists
  else do
    let lists ← c.users.zipIdx.foldlM (fun lists (user, i) =>
      if user ∉ silent then (c.waits[i]?).map fun wait => Lists.append lists user (group, wait)
      else some lists) lists
    return silent.foldl (fun lists user => lists.append user (group, hour)) lists

/-- Create a group and record it. -/
def World.create (w : World W) (c : Created W) : Option (World W) :=
  (createGroup hour c.group c.silent w.lists).map fun lists =>
    ⟨lists, w.groupCount + 1, w.created ++ [c]⟩

/-- A pass of the loop over the groups of a size. -/
def createNumbered (sampler : Sampler) (users : List ℕ) (w : World W)
    (group : Conversation ℕ W) : Option (World W) :=
  if group.size = group.users.length then
    w.create hour ⟨group, [], ⟨w.groupCount, group⟩⟩
  else
    let sampleFrom := users.filter (· ∉ group.users)
    -- `random.sample` raises for a negative count
    if group.size < group.users.length then none
    else
      let sampleCount := group.size - group.users.length
      -- `exit(1)`
      if sampleFrom.length < sampleCount then none
      else
        let silent := sampler.sample w.groupCount sampleFrom sampleCount
        w.create hour ⟨group, silent, ⟨w.groupCount, group.addSilentMembers hour silent⟩⟩

/-- The loops over the sizes and the groups of each; `none` if there is an error. -/
def main (sampler : Sampler) (samples : List (UserSample W)) : Option (World W) :=
  (sizes samples).foldlM (fun w size => do
    let grouped ← createGroups size (conversationsOf samples size)
    grouped.foldlM (createNumbered hour sampler (List.range samples.length)) w)
    ⟨fun _ => [], 0, []⟩

end Samples

end SignalSim.Mnettools
