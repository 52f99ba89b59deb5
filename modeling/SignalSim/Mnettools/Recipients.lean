import SignalSim.Foundations.Text
import SignalSim.Mgen.Peer.ProcessConfig
import SignalSim.Mnettools.Members

/-!
# The recipients in the configuration of a peer

`User.save` of `mnettortools.py` writes the conversations of a user, each with the members of
the group as its recipients, among them the user. A peer takes the recipients as those it
connects to, as the configurations written by hand do, which list the others only: a generated
peer has a reader and a writer for itself.

## Main definitions

* `saveConversations` — the conversations in the configuration of a user
* `ExcludesUser` — the recipients are the other members, each once

## Main results

* `excludesUser_iff` — a configuration is as expected only if it has no conversations
-/

namespace SignalSim.Mnettools

open SignalSim.Mgen.Peer

/-! ### The configuration -/

/-- The name of a user. -/
def userName (id : ℕ) : String := String.ofList ("user".toList ++ Text.ofNat id)

/-- The name of a group. -/
def Group.name {W : Type} (group : Group W) : String :=
  String.ofList ("group".toList ++ Text.ofNat group.number)

/-- `[user.name for user in group[0].users]`. -/
def Group.recipients {W : Type} (group : Group W) : List String :=
  group.conversation.users.map userName

/-- The entry of a group in the configuration of a user, with the user's wait. -/
def saveConversation {D : Type} (entry : Group ℚ × ℚ) : ConversationConfig D where
  group := entry.1.name
  recipients := entry.1.recipients
  bootstrap := some entry.2
  retry := none
  distributions := none

/-- `conversations` of the configuration. -/
def saveConversations {D : Type} (conversations : List (Group ℚ × ℚ)) :
    List (ConversationConfig D) :=
  conversations.map saveConversation

/-- The recipients of the group's entries are its members other than the user, each once. -/
def OthersOnly {W : Type} (user : ℕ) (group : Group W) : Prop :=
  group.recipients.Perm ((group.conversation.users.filter (· ≠ user)).map userName)

/-- All entries of the user's configuration list the others only. -/
def ExcludesUser {W : Type} (w : World W) (user : ℕ) : Prop :=
  ∀ entry ∈ w.lists user, OthersOnly user entry.1

theorem userName_injective : Function.Injective userName := fun _ _ h =>
  Text.ofNat_injective (List.append_cancel_left (String.ofList_injective h))

theorem groupName_injective {W : Type} {group group' : Group W} (h : group.name = group'.name) :
    group.number = group'.number :=
  Text.ofNat_injective (List.append_cancel_left (String.ofList_injective h))

/-! ### Who is listed -/

section Listed

variable {W : Type} {user : ℕ} {group : Group W}

/-- A member is among the recipients, the user as well. -/
theorem not_othersOnly (h : user ∈ group.conversation.users) : ¬ OthersOnly user group := by
  intro hperm
  obtain ⟨v, hv, hname⟩ :=
    List.mem_map.mp (hperm.mem_iff.mp (List.mem_map_of_mem (f := userName) h))
  obtain rfl := userName_injective hname
  exact of_decide_eq_true (List.mem_filter.mp hv).2 rfl

variable [LE W] [DecidableLE W] {hour : W} {users : List ℕ} {w : World W}

/-- A user lists groups the user is in, which are not dropped. -/
theorem World.Consistent.exists_busy_of_mem (hw : w.Consistent hour users) {entry : Group W × W}
    (h : entry ∈ w.lists user) :
    ∃ c ∈ w.created, entry.1 = c.group ∧ user ∈ c.group.conversation.users ∧
      ¬ ∀ wait ∈ c.group.conversation.waits, hour ≤ wait := by
  rw [hw.lists_eq] at h
  obtain ⟨c, hc, hentry⟩ := List.mem_flatMap.mp h
  refine ⟨c, hc, fst_of_mem_entries hentry, ?_, ?_⟩
  · by_contra hnot
    rw [entries_of_not_mem (hw.padded c hc) hnot] at hentry
    cases hentry
  · intro hidle
    rw [entries_of_idle hidle] at hentry
    cases hentry

theorem World.Consistent.exists_of_mem (hw : w.Consistent hour users) {entry : Group W × W}
    (h : entry ∈ w.lists user) :
    ∃ c ∈ w.created, entry.1 = c.group ∧ user ∈ c.group.conversation.users := by
  obtain ⟨c, hc, hgroup, hmem, -⟩ := hw.exists_busy_of_mem h
  exact ⟨c, hc, hgroup, hmem⟩

/-- Whom a group that is not dropped adds an entry for. -/
theorem exists_entries_eq {c : Created W} (hpadded : c.Padded hour users) (husers : users.Nodup)
    (hbusy : ¬ ∀ wait ∈ c.group.conversation.waits, hour ≤ wait)
    (hmem : user ∈ c.group.conversation.users) :
    ∃ wait, entries hour c.group c.silent user = [(c.group, wait)] := by
  rw [hpadded.users_eq, List.mem_append, ← keys_pairs hpadded] at hmem
  rcases hmem with hmem | hmem
  · obtain ⟨p, hp, rfl⟩ := List.mem_map.mp hmem
    exact ⟨p.2, entries_of_sampled hpadded hbusy hp⟩
  · exact ⟨hour, entries_of_silent hpadded husers hbusy hmem⟩

/-- **Entries.** A user has no entry exactly if all groups the user is in are dropped. -/
theorem World.Consistent.lists_eq_nil_iff (hw : w.Consistent hour users)
    (husers : users.Nodup) : w.lists user = [] ↔
      ∀ c ∈ w.created, user ∈ c.group.conversation.users →
        ∀ wait ∈ c.group.conversation.waits, hour ≤ wait := by
  rw [hw.lists_eq, List.flatMap_eq_nil_iff]
  refine forall₂_congr fun c hc => ?_
  constructor
  · intro hnil hmem
    by_contra hbusy
    obtain ⟨wait, hentry⟩ := exists_entries_eq (hw.padded c hc) husers hbusy hmem
    rw [hentry] at hnil
    cases hnil
  · intro hidle
    by_cases hmem : user ∈ c.group.conversation.users
    · exact entries_of_idle (hidle hmem)
    · exact entries_of_not_mem (hw.padded c hc) hmem

/-- No user lists a group twice. -/
theorem World.Consistent.nodup_numbers (hw : w.Consistent hour users) (user : ℕ)
    (husers : users.Nodup) :
    ((w.lists user).map (·.1.number)).Nodup := by
  have hone : ∀ c ∈ w.created, ((entries hour c.group c.silent user).map (·.1.number)).Sublist
      [c.group.number] := by
    intro c hc
    by_cases hidle : ∀ wait ∈ c.group.conversation.waits, hour ≤ wait
    · rw [entries_of_idle hidle]
      exact List.nil_sublist _
    by_cases hmem : user ∈ c.group.conversation.users
    · obtain ⟨wait, hentry⟩ := exists_entries_eq (hw.padded c hc) husers hidle hmem
      rw [hentry]
      exact .refl _
    · rw [entries_of_not_mem (hw.padded c hc) hmem]
      exact List.nil_sublist _
  have hsub : ((w.lists user).map (·.1.number)).Sublist (w.created.map (·.group.number)) := by
    rw [hw.lists_eq, List.map_flatMap]
    exact flatMap_sublist_map _ hone
  rw [hw.numbers] at hsub
  exact List.nodup_range.sublist hsub

/-- **Recipients.** No entry that is written lists the others only: a configuration does so just
if there is no entry in it, all groups of the user being dropped. -/
theorem excludesUser_iff {sampler : Sampler} {samples : List (UserSample W)}
    (h : main hour sampler samples = some w) (user : ℕ) :
    (∀ entry ∈ w.lists user, ¬ OthersOnly user entry.1) ∧
      (ExcludesUser w user ↔ ∀ c ∈ w.created, user ∈ c.group.conversation.users →
        ∀ wait ∈ c.group.conversation.waits, hour ≤ wait) := by
  obtain ⟨hw, -⟩ := main_consistent h
  have hnever : ∀ entry ∈ w.lists user, ¬ OthersOnly user entry.1 := by
    intro entry hentry
    obtain ⟨c, -, hgroup, hmem⟩ := hw.exists_of_mem hentry
    rw [hgroup]
    exact not_othersOnly hmem
  refine ⟨hnever, ?_⟩
  rw [← hw.lists_eq_nil_iff List.nodup_range]
  constructor
  · exact fun hall => List.eq_nil_iff_forall_not_mem.mpr fun entry hentry =>
      hnever entry hentry (hall entry hentry)
  · intro hnil entry hentry
    rw [hnil] at hentry
    cases hentry

end Listed

/-- The recipients of a user's groups are all their members, and the user is one. -/
theorem not_excludesUser_threeSamples :
    ∃ w, main 3600 firstUsers threeSamples = some w ∧
      (w.lists 2).map (·.1.conversation.users) = [[2, 1], [0, 1, 2]] ∧ ¬ ExcludesUser w 2 := by
  have hlisted : (main 3600 firstUsers threeSamples).map
      (fun w => (w.lists 2).map (·.1.conversation.users)) = some [[2, 1], [0, 1, 2]] := by
    decide +kernel
  obtain ⟨w, hw, hmembers⟩ := Option.map_eq_some_iff.mp hlisted
  refine ⟨w, hw, hmembers, fun hexcludes => ?_⟩
  obtain ⟨entry, hentry, hgroup⟩ : ∃ entry ∈ w.lists 2, entry.1.conversation.users = [2, 1] := by
    refine List.mem_map.mp ?_
    rw [hmembers]
    exact List.mem_cons_self
  refine not_othersOnly ?_ (hexcludes entry hentry)
  rw [hgroup]
  exact List.mem_cons_self

theorem excludesUser_iff_threeSamples : ∃ w, main 3600 firstUsers threeSamples = some w ∧
    (∀ entry ∈ w.lists 1, ¬ OthersOnly 1 entry.1) ∧
      (ExcludesUser w 1 ↔ ∀ c ∈ w.created, 1 ∈ c.group.conversation.users →
        ∀ wait ∈ c.group.conversation.waits, 3600 ≤ wait) := by
  have hsome : (main 3600 firstUsers threeSamples).isSome := by decide +kernel
  obtain ⟨w, hw⟩ := Option.isSome_iff_exists.mp hsome
  exact ⟨w, hw, excludesUser_iff hw 1⟩

end SignalSim.Mnettools
