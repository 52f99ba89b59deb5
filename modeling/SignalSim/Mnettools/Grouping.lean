import Mathlib.Data.List.Perm.Basic
import Mathlib.Tactic.Common

/-!
# Grouping the sampled conversations

The loop in `main` of `mnettools.py` (and the same loop of `mnettortools.py`) that puts the
users who were sampled for conversations of one size into groups of that size. Every sampled
conversation has one user; the loop takes them off the end of a list, in the order in which
they can join the current group, and starts a new group when that is full or when nobody who
is left can join it.

A round of the loop keeps all pairs of a user and a wait, but not all of them where the groups
are read from afterwards: the current group and the list are dropped at the end.

## Main definitions

* `Conversation` — a group with its members and their initial waits
* `GroupLoop.round`, `GroupLoop.run` — one round of the loop, and the loop

## Main results

* `GroupLoop.run_pairs` — what the loop does with the sampled pairs
* `createGroups_perm_iff` — when no pair is lost
-/

namespace SignalSim.Mnettools

/-- A conversation of the given size, with the members found so far. -/
structure Conversation (U W : Type) where
  size : ℕ
  users : List U
  waits : List W
  deriving DecidableEq

namespace Conversation

variable {U W : Type}

/-- Take in the members of another conversation. -/
def merge (c other : Conversation U W) : Conversation U W :=
  { c with users := c.users ++ other.users, waits := c.waits ++ other.waits }

/-- The conversation without members. -/
def new (size : ℕ) : Conversation U W := ⟨size, [], []⟩

/-- A conversation as it is sampled for one user. -/
def single (size : ℕ) (p : U × W) : Conversation U W := ⟨size, [p.1], [p.2]⟩

/-- The members with their waits. -/
def pairs (c : Conversation U W) : List (U × W) := c.users.zip c.waits

/-- Every member has a wait. -/
def Balanced (c : Conversation U W) : Prop := c.users.length = c.waits.length

@[simp] theorem pairs_new (size : ℕ) : (new size : Conversation U W).pairs = [] := rfl

@[simp] theorem pairs_single (size : ℕ) (p : U × W) : (single size p).pairs = [p] := rfl

theorem pairs_merge {c : Conversation U W} (hc : c.Balanced) (other : Conversation U W) :
    (c.merge other).pairs = c.pairs ++ other.pairs := List.zip_append hc

theorem Balanced.merge_single {c : Conversation U W} (hc : c.Balanced) (size : ℕ) (p : U × W) :
    (c.merge (single size p)).Balanced := by
  unfold Balanced at *
  simp [merge, single, hc]

end Conversation

/-- The variables of the loop. -/
structure GroupLoop (U W : Type) where
  remaining : List (Conversation U W)
  grouped : List (Conversation U W)
  group : Conversation U W
  deriving DecidableEq

/-- How a round of a loop ends. -/
inductive Control (σ : Type)
  | next (s : σ)
  | done (s : σ)

namespace GroupLoop

variable {U W : Type}

/-- Append the current group and start a new one. -/
def close (size : ℕ) (s : GroupLoop U W) : GroupLoop U W :=
  { s with grouped := s.grouped ++ [s.group], group := .new size }

/-- Close the current group if it is full. -/
def closeFull (size : ℕ) (s : GroupLoop U W) : GroupLoop U W :=
  if s.group.users.length = size then s.close size else s

@[simp] theorem closeFull_remaining (size : ℕ) (s : GroupLoop U W) :
    (s.closeFull size).remaining = s.remaining := by
  unfold closeFull
  split <;> rfl

/-! ### The pairs -/

/-- The pairs that are not in `grouped`. -/
def lost (s : GroupLoop U W) : List (U × W) :=
  s.group.pairs ++ s.remaining.flatMap Conversation.pairs

/-- All pairs. -/
def pairs (s : GroupLoop U W) : List (U × W) :=
  s.grouped.flatMap Conversation.pairs ++ s.lost

/-- The conversations that remain are as they were sampled. -/
structure Valid (s : GroupLoop U W) : Prop where
  single : ∀ c ∈ s.remaining, ∃ size p, c = Conversation.single size p
  balanced : s.group.Balanced

theorem pairs_close (size : ℕ) (s : GroupLoop U W) : (s.close size).pairs = s.pairs := by
  simp [close, pairs, lost]

theorem pairs_closeFull (size : ℕ) (s : GroupLoop U W) : (s.closeFull size).pairs = s.pairs := by
  unfold closeFull
  split
  · exact pairs_close size s
  · rfl

theorem Valid.closeFull {s : GroupLoop U W} (h : s.Valid) (size : ℕ) :
    (s.closeFull size).Valid := by
  unfold GroupLoop.closeFull
  split
  · exact ⟨h.single, rfl⟩
  · exact h

/-- Taking a conversation off the list and into the group moves its pair. -/
theorem lost_merge {s : GroupLoop U W} (hs : s.Valid) {i : ℕ} (hi : i < s.remaining.length) :
    let t : GroupLoop U W := { s with
      remaining := s.remaining.eraseIdx i, group := s.group.merge s.remaining[i] }
    t.Valid ∧ t.pairs.Perm s.pairs ∧ t.lost ≠ [] := by
  intro t
  obtain ⟨size, p, hc⟩ := hs.single _ (List.getElem_mem hi)
  -- the conversation that is merged has one pair
  have hgroup : t.group.pairs = s.group.pairs ++ [p] := by
    change (s.group.merge s.remaining[i]).pairs = _
    rw [hc, Conversation.pairs_merge hs.balanced, Conversation.pairs_single]
  refine ⟨⟨?_, ?_⟩, ?_, ?_⟩
  · intro c hmem
    exact hs.single c (List.mem_of_mem_eraseIdx hmem)
  · change (s.group.merge s.remaining[i]).Balanced
    rw [hc]
    exact hs.balanced.merge_single size p
  · -- the pair of the conversation at `i` is the one that is erased
    have hperm : (s.remaining[i] :: s.remaining.eraseIdx i).Perm s.remaining :=
      List.getElem_cons_eraseIdx_perm hi
    have hpairs := hperm.flatMap_right Conversation.pairs
    rw [List.flatMap_cons, hc, Conversation.pairs_single] at hpairs
    unfold pairs lost
    rw [hgroup, List.append_assoc s.group.pairs]
    exact (hpairs.append_left _).append_left _
  · unfold lost
    rw [hgroup]
    simp

/-! ### The loop -/

variable [DecidableEq U]

/-- The search over `reversed(range(n))` for a conversation whose first user is not in the
group. The outer `none` is an `IndexError`. -/
def findJoining (users : List U) (remaining : List (Conversation U W)) : ℕ → Option (Option ℕ)
  | 0 => some none
  | i + 1 => do
    let c ← remaining[i]?
    let user ← c.users.head?
    -- from the end of the list
    if user ∉ users then some (some i) else findJoining users remaining i

/-- One round of the loop; the search that finds nobody breaks out of it. -/
def round (size : ℕ) (s : GroupLoop U W) : Option (Control (GroupLoop U W)) :=
  let s := s.closeFull size
  (findJoining s.group.users s.remaining s.remaining.length).bind fun
    | some i => (s.remaining[i]?).map fun c =>
        .next { s with remaining := s.remaining.eraseIdx i, group := s.group.merge c }
    | none => some (.done (s.close size))

theorem length_lt_of_round {size : ℕ} {s t : GroupLoop U W}
    (h : round size s = some (.next t)) : t.remaining.length < s.remaining.length := by
  obtain ⟨found, -, h⟩ := Option.bind_eq_some_iff.mp h
  cases found with
  | none => cases h
  | some i =>
    obtain ⟨c, hc, h⟩ := Option.map_eq_some_iff.mp h
    cases h
    rw [closeFull_remaining] at hc ⊢
    obtain ⟨hi, -⟩ := List.getElem?_eq_some_iff.mp hc
    rw [List.length_eraseIdx_of_lt hi]
    omega

/-- The loop. -/
def run (size : ℕ) (s : GroupLoop U W) : Option (GroupLoop U W) :=
  if 0 < s.remaining.length then
    match _h : round size s with
    | none => none
    | some (.done t) => some t
    | some (.next t) => run size t
  else some s
termination_by s.remaining.length
decreasing_by exact length_lt_of_round _h

/-- The search meets no conversation without a user. -/
theorem findJoining_eq_some (users : List U) {remaining : List (Conversation U W)}
    (h : ∀ c ∈ remaining, ∃ size p, c = Conversation.single size p) {n : ℕ}
    (hn : n ≤ remaining.length) :
    ∃ found, findJoining users remaining n = some found ∧ ∀ i ∈ found, i < n := by
  induction n with
  | zero => exact ⟨none, rfl, by simp⟩
  | succ i ih =>
    have hi : i < remaining.length := hn
    obtain ⟨size, p, hc⟩ := h _ (List.getElem_mem hi)
    simp only [findJoining, List.getElem?_eq_getElem hi, hc, Conversation.single,
      List.head?_cons, bind, Option.bind]
    by_cases hu : p.1 ∉ users
    · exact ⟨some i, if_pos hu, by simp⟩
    · -- the search goes on below
      obtain ⟨found, hfound, hlt⟩ := ih (Nat.le_of_lt hi)
      refine ⟨found, (if_neg hu).trans hfound, ?_⟩
      intro j hj
      exact Nat.lt_succ_of_lt (hlt j hj)

/-- What a round does while conversations remain. -/
theorem round_spec (size : ℕ) {s : GroupLoop U W} (hs : s.Valid) (hne : 0 < s.remaining.length) :
    (∃ t, round size s = some (.next t) ∧ t.Valid ∧ t.pairs.Perm s.pairs ∧ t.lost ≠ []) ∨
    ∃ t, round size s = some (.done t) ∧ t.pairs.Perm s.pairs ∧ t.lost ≠ [] := by
  have hfull := hs.closeFull size
  have hkeep := pairs_closeFull size s
  rw [← closeFull_remaining size] at hne
  obtain ⟨found, hfound, hlt⟩ :=
    findJoining_eq_some (s.closeFull size).group.users hfull.single (Nat.le_refl _)
  cases found with
  | some i =>
    left
    have hi := hlt i rfl
    obtain ⟨hvalid, hperm, hlost⟩ := lost_merge hfull hi
    refine ⟨_, ?_, hvalid, hkeep ▸ hperm, hlost⟩
    simp only [round, hfound, Option.bind_some, List.getElem?_eq_getElem hi, Option.map_some]
  | none =>
    -- what remains is left behind
    right
    refine ⟨(s.closeFull size).close size, ?_, ?_, ?_⟩
    · simp only [round, hfound, Option.bind_some]
    · rw [pairs_close, hkeep]
    · obtain ⟨c, hc⟩ := List.exists_mem_of_length_pos hne
      obtain ⟨size', p, rfl⟩ := hfull.single c hc
      apply List.ne_nil_of_mem (a := p)
      exact List.mem_append_right _ (List.mem_flatMap.mpr ⟨_, hc, by simp⟩)

/-- **Conservation.** The loop ends without an error and keeps all pairs, but if there are
any some of them are not in `grouped`. -/
theorem run_pairs (size : ℕ) (s : GroupLoop U W) (hs : s.Valid)
    (hlost : 0 < s.remaining.length ∨ s.lost ≠ []) :
    ∃ t, run size s = some t ∧ t.pairs.Perm s.pairs ∧ t.lost ≠ [] := by
  -- The pairs are kept round by round; what is left in the current group or the list is never
  -- empty again once something was there.
  fun_induction run size s with
  | case1 s hpos hround =>
    rcases round_spec size hs hpos with ⟨t, ht, -⟩ | ⟨t, ht, -⟩
    · cases hround.symm.trans ht
    · cases hround.symm.trans ht
  | case2 s hpos t hround =>
    rcases round_spec size hs hpos with ⟨u, hu, -⟩ | ⟨u, hu, hperm, hlost⟩
    · cases hround.symm.trans hu
    · cases hround.symm.trans hu
      exact ⟨t, rfl, hperm, hlost⟩
  | case3 s hpos t hround ih =>
    rcases round_spec size hs hpos with ⟨u, hu, hvalid, hperm, hlost⟩ | ⟨u, hu, -⟩
    · cases hround.symm.trans hu
      obtain ⟨v, hv, hperm', hlost'⟩ := ih hvalid (.inr hlost)
      exact ⟨v, hv, hperm'.trans hperm, hlost'⟩
    · cases hround.symm.trans hu
  | case4 s hpos => exact ⟨s, rfl, .refl _, hlost.resolve_left hpos⟩

end GroupLoop

/-- The groups of the given size that `main` makes of the sampled pairs; an outer `none` is an
`IndexError`. -/
def createGroups {U W : Type} [DecidableEq U] (size : ℕ) (sampled : List (U × W)) :
    Option (List (Conversation U W)) :=
  (GroupLoop.run size ⟨sampled.map (.single size), [], .new size⟩).map (·.grouped)

/-- **Lost participations.** The groups hold all sampled pairs, each once, if and only if no
pair was sampled. -/
theorem createGroups_perm_iff {U W : Type} [DecidableEq U] (size : ℕ) (sampled : List (U × W)) :
    ∃ grouped, createGroups size sampled = some grouped ∧
      ((grouped.flatMap Conversation.pairs).Perm sampled ↔ sampled = []) := by
  let s : GroupLoop U W := ⟨sampled.map (.single size), [], .new size⟩
  have hvalid : s.Valid := by
    refine ⟨?_, rfl⟩
    intro c hc
    obtain ⟨p, -, rfl⟩ := List.mem_map.mp hc
    exact ⟨size, p, rfl⟩
  have hpairs : s.pairs = sampled := by
    simp [s, GroupLoop.pairs, GroupLoop.lost, List.flatMap_map]
  by_cases hempty : sampled = []
  · subst hempty
    refine ⟨[], ?_, by simp⟩
    rw [createGroups, GroupLoop.run]
    rfl
  · have hpos : 0 < s.remaining.length := by
      rw [List.length_map]
      exact List.length_pos_iff.mpr hempty
    obtain ⟨t, ht, hperm, hlost⟩ := GroupLoop.run_pairs size s hvalid (.inl hpos)
    refine ⟨t.grouped, by rw [createGroups, ht]; rfl, ?_⟩
    rw [iff_false_right hempty]
    -- the groups and what is lost make up the sample, so the groups alone are too few
    intro hgrouped
    have hall := hperm.length_eq
    rw [hpairs, GroupLoop.pairs, List.length_append, hgrouped.length_eq] at hall
    have := List.length_pos_iff.mpr hlost
    omega

/-- Two users who are sampled for one conversation each are in no group; of a user who is
sampled twice only the last participation is. -/
theorem createGroups_lost :
    (∃ grouped : List (Conversation ℕ ℕ), createGroups 2 [(0, 10), (1, 20)] = some grouped ∧
      ¬ (grouped.flatMap Conversation.pairs).Perm [(0, 10), (1, 20)]) ∧
    (createGroups 2 [(0, 10), (0, 20)]).map (List.flatMap Conversation.pairs) =
      some [(0, 20)] := by
  constructor
  · exact ⟨[], by decide +kernel, by decide⟩
  · decide +kernel

end SignalSim.Mnettools
