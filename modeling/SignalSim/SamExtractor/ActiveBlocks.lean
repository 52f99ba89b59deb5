import Mathlib.Algebra.BigOperators.Group.Finset.Basic
import Mathlib.Algebra.Order.BigOperators.Group.Finset
import Mathlib.Data.List.GetD
import Mathlib.Order.Interval.Finset.Nat
import Mathlib.Order.Interval.Set.OrdConnectedComponent
import SignalSim.SamExtractor.Process

/-!
# Active blocks

The minutes that are labelled Active form blocks without an Idle minute in between. A message is
Active if its block has another message. The code looks for one in two loops: the first stops at
the message before, and returns Idle if it comes to an Idle minute first; the second has to find a
message after.

## Main definitions

* `activeBlock` — the Active minutes around a minute
* `blockCount` — how many messages the user sent in them
* `messageState` — whether a message has another one in its block
* `SentBefore`, `SentAfter` — there is a message in the block on one side

## Main results

* `determineState_eq` — what the two loops together compute
* `determineState_eq_iff` — when that is whether the block has another message
-/

namespace SignalSim.SamExtractor

/-! ### Blocks -/

/-- The minute is labelled Active. -/
def activeMinutes (states : List State) : Set ℕ := {t | states[t]? = some .active}

/-- The maximal block of Active minutes around a minute; it is empty if the minute is Idle. -/
def activeBlock (states : List State) (idx : ℕ) : Set ℕ :=
  Set.ordConnectedComponent (activeMinutes states) idx

/-- The count of messages in a minute. -/
def sentAt (counters : List UInt16) (t : ℕ) : ℕ := (counters.getD t 0).toNat

section

variable {counters : List UInt16} {states : List State} {idx t k n : ℕ}

instance : DecidablePred (· ∈ activeMinutes states) :=
  fun t => inferInstanceAs (Decidable (states[t]? = some .active))

theorem mem_activeBlock :
    t ∈ activeBlock states idx ↔ ∀ u, min idx t ≤ u → u ≤ max idx t → u ∈ activeMinutes states :=
  ⟨fun h _ hmin hmax => h ⟨hmin, hmax⟩, fun h u hu => h u hu.1 hu.2⟩

instance : DecidablePred (· ∈ activeBlock states idx) :=
  fun t => decidable_of_iff
    (∀ u ∈ Finset.Icc (min idx t) (max idx t), u ∈ activeMinutes states) (by
      simp only [mem_activeBlock, Finset.mem_Icc, and_imp])

theorem mem_activeBlock_of_le (h : t ≤ idx) :
    t ∈ activeBlock states idx ↔ ∀ u, t ≤ u → u ≤ idx → u ∈ activeMinutes states := by
  rw [mem_activeBlock, min_eq_right h, max_eq_left h]

theorem mem_activeBlock_of_ge (h : idx ≤ t) :
    t ∈ activeBlock states idx ↔ ∀ u, idx ≤ u → u ≤ t → u ∈ activeMinutes states := by
  rw [mem_activeBlock, min_eq_left h, max_eq_right h]

theorem lt_length_of_mem_activeMinutes (h : t ∈ activeMinutes states) : t < states.length :=
  (List.getElem?_eq_some_iff.mp h).1

theorem notMem_activeMinutes (h : t < states.length) :
    t ∉ activeMinutes states ↔ states[t]? = some .idle := by
  rw [activeMinutes, Set.mem_ofPred_eq, List.getElem?_eq_getElem h]
  cases states[t] <;> simp

/-- The minutes of the block, which end where the labels do. -/
def blockMinutes (states : List State) (idx : ℕ) : Finset ℕ :=
  (Finset.range states.length).filter (· ∈ activeBlock states idx)

theorem mem_blockMinutes : t ∈ blockMinutes states idx ↔ t ∈ activeBlock states idx := by
  rw [blockMinutes, Finset.mem_filter, Finset.mem_range, and_iff_right_iff_imp]
  intro ht
  exact lt_length_of_mem_activeMinutes (Set.ordConnectedComponent_subset ht)

/-- The counters of the block added up. -/
def blockCount (counters : List UInt16) (states : List State) (idx : ℕ) : ℕ :=
  ∑ t ∈ blockMinutes states idx, sentAt counters t

/-- Active if the minute is and its block has a further message. -/
def messageState (counters : List UInt16) (states : List State) (idx : ℕ) : State :=
  if idx ∈ activeMinutes states ∧ 2 ≤ blockCount counters states idx then .active else .idle

theorem messageState_eq_active_iff :
    messageState counters states idx = .active ↔
      idx ∈ activeMinutes states ∧ 2 ≤ blockCount counters states idx := by
  rw [messageState]
  split
  case isTrue h => exact iff_of_true rfl h
  case isFalse h => exact iff_of_false State.noConfusion h

/-- The user sent a message in the block before the minute. -/
def SentBefore (counters : List UInt16) (states : List State) (idx : ℕ) : Prop :=
  ∃ t < idx, t ∈ activeBlock states idx ∧ 0 < sentAt counters t

/-- The user sent a message in the block after the minute. -/
def SentAfter (counters : List UInt16) (states : List State) (idx : ℕ) : Prop :=
  ∃ t, idx < t ∧ t ∈ activeBlock states idx ∧ 0 < sentAt counters t

/-- A block with one message at the index has another if and only if there is one before or after
it. -/
theorem two_le_blockCount_iff (hactive : idx ∈ activeMinutes states)
    (hone : sentAt counters idx = 1) :
    2 ≤ blockCount counters states idx ↔
      SentBefore counters states idx ∨ SentAfter counters states idx := by
  have hmem : idx ∈ blockMinutes states idx :=
    mem_blockMinutes.mpr (Set.self_mem_ordConnectedComponent.mpr hactive)
  have hsum : blockCount counters states idx =
      1 + ∑ t ∈ (blockMinutes states idx).erase idx, sentAt counters t := by
    rw [blockCount, ← Finset.add_sum_erase _ _ hmem, hone]
  have hpos : 2 ≤ blockCount counters states idx ↔
      0 < ∑ t ∈ (blockMinutes states idx).erase idx, sentAt counters t := by omega
  rw [hpos, Finset.sum_pos_iff]
  constructor
  · rintro ⟨t, ht, hsent⟩
    obtain ⟨hne, ht⟩ := Finset.mem_erase.mp ht
    rcases Nat.lt_or_gt_of_ne hne with hlt | hgt
    · exact .inl ⟨t, hlt, mem_blockMinutes.mp ht, hsent⟩
    · exact .inr ⟨t, hgt, mem_blockMinutes.mp ht, hsent⟩
  · rintro (⟨t, hlt, ht, hsent⟩ | ⟨t, hgt, ht, hsent⟩)
    · exact ⟨t, Finset.mem_erase.mpr ⟨hlt.ne, mem_blockMinutes.mpr ht⟩, hsent⟩
    · exact ⟨t, Finset.mem_erase.mpr ⟨hgt.ne', mem_blockMinutes.mpr ht⟩, hsent⟩

/-- A minute counts no more messages than its block. -/
theorem sentAt_le_blockCount (hactive : idx ∈ activeMinutes states) :
    sentAt counters idx ≤ blockCount counters states idx :=
  Finset.single_le_sum (fun _ _ => Nat.zero_le _)
    (mem_blockMinutes.mpr (Set.self_mem_ordConnectedComponent.mpr hactive))

/-! ### Scans -/

variable {α : Type} {atIdle atMessage atEnd : α} {is : List ℕ}

theorem scanMinutes_of_idle (h : states[k]? = some .idle) :
    scanMinutes atIdle atMessage atEnd counters states (k :: is) = some atIdle := by
  simp [scanMinutes, h]

theorem scanMinutes_of_active (hactive : k ∈ activeMinutes states) (hk : k < counters.length) :
    scanMinutes atIdle atMessage atEnd counters states (k :: is) =
      if 0 < sentAt counters k then some atMessage
      else scanMinutes atIdle atMessage atEnd counters states is := by
  have hcounter : counters[k]? = some counters[k] := List.getElem?_eq_getElem hk
  have hsent : 0 < counters[k] ↔ 0 < sentAt counters k := by
    rw [sentAt, List.getD_eq_getElem _ _ hk, UInt16.lt_iff_toNat_lt]
    rfl
  rw [scanMinutes, show states[k]? = some .active from hactive, Option.bind_eq_bind,
    Option.bind_some, if_neg State.noConfusion, hcounter, Option.bind_eq_bind, Option.bind_some]
  by_cases hpos : 0 < sentAt counters k
  · rw [if_pos (hsent.mpr hpos), if_pos hpos]
    rfl
  · rw [if_neg (mt hsent.mp hpos), if_neg hpos]

/-- The first loop does not return if it comes to a message or to the start before an Idle
minute. -/
theorem idleBefore_eq (hlength : counters.length = states.length) (hk : k ≤ states.length) :
    ∃ idle, idleBefore counters states (List.range k).reverse = some idle ∧
      (idle = false ↔
        (∃ t < k, (∀ u, t ≤ u → u < k → u ∈ activeMinutes states) ∧ 0 < sentAt counters t) ∨
          ∀ u < k, u ∈ activeMinutes states) := by
  induction k with
  | zero => exact ⟨false, rfl, by simp⟩
  | succ k ih =>
    have hcons : (List.range (k + 1)).reverse = k :: (List.range k).reverse := by
      rw [List.range_succ, List.reverse_append, List.reverse_singleton, List.singleton_append]
    rw [hcons]
    by_cases hactive : k ∈ activeMinutes states
    · rw [idleBefore, scanMinutes_of_active hactive (by omega)]
      by_cases hsent : 0 < sentAt counters k
      · refine ⟨false, if_pos hsent, iff_of_true rfl (.inl ⟨k, Nat.lt_succ_self k, ?_, hsent⟩)⟩
        intro u hle hlt
        obtain rfl : u = k := by omega
        exact hactive
      · -- the minute is Active without a message: nothing is decided yet
        obtain ⟨idle, hidle, hiff⟩ := ih (Nat.le_of_succ_le hk)
        refine ⟨idle, (if_neg hsent).trans hidle, hiff.trans (or_congr ?_ ?_)⟩
        · constructor
          · rintro ⟨t, ht, hbetween, hpos⟩
            refine ⟨t, Nat.lt_succ_of_lt ht, fun u hle hlt => ?_, hpos⟩
            rcases Nat.lt_succ_iff_lt_or_eq.mp hlt with hlt | rfl
            · exact hbetween u hle hlt
            · exact hactive
          · rintro ⟨t, ht, hbetween, hpos⟩
            have hne : t ≠ k := by
              rintro rfl
              exact hsent hpos
            exact ⟨t, by omega, fun u hle hlt => hbetween u hle (Nat.lt_succ_of_lt hlt), hpos⟩
        · constructor
          · intro hall u hu
            rcases Nat.lt_succ_iff_lt_or_eq.mp hu with hlt | rfl
            · exact hall u hlt
            · exact hactive
          · exact fun hall u hu => hall u (Nat.lt_succ_of_lt hu)
    · have hidle := (notMem_activeMinutes (Nat.lt_of_succ_le hk)).mp hactive
      refine ⟨true, scanMinutes_of_idle hidle, iff_of_false Bool.noConfusion ?_⟩
      rintro (⟨t, ht, hbetween, -⟩ | hall)
      · exact hactive (hbetween k (Nat.le_of_lt_succ ht) (Nat.lt_succ_self k))
      · exact hactive (hall k (Nat.lt_succ_self k))

/-- The second loop returns Active if it comes to a message before an Idle minute. -/
theorem stateAfter_eq (hlength : counters.length = states.length)
    (hn : k + n = states.length) :
    ∃ state, stateAfter counters states (List.range' k n) = some state ∧
      (state = .active ↔
        ∃ t, k ≤ t ∧ (∀ u, k ≤ u → u ≤ t → u ∈ activeMinutes states) ∧
          0 < sentAt counters t) := by
  induction n generalizing k with
  | zero =>
    refine ⟨.idle, rfl, iff_of_false State.noConfusion ?_⟩
    rintro ⟨t, hle, hbetween, -⟩
    have hlt := lt_length_of_mem_activeMinutes (hbetween t hle le_rfl)
    omega
  | succ n ih =>
    rw [List.range'_succ]
    by_cases hactive : k ∈ activeMinutes states
    · rw [stateAfter, scanMinutes_of_active hactive (by omega)]
      by_cases hsent : 0 < sentAt counters k
      · refine ⟨.active, if_pos hsent, iff_of_true rfl ⟨k, le_rfl, ?_, hsent⟩⟩
        intro u hle hge
        exact Nat.le_antisymm hge hle ▸ hactive
      · obtain ⟨state, hstate, hiff⟩ := ih (k := k + 1) (by omega)
        refine ⟨state, (if_neg hsent).trans hstate, hiff.trans ?_⟩
        constructor
        · rintro ⟨t, ht, hbetween, hpos⟩
          refine ⟨t, Nat.le_of_succ_le ht, fun u hle hge => ?_, hpos⟩
          rcases Nat.eq_or_lt_of_le hle with rfl | hlt
          · exact hactive
          · exact hbetween u hlt hge
        · rintro ⟨t, ht, hbetween, hpos⟩
          have hne : t ≠ k := by
            rintro rfl
            exact hsent hpos
          exact ⟨t, by omega, fun u hle hge => hbetween u (Nat.le_of_succ_le hle) hge, hpos⟩
    · have hidle := (notMem_activeMinutes (by omega)).mp hactive
      refine ⟨.idle, scanMinutes_of_idle hidle, iff_of_false State.noConfusion ?_⟩
      rintro ⟨t, hle, hbetween, -⟩
      exact hactive (hbetween k le_rfl hle)

/-! ### The state of a message -/

instance : Decidable (SentBefore counters states idx) :=
  inferInstanceAs (Decidable (∃ t < idx, _))

instance : Decidable (SentAfter counters states idx) :=
  decidable_of_iff (∃ t < states.length, idx < t ∧ t ∈ activeBlock states idx ∧
      0 < sentAt counters t) (by
    constructor
    · rintro ⟨t, -, ht⟩
      exact ⟨t, ht⟩
    · rintro ⟨t, hlt, ht, hsent⟩
      exact ⟨t, lt_length_of_mem_activeMinutes (Set.ordConnectedComponent_subset ht), hlt, ht,
        hsent⟩)

theorem sentBefore_iff (hactive : idx ∈ activeMinutes states) :
    SentBefore counters states idx ↔
      ∃ t < idx, (∀ u, t ≤ u → u < idx → u ∈ activeMinutes states) ∧ 0 < sentAt counters t := by
  apply exists_congr
  intro t
  apply and_congr_right
  intro hlt
  rw [mem_activeBlock_of_le hlt.le]
  refine and_congr_left' ⟨fun h u hle hlt => h u hle hlt.le, fun h u hle hge => ?_⟩
  rcases Nat.eq_or_lt_of_le hge with rfl | hlt
  · exact hactive
  · exact h u hle hlt

theorem sentAfter_iff (hactive : idx ∈ activeMinutes states) :
    SentAfter counters states idx ↔
      ∃ t, idx + 1 ≤ t ∧ (∀ u, idx + 1 ≤ u → u ≤ t → u ∈ activeMinutes states) ∧
        0 < sentAt counters t := by
  apply exists_congr
  intro t
  apply and_congr_right
  intro hlt
  rw [mem_activeBlock_of_ge hlt.le]
  refine and_congr_left' ⟨fun h u hle hge => h u (Nat.le_of_succ_le hle) hge, fun h u hle hge => ?_⟩
  rcases Nat.eq_or_lt_of_le hle with rfl | hlt
  · exact hactive
  · exact h u hlt hge

theorem zero_mem_activeBlock_iff (hactive : idx ∈ activeMinutes states) :
    0 ∈ activeBlock states idx ↔ ∀ u < idx, u ∈ activeMinutes states := by
  rw [mem_activeBlock_of_le (Nat.zero_le idx)]
  refine ⟨fun h u hlt => h u (Nat.zero_le u) hlt.le, fun h u _ hge => ?_⟩
  rcases Nat.eq_or_lt_of_le hge with rfl | hlt
  · exact hactive
  · exact h u hlt

theorem determineState_of_idle (h : states[idx]? = some .idle) :
    determineState counters states idx = some .idle := by
  simp [determineState, h]

theorem determineState_of_active (hactive : idx ∈ activeMinutes states)
    (hidx : idx < counters.length) :
    determineState counters states idx =
      if 1 < sentAt counters idx then some .active
      else (idleBefore counters states (List.range idx).reverse).bind fun idle =>
        if idle then some .idle
        else stateAfter counters states (List.range' (idx + 1) (states.length - (idx + 1))) := by
  have hcounter : counters[idx]? = some counters[idx] := List.getElem?_eq_getElem hidx
  have hsent : 1 < counters[idx] ↔ 1 < sentAt counters idx := by
    rw [sentAt, List.getD_eq_getElem _ _ hidx, UInt16.lt_iff_toNat_lt]
    rfl
  rw [determineState, show states[idx]? = some .active from hactive, Option.bind_eq_bind,
    Option.bind_some, if_neg State.noConfusion, hcounter, Option.bind_eq_bind, Option.bind_some]
  by_cases hmore : 1 < sentAt counters idx
  · rw [if_pos (hsent.mpr hmore), if_pos hmore]
    rfl
  · rw [if_neg (mt hsent.mp hmore), if_neg hmore]
    rfl

/-- **The two loops.** A single message of its minute, labelled Active, is Active if the block has
a message before it or begins with the run, and has a message after it. -/
theorem determineState_eq (hlength : counters.length = states.length)
    (hactive : idx ∈ activeMinutes states) (hone : sentAt counters idx ≤ 1) :
    ∃ state, determineState counters states idx = some state ∧
      (state = .active ↔
        (SentBefore counters states idx ∨ 0 ∈ activeBlock states idx) ∧
          SentAfter counters states idx) := by
  have hidx := lt_length_of_mem_activeMinutes hactive
  obtain ⟨idle, hbefore, hidle⟩ := idleBefore_eq hlength hidx.le
  obtain ⟨state, hafter, hstate⟩ := stateAfter_eq (k := idx + 1)
    (n := states.length - (idx + 1)) hlength (by omega)
  rw [← sentBefore_iff hactive, ← zero_mem_activeBlock_iff hactive] at hidle
  rw [← sentAfter_iff hactive] at hstate
  rw [determineState_of_active hactive (hlength ▸ hidx), if_neg (by omega), hbefore,
    Option.bind_some]
  cases idle with
  | true =>
    refine ⟨.idle, if_pos rfl, iff_of_false State.noConfusion ?_⟩
    rintro ⟨hreach, -⟩
    exact Bool.noConfusion (hidle.mpr hreach)
  | false => exact ⟨state, hafter, hstate.trans (iff_and_self.mpr fun _ => hidle.mp rfl)⟩

end

/-- When a message is Active: two are in its minute, or there is one after it in the block, and one
before it or the begin of the run. -/
theorem determineState_eq_active_iff {counters : List UInt16} {states : List State} {idx : ℕ}
    (hlength : counters.length = states.length) :
    determineState counters states idx = some .active ↔
      idx ∈ activeMinutes states ∧ (2 ≤ sentAt counters idx ∨
        (SentBefore counters states idx ∨ 0 ∈ activeBlock states idx) ∧
          SentAfter counters states idx) := by
  by_cases hactive : idx ∈ activeMinutes states
  · rw [and_iff_right hactive]
    by_cases hmore : 2 ≤ sentAt counters idx
    · rw [determineState_of_active hactive (hlength ▸ lt_length_of_mem_activeMinutes hactive),
        if_pos (Nat.lt_of_succ_le hmore)]
      exact iff_of_true rfl (.inl hmore)
    · obtain ⟨state, hstate, hiff⟩ := determineState_eq hlength hactive (by omega)
      rw [hstate, Option.some_inj, hiff, or_iff_right hmore]
  · refine iff_of_false ?_ fun h => hactive h.1
    intro h
    obtain ⟨state, hstate, h⟩ := Option.bind_eq_some_iff.mp h
    have hidle := (notMem_activeMinutes (List.getElem?_eq_some_iff.mp hstate).1).mp hactive
    obtain rfl := Option.some_inj.mp (hstate.symm.trans hidle)
    cases h

/-- **Active messages.** A message is labelled by whether its block has another one, except if it
is the only message of its minute and either the last one of a block with more, or the first one of
a block that does not begin with the run. -/
theorem determineState_eq_iff {counters : List UInt16} {states : List State} {idx : ℕ}
    (hlength : counters.length = states.length) (hsent : 1 ≤ sentAt counters idx) :
    determineState counters states idx = some (messageState counters states idx) ↔
      states[idx]? = some .idle ∨ 2 ≤ sentAt counters idx ∨
        (¬ SentBefore counters states idx ∧ ¬ SentAfter counters states idx) ∨
        (SentBefore counters states idx ∨ 0 ∈ activeBlock states idx) ∧
          SentAfter counters states idx := by
  have hidx : idx < states.length := by
    by_contra hge
    rw [sentAt, List.getD_eq_default _ _ (by omega)] at hsent
    exact absurd hsent (by decide)
  by_cases hactive : idx ∈ activeMinutes states
  · have hnotIdle : states[idx]? ≠ some .idle :=
      mt (notMem_activeMinutes hidx).mpr (not_not.mpr hactive)
    rw [or_iff_right hnotIdle]
    by_cases hmore : 2 ≤ sentAt counters idx
    · have hblock := hmore.trans (sentAt_le_blockCount hactive)
      rw [determineState_of_active hactive (hlength ▸ hidx), if_pos (Nat.lt_of_succ_le hmore),
        messageState_eq_active_iff.mpr ⟨hactive, hblock⟩]
      exact iff_of_true rfl (.inl hmore)
    · have hone : sentAt counters idx = 1 := by omega
      obtain ⟨state, hstate, hiff⟩ := determineState_eq hlength hactive hone.le
      have hblock : messageState counters states idx = .active ↔
          SentBefore counters states idx ∨ SentAfter counters states idx :=
        messageState_eq_active_iff.trans
          ((and_iff_right hactive).trans (two_le_blockCount_iff hactive hone))
      rw [hstate, or_iff_right hmore, Option.some_inj]
      cases state with
      | active =>
        -- Active is right: the code has found a message in the block
        have hfound := hiff.mp rfl
        rw [hblock.mpr (.inr hfound.2)]
        exact iff_of_true rfl (.inr hfound)
      | idle =>
        -- Idle is right only if there is none to find
        have hnot := mt hiff.mpr State.noConfusion
        rw [or_iff_left hnot, ← not_or, ← hblock]
        cases messageState counters states idx with
        | idle => exact iff_of_true rfl State.noConfusion
        | active => exact iff_of_false State.noConfusion (not_not.mpr rfl)
  · have hidle := (notMem_activeMinutes hidx).mp hactive
    have hstate : messageState counters states idx = .idle := if_neg fun h => hactive h.1
    rw [determineState_of_idle hidle, hstate]
    exact iff_of_true rfl (.inl hidle)

/-- Of two messages in one block, the second is labelled Idle. -/
theorem determineState_of_last :
    determineState [1, 1] [.active, .active] 1 = some .idle ∧
      1 ≤ sentAt [1, 1] 1 ∧ messageState [1, 1] [.active, .active] 1 = .active := by
  decide

/-- The first one is labelled Active. -/
theorem determineState_eq_first :
    determineState [1, 1] [.active, .active] 0 =
      some (messageState [1, 1] [.active, .active] 0) := by
  refine (determineState_eq_iff rfl (by decide)).mpr (.inr (.inr (.inr ⟨.inr ?_, 1, ?_⟩)))
  · decide
  · decide

end SignalSim.SamExtractor
