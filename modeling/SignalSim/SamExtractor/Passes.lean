import SignalSim.SamExtractor.Labelling
import SignalSim.SamExtractor.StatsFile

/-!
# When a pass does not panic

A pass looks up minutes in the counters and the states of a run, cuts slices between two minutes,
and takes messages out of the count. It panics at none of this if the messages are in order and
those of the user are in minutes that count them.

## Main definitions

* `RunView.InOrder` — the messages are in order, and in the time of the run
* `RunView.Fits` — the counters of a run and the messages of the user go together as well

## Main results

* `runLabels_isSome` — a run for which they do gets labels
-/

namespace SignalSim.SamExtractor

/-! ### States -/

theorem asUsize_le {x : ℤ} {n : ℕ} (h₀ : 0 ≤ x) (h : x ≤ n) (hn : n < UInt64.size) :
    asUsize x ≤ n := by
  obtain ⟨k, rfl⟩ := Int.eq_ofNat_of_zero_le h₀
  have hk : k ≤ n := Int.ofNat_le.mp h
  rw [asUsize_natCast (Nat.lt_of_le_of_lt hk hn)]
  exact hk

section

variable {counters : List UInt16} {states : List State} {is : List ℕ} {idx idx2 : ℕ}

theorem slice_isSome {α : Type*} {xs : List α} {i j : ℕ} :
    (slice xs i j).isSome ↔ i ≤ j ∧ j ≤ xs.length := by
  simp [slice]

theorem scanMinutes_isSome {α : Type} {atIdle atMessage atEnd : α}
    (h : ∀ i ∈ is, i < states.length ∧ i < counters.length) :
    (scanMinutes atIdle atMessage atEnd counters states is).isSome := by
  induction is with
  | nil => rfl
  | cons i is ih =>
    obtain ⟨hs, hc⟩ := h i List.mem_cons_self
    have hrest := ih fun j hj => h j (List.mem_cons_of_mem i hj)
    rw [scanMinutes, List.getElem?_eq_getElem hs, List.getElem?_eq_getElem hc]
    simp only [Option.bind_eq_bind, Option.bind_some]
    split
    · rfl
    · split
      · rfl
      · exact hrest

theorem determineState_isSome (hlen : states.length = counters.length)
    (hidx : idx < counters.length) : (determineState counters states idx).isSome := by
  have hbefore : (idleBefore counters states (List.range idx).reverse).isSome := by
    apply scanMinutes_isSome
    intro i hi
    have hlt := List.mem_range.mp (List.mem_reverse.mp hi)
    omega
  have hafter : (stateAfter counters states
      (List.range' (idx + 1) (states.length - (idx + 1)))).isSome := by
    apply scanMinutes_isSome
    intro i hi
    have hrange := List.mem_range'_1.mp hi
    omega
  obtain ⟨idle, hidle⟩ := Option.isSome_iff_exists.mp hbefore
  rw [determineState, List.getElem?_eq_getElem (hlen ▸ hidx), List.getElem?_eq_getElem hidx, hidle]
  simp only [Option.bind_eq_bind, Option.bind_some]
  split
  · rfl
  · split
    · rfl
    · split
      · rfl
      · exact hafter

theorem differentRun_isSome (h : idx2 ≤ idx) (hidx : idx ≤ states.length) :
    (differentRun states idx2 idx).isSome := by
  obtain ⟨between, hbetween⟩ := Option.isSome_iff_exists.mp (slice_isSome.mpr ⟨h, hidx⟩)
  rw [differentRun, hbetween]
  rfl

theorem isTransition_isSome {lastMsgMinute : ℤ} (hidx : idx < states.length)
    (hlast : 0 ≤ lastMsgMinute → asUsize lastMsgMinute ≤ idx) :
    (isTransition states idx lastMsgMinute).isSome := by
  rw [isTransition, List.getElem?_eq_getElem hidx]
  simp only [Option.bind_eq_bind, Option.bind_some]
  split
  case isTrue => rfl
  case isFalse h => exact differentRun_isSome (hlast (by omega)) hidx.le

end

/-! ### Messages -/

/-- The messages are in order, from the run's first one on. -/
structure RunView.InOrder (view : RunView) : Prop where
  minTime_le : minTime ≤ view.firstMsgDate
  le_maxTime : view.finalMsgDate ≤ maxTime
  sorted : view.messages.Pairwise fun m m' => m.date ≤ m'.date
  le_date : ∀ j m, view.firstMessage ≤ j → view.messages[j]? = some m → view.firstMsgDate ≤ m.date

/-- The messages of the user that are in the time of the run are in minutes that count them. -/
structure RunView.Fits (user : UserId) (view : RunView) : Prop extends view.InOrder where
  length_states : view.states.length = view.minutes.length
  counted : ∀ j m, view.firstMessage ≤ j → view.messages[j]? = some m →
    m.date ≤ view.finalMsgDate → m.user = user →
      ∃ c, view.minutes[view.minuteIdx m]? = some c ∧ 0 < c

section

variable {user : UserId} {view : RunView} {i j : ℕ} {m m' : Message}

namespace RunView

theorem InOrder.minuteIdx_eq (h : view.InOrder) (hj : view.firstMessage ≤ j)
    (hm : view.messages[j]? = some m) (hdate : m.date ≤ view.finalMsgDate) :
    view.minuteIdx m = minutesAfter view.firstMsgDate m.date := by
  apply asUsize_wholeMinutes (h.le_date j m hj hm) h.minTime_le
  exact Int.le_trans hdate (Int.le_trans h.le_maxTime (by decide))

/-- Later messages are in later minutes. -/
theorem InOrder.minuteIdx_le (h : view.InOrder) (hi : view.firstMessage ≤ i) (hij : i ≤ j)
    (hm : view.messages[i]? = some m) (hm' : view.messages[j]? = some m')
    (hdate : m'.date ≤ view.finalMsgDate) : view.minuteIdx m ≤ view.minuteIdx m' := by
  have hle := date_le_of_sorted h.sorted hij hm hm'
  rw [h.minuteIdx_eq hi hm (Int.le_trans hle hdate),
    h.minuteIdx_eq (Nat.le_trans hi hij) hm' hdate]
  exact minutesAfter_mono hle

/-- The message before is in no later minute, if it is not before the run. -/
theorem InOrder.lastMsgMinute_le (h : view.InOrder) (hj : view.firstMessage ≤ j)
    (hm : view.messages[j - 1]? = some m) (hm' : view.messages[j]? = some m')
    (hdate : m'.date ≤ view.finalMsgDate)
    (h₀ : 0 ≤ wholeMinutes (m.date - view.firstMsgDate)) :
    asUsize (wholeMinutes (m.date - view.firstMsgDate)) ≤ view.minuteIdx m' := by
  -- the message before may come from before the run, then there is no minute to look up
  have hfirst := h.le_date j m' hj hm'
  have hmax : m'.date ≤ maxTime + hour :=
    Int.le_trans hdate (Int.le_trans h.le_maxTime (by decide))
  rw [h.minuteIdx_eq hj hm' hdate]
  apply asUsize_le h₀
  · rw [← wholeMinutes_sub hfirst]
    exact Int.tdiv_le_tdiv minute_pos
      (Int.sub_le_sub_right (date_le_of_sorted h.sorted (Nat.sub_le j 1) hm hm') _)
  · exact Nat.lt_of_add_right_lt (minutesAfter_lt_size h.minTime_le hmax)

end RunView

/-- A message of the user gets a label. -/
theorem labelSent_isSome {prevTime : Option ℤ} {prevIdx : Option ℕ} (h : view.Fits user)
    (hj : view.firstMessage ≤ j) (hm : view.messages[j - 1]? = some m)
    (hm' : view.messages[j]? = some m') (hdate : m'.date ≤ view.finalMsgDate)
    (hu : m'.user = user) (hprev : ∀ idx ∈ prevIdx, idx ≤ view.minuteIdx m') :
    (labelSent view prevTime prevIdx m m').isSome := by
  -- the minute of the message has a counter, and as many states are there as counters
  obtain ⟨c, hc, -⟩ := h.counted j m' hj hm' hdate hu
  obtain ⟨hidx, -⟩ := List.getElem?_eq_some_iff.mp hc
  have hstates : view.minuteIdx m' < view.states.length := h.length_states ▸ hidx
  obtain ⟨state, hstate⟩ := Option.isSome_iff_exists.mp
    (determineState_isSome h.length_states hidx)
  obtain ⟨transition, htransition⟩ := Option.isSome_iff_exists.mp
    (isTransition_isSome hstates (h.lastMsgMinute_le hj hm hm' hdate))
  have hcontinuing : (isContinuing view.states prevIdx (view.minuteIdx m')).isSome := by
    cases prevIdx with
    | none => rfl
    | some idx =>
      rw [isContinuing, Option.isSome_map]
      exact differentRun_isSome (hprev idx rfl) hstates.le
  obtain ⟨continuing, hcontinuing⟩ := Option.isSome_iff_exists.mp hcontinuing
  rw [labelSent]
  simp only [hstate, htransition, hcontinuing, Option.bind_eq_bind, Option.bind_some]
  rfl

/-- The minute of the last message sent is not after those of the messages to come. -/
def LabelLoop.Behind (view : RunView) (is : List ℕ) (loop : LabelLoop) : Prop :=
  ∀ idx ∈ loop.prevSentMinuteIdx, ∀ i ∈ is, ∀ m, view.messages[i]? = some m →
    m.date ≤ view.finalMsgDate → idx ≤ view.minuteIdx m

theorem LabelLoop.Behind.tail {loop : LabelLoop} {is : List ℕ} (h : loop.Behind view (i :: is)) :
    loop.Behind view is :=
  fun idx hidx j hj => h idx hidx j (List.mem_cons_of_mem i hj)

/-- The loop does not panic if the count is at least the number of messages. -/
theorem labelMessages_isSome (h : view.Fits user) {is : List ℕ} {loop : LabelLoop}
    (his : ∀ i ∈ is, view.firstMessage ≤ i ∧ i < view.messages.length)
    (hsorted : is.Pairwise (· < ·)) (hbehind : loop.Behind view is)
    (hcount : is.length ≤ loop.receivedMessages) : (labelMessages user view is loop).isSome := by
  -- The minutes are looked up, the slices are cut from the minute before, and the count goes
  -- down by at most one; all three stay possible for the rest of the messages.
  induction is generalizing loop with
  | nil => rfl
  | cons i is ih =>
    obtain ⟨hfirst, hi⟩ := his i List.mem_cons_self
    have htail : ∀ j ∈ is, view.firstMessage ≤ j ∧ j < view.messages.length :=
      fun j hj => his j (List.mem_cons_of_mem i hj)
    obtain ⟨hlt, hrest⟩ := List.pairwise_cons.mp hsorted
    rw [List.length_cons] at hcount
    by_cases hzero : i = 0
    · subst hzero
      exact ih htail hrest hbehind.tail (by omega)
    obtain ⟨m, hm⟩ : ∃ m, view.messages[i]? = some m := ⟨_, List.getElem?_eq_getElem hi⟩
    by_cases hlate : view.finalMsgDate < m.date
    · rw [labelMessages_of_late hzero hm hlate]
      rfl
    have hdate := Int.not_lt.mp hlate
    rw [labelMessages_cons hzero hm hdate]
    by_cases hu : m.user = user
    · -- the minute of this message is the last one from now on
      obtain ⟨lastMsg, hlast⟩ : ∃ lastMsg, view.messages[i - 1]? = some lastMsg :=
        ⟨_, List.getElem?_eq_getElem (by omega)⟩
      obtain ⟨label, hlabel⟩ : ∃ label,
          labelSent view loop.prevSentTime loop.prevSentMinuteIdx lastMsg m = some label := by
        apply Option.isSome_iff_exists.mp
        apply labelSent_isSome h hfirst hlast hm hdate hu
        exact fun idx hidx => hbehind idx hidx i List.mem_cons_self m hm hdate
      rw [labelMessage, if_pos hu]
      simp only [hlast, hlabel, Option.bind_eq_bind, Option.bind_some]
      apply ih htail hrest
      · intro idx hidx j hj m' hm' hdate'
        obtain rfl := Option.some_inj.mp hidx
        exact h.minuteIdx_le hfirst (hlt j hj).le hm hm' hdate'
      · exact Nat.le_of_succ_le hcount
    · rw [labelMessage, if_neg hu, countReceived]
      split
      · rw [if_neg (by omega)]
        exact ih htail hrest hbehind.tail (Nat.le_sub_of_add_le hcount)
      · exact ih htail hrest hbehind.tail (by omega)

/-- **A run gets labels.** -/
theorem runLabels_isSome {states : List State}
    {conversations : AList fun _ : Int32 => Conversation} {run : DataRun}
    (hview : viewDataRun states conversations i run = some view) (h : view.Fits user) :
    (runLabels user states conversations i run).isSome := by
  -- a count of as many as there are messages cannot run out
  have hloop : (labelMessages user view view.indices
      ⟨[], view.indices.length, none, none⟩).isSome := by
    apply labelMessages_isSome h _ List.pairwise_lt_range'
    · intro idx hidx
      cases hidx
    · exact le_rfl
    · intro j hj
      have hrange := List.mem_range'_1.mp hj
      omega
  obtain ⟨out, hout⟩ := Option.isSome_iff_exists.mp hloop
  have hpass : labelDataRun user states conversations i run [] view.indices.length =
      some out.result := by
    rw [labelDataRun, hview]
    simp only [hout, Option.bind_eq_bind, Option.bind_some]
    rfl
  rw [labelDataRun_eq] at hpass
  obtain ⟨labels, hlabels, -⟩ := Option.bind_eq_some_iff.mp hpass
  rw [hlabels]
  rfl

end

end SignalSim.SamExtractor
