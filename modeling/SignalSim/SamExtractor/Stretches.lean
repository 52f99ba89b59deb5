import Mathlib.Data.Finset.Max
import SignalSim.SamExtractor.Flags

/-!
# Stretches that an answer opens

The rate of transitions on receiving is a quotient of two counts that are taken in different ways.
What is counted above are stretches of Active minutes: each counts once if the user's first message
in it comes right after a message that is in it as well. What is counted below are messages of
others that are in no Active minute.

## Main definitions

* `OpensBlock` — the message at an index opens the block of its minute
* `answeredStretches` — the blocks that a message opens, by their first minutes
* `receivedActive` — the messages of others in Active minutes
* `runViews` — what is known of the runs, with the labels that they are given

## Main results

* `card_answeredStretches` — as many stretches as messages that open one
* `statsToLabeled_counts` — what the two counts are
* `fittedR_accepted_iff` — when the rate is a probability
-/

namespace SignalSim.SamExtractor

/-- The message before the one at an index is in the block of the minute; one from less than a
minute before the run counts as in its first minute. -/
def FollowsIn (view : RunView) (k idx : ℕ) : Prop :=
  ∃ last ∈ view.messages[k - 1]?,
    view.firstMsgDate ≤ last.date ∧ view.minuteIdx last ∈ activeBlock view.states idx ∨
      last.date < view.firstMsgDate ∧ view.firstMsgDate < last.date + minute ∧
        0 ∈ activeBlock view.states idx

/-- The message at an index is the first one of the user in its block, the first message of the
conversation aside; it follows a message in the block; and there is another one of the user in its
minute, or one after it in a block that begins with the run or has one before it. -/
def OpensBlock (user : UserId) (view : RunView) (k : ℕ) : Prop :=
  max view.firstMessage 1 ≤ k ∧ ∃ m ∈ view.messages[k]?, m.user = user ∧
    m.date ≤ view.finalMsgDate ∧ view.minuteIdx m ∈ activeMinutes view.states ∧
    (2 ≤ sentAt view.minutes (view.minuteIdx m) ∨
      (SentBefore view.minutes view.states (view.minuteIdx m) ∨
          0 ∈ activeBlock view.states (view.minuteIdx m)) ∧
        SentAfter view.minutes view.states (view.minuteIdx m)) ∧
    FollowsIn view k (view.minuteIdx m) ∧
    ∀ j < k, max view.firstMessage 1 ≤ j → ∀ prev ∈ view.messages[j]?, prev.user = user →
      view.minuteIdx prev ∉ activeBlock view.states (view.minuteIdx m)

/-- A block begins at the minute, and a message opens it. -/
def IsAnswered (user : UserId) (view : RunView) (a : ℕ) : Prop :=
  (∀ t < a, t ∉ activeBlock view.states a) ∧ ∃ k < view.messages.length,
    OpensBlock user view k ∧
      ∃ m ∈ view.messages[k]?, view.minuteIdx m ∈ activeBlock view.states a

/-- The message at an index is by another user and in an Active minute of the run. -/
def IsReceivedActive (user : UserId) (view : RunView) (k : ℕ) : Prop :=
  max view.firstMessage 1 ≤ k ∧ ∃ m ∈ view.messages[k]?, m.user ≠ user ∧
    m.date ≤ view.finalMsgDate ∧ view.minuteIdx m ∈ activeMinutes view.states

instance (view : RunView) (k idx : ℕ) : Decidable (FollowsIn view k idx) :=
  inferInstanceAs (Decidable (∃ last ∈ view.messages[k - 1]?, _))

instance (user : UserId) (view : RunView) : DecidablePred (OpensBlock user view) :=
  fun k => inferInstanceAs (Decidable (max view.firstMessage 1 ≤ k ∧ _))

instance (user : UserId) (view : RunView) : DecidablePred (IsAnswered user view) :=
  fun a => inferInstanceAs (Decidable ((∀ t < a, t ∉ activeBlock view.states a) ∧ _))

instance (user : UserId) (view : RunView) : DecidablePred (IsReceivedActive user view) :=
  fun k => inferInstanceAs (Decidable (max view.firstMessage 1 ≤ k ∧ _))

/-- The blocks that a message of the user opens, by their first minutes. -/
def answeredStretches (user : UserId) (view : RunView) : Finset ℕ :=
  (Finset.range view.states.length).filter (IsAnswered user view)

/-- The messages of others in Active minutes. -/
def receivedActive (user : UserId) (view : RunView) : Finset ℕ :=
  (Finset.range view.messages.length).filter (IsReceivedActive user view)

/-- What is known of the runs, with the labels that they are given. -/
def runViews (stats : Stats) (conversations : AList fun _ : Int32 => Conversation) :
    List RunView :=
  stats.userStats.dataRuns.zipIdx.filterMap fun run =>
    viewDataRun stats.states conversations (stats.givenStart run.2) run.1

/-- How many stretches of Active minutes an answer opens. -/
def answeredCount (stats : Stats) (conversations : AList fun _ : Int32 => Conversation) : ℕ :=
  ((runViews stats conversations).map fun view =>
    (answeredStretches stats.userStats.user view).card).sum

/-- How many messages of others are in Active minutes of the runs. -/
def receivedActiveCount (stats : Stats)
    (conversations : AList fun _ : Int32 => Conversation) : ℕ :=
  ((runViews stats conversations).map fun view =>
    (receivedActive stats.userStats.user view).card).sum

/-! ### One opening for each stretch -/

section

variable {user : UserId} {view : RunView} {states : List State} {i j k : ℕ} {m : Message}

theorem activeBlock_eq (h : i ∈ activeBlock states j) :
    activeBlock states i = activeBlock states j :=
  (Set.ordConnectedComponent_eq h).symm

/-- The first minute of a block, if it has one. -/
def blockStart (states : List State) (idx : ℕ) : ℕ :=
  if h : (blockMinutes states idx).Nonempty then (blockMinutes states idx).min' h else 0

theorem blockStart_mem (h : i ∈ activeMinutes states) :
    blockStart states i ∈ activeBlock states i := by
  have hne : (blockMinutes states i).Nonempty :=
    ⟨i, mem_blockMinutes.mpr (Set.self_mem_ordConnectedComponent.mpr h)⟩
  rw [blockStart, dif_pos hne]
  exact mem_blockMinutes.mp (Finset.min'_mem _ hne)

theorem blockStart_le (h : j ∈ activeBlock states i) : blockStart states i ≤ j := by
  have hmem := mem_blockMinutes.mpr h
  rw [blockStart, dif_pos ⟨j, hmem⟩]
  exact Finset.min'_le _ _ hmem

/-- Only one message opens a block. -/
theorem eq_of_opensBlock {k' : ℕ} {m' : Message} (h : OpensBlock user view k)
    (h' : OpensBlock user view k') (hm : view.messages[k]? = some m)
    (hm' : view.messages[k']? = some m')
    (hblock : activeBlock view.states (view.minuteIdx m) =
      activeBlock view.states (view.minuteIdx m')) : k = k' := by
  -- the later one would not be the first of its block
  have hnot : ∀ {k k' : ℕ} {m m' : Message}, OpensBlock user view k → OpensBlock user view k' →
      view.messages[k]? = some m → view.messages[k']? = some m' →
      activeBlock view.states (view.minuteIdx m) = activeBlock view.states (view.minuteIdx m') →
      ¬ k < k' := by
    rintro k k' m m' ⟨hfirst, n, hn, hu, -, hactive, -⟩ ⟨-, n', hn', -, -, -, -, -, hfirst'⟩ hm hm'
      hblock hlt
    obtain rfl := Option.some_inj.mp (hm.symm.trans hn)
    obtain rfl := Option.some_inj.mp (hm'.symm.trans hn')
    refine hfirst' k hlt hfirst m hn hu ?_
    rw [← hblock]
    exact Set.self_mem_ordConnectedComponent.mpr hactive
  exact Nat.le_antisymm (Nat.le_of_not_lt (hnot h' h hm' hm hblock.symm))
    (Nat.le_of_not_lt (hnot h h' hm hm' hblock))

/-- **Stretches.** As many blocks are opened as messages open one. -/
theorem card_answeredStretches :
    (answeredStretches user view).card =
      ((Finset.range view.messages.length).filter (OpensBlock user view)).card := by
  symm
  -- each message goes to the begin of its block
  refine Finset.card_bij (fun k _ =>
    (view.messages[k]?).elim 0 fun m => blockStart view.states (view.minuteIdx m)) ?_ ?_ ?_
  · intro k hk
    obtain ⟨hk, hopens⟩ := Finset.mem_filter.mp hk
    obtain ⟨m, hm, -, -, hactive, -⟩ := hopens.2
    have hm : view.messages[k]? = some m := hm
    have hstart := blockStart_mem hactive
    have hblock := activeBlock_eq hstart
    simp only [hm, Option.elim_some]
    refine Finset.mem_filter.mpr ⟨Finset.mem_range.mpr (lt_length_of_mem_activeMinutes
      (Set.ordConnectedComponent_subset hstart)), ?_, k, Finset.mem_range.mp hk, hopens, m, hm, ?_⟩
    · rw [hblock]
      exact fun t ht hin => Nat.not_le_of_lt ht (blockStart_le hin)
    · rw [hblock]
      exact Set.self_mem_ordConnectedComponent.mpr hactive
  · intro k hk k' hk' heq
    have hopens := (Finset.mem_filter.mp hk).2
    have hopens' := (Finset.mem_filter.mp hk').2
    obtain ⟨m, hm, -, -, hactive, -⟩ := hopens.2
    obtain ⟨m', hm', -, -, hactive', -⟩ := hopens'.2
    have hm : view.messages[k]? = some m := hm
    have hm' : view.messages[k']? = some m' := hm'
    simp only [hm, hm', Option.elim_some] at heq
    refine eq_of_opensBlock hopens hopens' hm hm' ?_
    rw [← activeBlock_eq (blockStart_mem hactive), heq, activeBlock_eq (blockStart_mem hactive')]
  · intro a ha
    obtain ⟨-, hfirst, k, hk, hopens, m, hm, hin⟩ := Finset.mem_filter.mp ha
    refine ⟨k, Finset.mem_filter.mpr ⟨Finset.mem_range.mpr hk, hopens⟩, ?_⟩
    have hm : view.messages[k]? = some m := hm
    have hblock := activeBlock_eq hin
    have hactive := Set.ordConnectedComponent_subset hin
    have hself : a ∈ activeBlock view.states (view.minuteIdx m) :=
      Set.mem_ordConnectedComponent_comm.mp hin
    simp only [hm, Option.elim_some]
    refine Nat.le_antisymm (blockStart_le hself) (Nat.le_of_not_lt fun hlt => ?_)
    exact hfirst _ hlt (hblock ▸ blockStart_mem hactive)

end

/-! ### What a label counts -/

section

variable {user : UserId} {view : RunView} {j k : ℕ} {m last : Message} {label : LabeledMessage}

namespace RunView

/-- The last message that the user sent before an index, with where it is. -/
theorem prevSent_cases (user : UserId) (hfirst : max view.firstMessage 1 ≤ k)
    (hk : k ≤ view.messages.length) :
    (view.prevSent user k = none ∧
      ∀ i, max view.firstMessage 1 ≤ i → i < k → ¬ view.isSent user i) ∨
    ∃ j prev, max view.firstMessage 1 ≤ j ∧ j < k ∧ view.messages[j]? = some prev ∧
      prev.user = user ∧ view.prevSent user k = some prev ∧
      ∀ i, j < i → i < k → ¬ view.isSent user i := by
  induction k, hfirst using Nat.le_induction with
  | base => exact .inl ⟨prevSent_of_le le_rfl, fun i hi hlt => absurd hlt (Nat.not_lt_of_le hi)⟩
  | succ k hfirst ih =>
    have hm : view.messages[k]? = some view.messages[k] := List.getElem?_eq_getElem hk
    rw [prevSent_succ hfirst hm]
    by_cases hu : view.messages[k].user = user
    · rw [if_pos hu]
      refine .inr ⟨k, _, hfirst, Nat.lt_succ_self k, hm, hu, rfl, fun i hlt hgt => ?_⟩
      omega
    · -- a message of another user changes nothing
      rw [if_neg hu]
      have hnot : ¬ view.isSent user k := mt (isSent_iff hm).mp hu
      rcases ih (Nat.le_of_succ_le hk) with ⟨hnone, hothers⟩ |
        ⟨j, prev, hj, hjk, hprev, hsent, hlast, hothers⟩
      · refine .inl ⟨hnone, fun i hi hlt => ?_⟩
        rcases Nat.lt_succ_iff_lt_or_eq.mp hlt with hlt | rfl
        · exact hothers i hi hlt
        · exact hnot
      · refine .inr ⟨j, prev, hj, Nat.lt_succ_of_lt hjk, hprev, hsent, hlast, fun i hi hlt => ?_⟩
        rcases Nat.lt_succ_iff_lt_or_eq.mp hlt with hlt | rfl
        · exact hothers i hi hlt
        · exact hnot

end RunView

/-- In an Active minute the flag is not set if the message is the first one in its block. -/
theorem LabelOf.continuing_eq_false_iff (horder : view.InOrder)
    (hof : LabelOf user view k m last label) (hfirst : max view.firstMessage 1 ≤ k)
    (hdate : m.date ≤ view.finalMsgDate)
    (hactive : view.minuteIdx m ∈ activeMinutes view.states) :
    label.continuing = false ↔
      ∀ j < k, max view.firstMessage 1 ≤ j → ∀ prev ∈ view.messages[j]?, prev.user = user →
        view.minuteIdx prev ∉ activeBlock view.states (view.minuteIdx m) := by
  have hk := (List.getElem?_eq_some_iff.mp hof.message_eq).1
  have hcontinuing := hof.continuing_eq
  rcases RunView.prevSent_cases user hfirst hk.le with ⟨hnone, hothers⟩ |
    ⟨j, prev, hj, hjk, hprev, hsent, hlast, hothers⟩
  · rw [hnone] at hcontinuing
    rw [← Option.some_inj.mp hcontinuing]
    refine iff_of_true rfl fun i hlt hi prev' hprev' hu => ?_
    exact absurd ((RunView.isSent_iff hprev').mpr hu) (hothers i hi hlt)
  · rw [hlast] at hcontinuing
    obtain ⟨different, hdifferent, hnot⟩ := Option.map_eq_some_iff.mp hcontinuing
    obtain ⟨hle, hiff⟩ := differentRun_eq_some hdifferent
    have hin : view.minuteIdx prev ∈ activeBlock view.states (view.minuteIdx m) ↔
        different = false := by
      rw [mem_activeBlock_iff hle, hiff, and_iff_left hactive]
    have hflag : label.continuing = false ↔
        view.minuteIdx prev ∉ activeBlock view.states (view.minuteIdx m) := by
      rw [hin, ← hnot, Bool.not_eq_false', Bool.not_eq_false]
    rw [hflag]
    constructor
    · -- the messages before that one are in no later minutes
      intro hout i hlt hi prev' hprev' hu hin'
      rcases Nat.lt_trichotomy i j with hij | rfl | hji
      · have hfirst' := (le_max_left _ _).trans hi
        have hdate' : prev.date ≤ view.finalMsgDate :=
          Int.le_trans (date_le_of_sorted horder.sorted hjk.le hprev hof.message_eq) hdate
        have hearlier := horder.minuteIdx_le hfirst' hij.le hprev' hprev hdate'
        rw [mem_activeBlock_of_le (hearlier.trans hle)] at hin'
        exact hout ((mem_activeBlock_of_le hle).mpr fun t ht => hin' t (hearlier.trans ht))
      · obtain rfl := Option.some_inj.mp (hprev.symm.trans hprev')
        exact hout hin'
      · exact hothers i hji hlt ((RunView.isSent_iff hprev').mpr hu)
    · exact fun hall => hall j hjk hj prev hprev hsent

/-- The label of a message counts as a transition on receiving if the message opens its block. -/
theorem isReceiveTransition_iff (horder : view.InOrder)
    (hlength : view.minutes.length = view.states.length)
    (hfirst : max view.firstMessage 1 ≤ k) (hm : view.messages[k]? = some m)
    (hu : m.user = user) (hdate : m.date ≤ view.finalMsgDate)
    (h : view.label user k = some label) :
    label.isReceiveTransition = true ↔ OpensBlock user view k := by
  obtain ⟨m', last, hof⟩ := RunView.label_eq_some h
  obtain rfl := Option.some_inj.mp (hm.symm.trans hof.message_eq)
  have hstate : determineState view.minutes view.states (view.minuteIdx m) = some .active ↔ _ :=
    determineState_eq_active_iff hlength
  rw [hof.state_eq, Option.some_inj] at hstate
  have hfollows : FollowsIn view k (view.minuteIdx m) ↔ label.idleSent = false := by
    rw [hof.idleSent_eq_false_iff]
    simp only [FollowsIn, hof.last_eq, Option.mem_some_iff, exists_eq_left']
  simp only [LabeledMessage.isReceiveTransition, Bool.and_eq_true, Bool.not_eq_true',
    decide_eq_true_iff, hstate, OpensBlock, hm, Option.mem_some_iff, exists_eq_left', hu, hdate,
    hfirst, true_and, hfollows]
  constructor
  · rintro ⟨⟨hidle, hcontinuing⟩, hactive, hmore⟩
    exact ⟨hactive, hmore, hidle,
      (hof.continuing_eq_false_iff horder hfirst hdate hactive).mp hcontinuing⟩
  · rintro ⟨hactive, hmore, hidle, hfirstOf⟩
    exact ⟨⟨hidle, (hof.continuing_eq_false_iff horder hfirst hdate hactive).mpr hfirstOf⟩,
      hactive, hmore⟩

end

/-! ### One run -/

section

variable {user : UserId} {states : List State}
  {conversations : AList fun _ : Int32 => Conversation} {view : RunView} {i k : ℕ}
  {dataRun : DataRun}

/-- The conversations have their messages in order, at times that there are. -/
def AllInOrder (conversations : AList fun _ : Int32 => Conversation) : Prop :=
  ∀ id c, conversations.lookup id = some c →
    (c.messages.Pairwise fun m m' => m.date ≤ m'.date) ∧ ∀ m ∈ c.messages, minTime ≤ m.date

theorem inOrder_of_view (horder : AllInOrder conversations)
    (hview : viewDataRun states conversations i dataRun = some view) :
    view.InOrder ∧ view.minutes.length = view.states.length := by
  obtain ⟨c, first, hv⟩ := viewDataRun_eq_some hview
  obtain ⟨hsorted, hdates⟩ := horder _ _ hv.lookup_eq
  refine ⟨⟨?_, ?_, hv.messages_eq ▸ hsorted, ?_⟩, hv.length_states.symm⟩
  · rw [hv.firstMsgDate_eq]
    exact hdates _ (List.mem_of_getElem? hv.first_eq)
  · obtain ⟨⟨-, hle⟩, heq⟩ := addTime_eq_some.mp hv.finalMsgDate_eq
    exact heq ▸ hle
  · intro j m hj hm
    rw [hv.messages_eq] at hm
    rw [hv.firstMsgDate_eq]
    exact date_le_of_sorted hsorted (hv.firstMessage_eq ▸ hj) hv.first_eq hm

theorem mem_scanned_iff (horder : view.InOrder) :
    k ∈ scanned view view.indices ↔ max view.firstMessage 1 ≤ k ∧
      ∃ m, view.messages[k]? = some m ∧ m.date ≤ view.finalMsgDate := by
  have hindices : view.indices.Pairwise (· < ·) := List.pairwise_lt_range'
  rw [scanned_eq_filter hindices horder.sorted, List.mem_filter, List.mem_filter,
    RunView.indices, List.mem_range'_1, Option.any_eq_true]
  simp only [decide_eq_true_iff]
  constructor
  · rintro ⟨⟨⟨hfirst, -⟩, hne⟩, hdate⟩
    exact ⟨max_le hfirst (Nat.one_le_iff_ne_zero.mpr hne), hdate⟩
  · rintro ⟨hfirst, m, hm, hdate⟩
    have hlt := (List.getElem?_eq_some_iff.mp hm).1
    have hle := (le_max_left _ _).trans hfirst
    exact ⟨⟨⟨hle, by omega⟩, Nat.one_le_iff_ne_zero.mp ((le_max_right _ _).trans hfirst)⟩, m, hm,
      hdate⟩

theorem scanned_nodup : (scanned view view.indices).Nodup :=
  ((List.takeWhile_sublist _).trans List.filter_sublist).nodup List.nodup_range'

/-- The labels of a run that count are as many as the stretches that are opened in it. -/
theorem countP_sent (horder : view.InOrder) (hlength : view.minutes.length = view.states.length)
    (hlabels : ∀ k ∈ view.sent user view.indices, (view.label user k).isSome) :
    ((view.sent user view.indices).countP fun k =>
      (view.label user k).any (·.isReceiveTransition)) = (answeredStretches user view).card := by
  have hnodup : (view.sent user view.indices).Nodup := scanned_nodup.filter _
  rw [card_answeredStretches, List.countP_eq_length_filter,
    ← List.toFinset_card_of_nodup (hnodup.filter _)]
  congr 1
  apply Finset.ext
  intro k
  rw [List.mem_toFinset, List.mem_filter, Finset.mem_filter, Finset.mem_range]
  constructor
  · rintro ⟨hk, hlabel⟩
    obtain ⟨hscanned, hsent⟩ := List.mem_filter.mp hk
    obtain ⟨hfirst, m, hm, hdate⟩ := (mem_scanned_iff horder).mp hscanned
    obtain ⟨label, heq, hlabel⟩ := (Option.any_eq_true _ _).mp hlabel
    exact ⟨(List.getElem?_eq_some_iff.mp hm).1, (isReceiveTransition_iff horder hlength hfirst hm
      ((RunView.isSent_iff hm).mp hsent) hdate heq).mp hlabel⟩
  · rintro ⟨-, hopens⟩
    obtain ⟨hfirst, m, hm, hu, hdate, -⟩ := id hopens
    have hm : view.messages[k]? = some m := hm
    have hk : k ∈ view.sent user view.indices :=
      List.mem_filter.mpr ⟨(mem_scanned_iff horder).mpr ⟨hfirst, m, hm, hdate⟩,
        (RunView.isSent_iff hm).mpr hu⟩
    obtain ⟨label, hlabel⟩ := Option.isSome_iff_exists.mp (hlabels k hk)
    refine ⟨hk, (Option.any_eq_true _ _).mpr ⟨label, hlabel, ?_⟩⟩
    exact (isReceiveTransition_iff horder hlength hfirst hm hu hdate hlabel).mpr hopens

/-- A pass takes out of the count what others have sent in Active minutes. -/
theorem length_activeReceived (horder : view.InOrder)
    (hview : viewDataRun states conversations i dataRun = some view) :
    (activeReceived user states conversations i dataRun).length =
      (receivedActive user view).card := by
  simp only [activeReceived, hview]
  rw [List.length_map, ← List.toFinset_card_of_nodup (scanned_nodup.filter _)]
  congr 1
  apply Finset.ext
  intro k
  rw [List.mem_toFinset, List.mem_filter, receivedActive, Finset.mem_filter, Finset.mem_range,
    mem_scanned_iff horder]
  constructor
  · rintro ⟨⟨hfirst, m, hm, hdate⟩, hactive⟩
    obtain ⟨hu, hstate⟩ := (isActiveReceived_iff hm).mp hactive
    exact ⟨(List.getElem?_eq_some_iff.mp hm).1, hfirst, m, hm, hu, hdate, hstate⟩
  · rintro ⟨-, hfirst, m, hm, hu, hdate, hstate⟩
    exact ⟨⟨hfirst, m, hm, hdate⟩, (isActiveReceived_iff hm).mpr ⟨hu, hstate⟩⟩

end

/-! ### All runs -/

section

variable {stats : Stats} {conversations : AList fun _ : Int32 => Conversation} {r : ℕ}
  {ls : List LabeledMessage}

theorem runViews_eq :
    runViews stats conversations =
      ((sliceStarts 0 stats.userStats.dataRuns).zip stats.userStats.dataRuns).filterMap
        fun run => viewDataRun stats.states conversations run.1 run.2 := by
  rw [zip_sliceStarts, List.filterMap_map]
  rfl

/-- A sum over what there is. -/
theorem sum_filterMap {α β : Type} (f : α → Option β) (g : α → ℕ) (h : β → ℕ) {xs : List α}
    (hnone : ∀ x ∈ xs, f x = none → g x = 0)
    (hsome : ∀ x ∈ xs, ∀ y, f x = some y → g x = h y) :
    (xs.map g).sum = ((xs.filterMap f).map h).sum := by
  induction xs with
  | nil => rfl
  | cons x xs ih =>
    obtain ⟨hnone', hnones⟩ := List.forall_mem_cons.mp hnone
    obtain ⟨hsome', hsomes⟩ := List.forall_mem_cons.mp hsome
    rw [List.map_cons, List.sum_cons, ih hnones hsomes]
    cases hf : f x with
    | none => rw [List.filterMap_cons_none hf, hnone' hf, Nat.zero_add]
    | some y => rw [List.filterMap_cons_some hf, List.map_cons, List.sum_cons, hsome' y hf]

/-- **The two counts.** Above are counted the stretches that are opened by an answer, below the
messages of others that are in no Active minute of the runs. -/
theorem statsToLabeled_counts (horder : AllInOrder conversations)
    (h : statsToLabeled stats conversations = some (ls, r)) :
    receiveTransitionCount ls = answeredCount stats conversations ∧
      r + receivedActiveCount stats conversations =
        countOthers stats.userStats.user conversations := by
  have hlabels := statsToLabeled_labels h
  constructor
  · have hcount : receiveTransitionCount ls =
        (ls.map some).countP fun label => label.any (·.isReceiveTransition) := by
      rw [List.countP_map]
      rfl
    rw [hcount, hlabels, List.countP_map, sentMessages, List.countP_flatMap, answeredCount,
      runViews_eq]
    apply sum_filterMap
    · intro run _ hnone
      simp only [Function.comp_apply, sentIn, hnone, List.countP_nil]
    · intro run hrun view hview
      obtain ⟨hview', hlength⟩ := inOrder_of_view horder hview
      simp only [Function.comp_apply, sentIn, hview, List.countP_map]
      refine countP_sent hview' hlength fun k hk => ?_
      -- every message of the run has its label in the list
      have hmem : (view, k) ∈ sentMessages stats conversations := by
        refine List.mem_flatMap.mpr ⟨run, hrun, ?_⟩
        rw [sentIn, hview]
        exact List.mem_map_of_mem hk
      have hlabel : view.label stats.userStats.user k ∈ ls.map some :=
        hlabels ▸ List.mem_map_of_mem hmem
      obtain ⟨label, -, heq⟩ := List.mem_map.mp hlabel
      exact heq ▸ rfl
  · have hcontribute := labelDataRuns_eq.symm.trans h
    obtain ⟨labels, -, hcontribute⟩ := Option.bind_eq_some_iff.mp hcontribute
    obtain ⟨hle, hout⟩ := Option.ite_none_right_eq_some.mp hcontribute
    have hr := (Prod.mk.inj (Option.some_inj.mp hout)).2
    have hactive : receivedActiveCount stats conversations =
        (activeAt stats.userStats.user stats.states conversations
          ((sliceStarts 0 stats.userStats.dataRuns).zip stats.userStats.dataRuns)).length := by
      rw [activeAt, List.length_flatMap, receivedActiveCount, runViews_eq]
      symm
      apply sum_filterMap
      · intro run _ hnone
        simp only [activeReceived, hnone, List.length_nil]
      · exact fun run _ view hview =>
          length_activeReceived (inOrder_of_view horder hview).1 hview
    rw [hactive, ← hr]
    exact Nat.sub_add_cancel hle

end

/-! ### The rate -/

/-- The conversations of a user are among all. -/
theorem mem_of_lookup_userConvo {user : UserId} {conversations : List Conversation} {id : Int32}
    {c : Conversation} (h : (userConvo user conversations).lookup id = some c) :
    c ∈ conversations := by
  induction conversations using List.reverseRecOn with
  | nil => simp [userConvo] at h
  | append_singleton cs d ih =>
    rw [userConvo, List.foldl_concat, ← userConvo, addConvo] at h
    split at h
    · by_cases hid : id = d.hash
      · subst hid
        rw [AList.lookup_insert] at h
        exact Option.some_inj.mp h ▸ List.mem_concat_self
      · rw [AList.lookup_insert_ne hid] at h
        exact List.mem_append_left _ (ih h)
    · exact List.mem_append_left _ (ih h)

theorem user_of_parseStatsFile {user : UserId} {data : Text} {stats : Stats}
    (h : parseStatsFile user data = some stats) : stats.userStats.user = user := by
  unfold parseStatsFile at h
  split at h
  case h_1 =>
    obtain ⟨counters, -, h⟩ := Option.bind_eq_some_iff.mp h
    obtain ⟨dataRuns, -, h⟩ := Option.bind_eq_some_iff.mp h
    exact Option.some_inj.mp h ▸ rfl
  case h_2 => cases h

/-- **The fitted rate.** If the messages of a user are labelled, the rate that is written is a
probability, and the generator accepts it, exactly if the stretches of Active minutes that an answer
opens and the messages of others in Active minutes together are no more than the messages of others,
or all messages of others are in Active minutes. -/
theorem fittedR_accepted_iff {Bernoulli : Type} (new : ℚ → Option Bernoulli)
    (hnew : ∀ p, (new p).isSome ↔ 0 ≤ p ∧ p ≤ 1) {user : UserId}
    {conversations : List Conversation} {data : Text} {stats : Stats}
    (hsorted : ∀ c ∈ conversations, c.messages.Pairwise fun m m' => m.date ≤ m'.date)
    (hdates : ∀ c ∈ conversations, ∀ m ∈ c.messages, minTime ≤ m.date)
    (hstats : parseStatsFile user data = some stats)
    (hlabels : (statsToLabeled stats (userConvo user conversations)).isSome) :
    (∀ fitted, processFile user conversations data = some (some fitted) →
        (0 ≤ fitted.rProb ∧ fitted.rProb ≤ 1) ∧ (new fitted.rProb).isSome) ↔
      answeredCount stats (userConvo user conversations) +
          receivedActiveCount stats (userConvo user conversations) ≤
          countOthers user (userConvo user conversations) ∨
        countOthers user (userConvo user conversations) =
          receivedActiveCount stats (userConvo user conversations) := by
  obtain ⟨⟨labeled, idle⟩, hout⟩ := Option.isSome_iff_exists.mp hlabels
  have horder : AllInOrder (userConvo user conversations) := fun id c hc =>
    ⟨hsorted c (mem_of_lookup_userConvo hc), hdates c (mem_of_lookup_userConvo hc)⟩
  obtain ⟨hopen, hidle⟩ := statsToLabeled_counts horder hout
  obtain rfl : stats.userStats.user = user := user_of_parseStatsFile hstats
  have hfile : processFile stats.userStats.user conversations data = some (fit labeled idle) := by
    rw [processFile, processUser, hstats]
    exact congrArg (Option.map _) hout
  rw [← hidle, ← hopen, Nat.add_le_add_iff_right, Nat.add_eq_right, hfile, ← rProb_le_one_iff]
  constructor
  · intro haccepted
    by_contra hmore
    obtain ⟨fitted, hfitted⟩ := Option.isSome_iff_exists.mp (fit_isSome hmore)
    have hle := (haccepted fitted (congrArg some hfitted)).1.2
    rw [fit_eq_some hfitted] at hle
    exact hmore hle
  · intro hle fitted hfitted
    rw [hnew, fit_eq_some (Option.some_inj.mp hfitted)]
    exact ⟨⟨rProb_nonneg _ _, hle⟩, rProb_nonneg _ _, hle⟩

/-- User 7 answers user 8 in two stretches, with a pause in between. -/
def answers : List Message :=
  [⟨0, 7⟩, ⟨10000000000, 8⟩, ⟨20000000000, 7⟩, ⟨60000000000, 8⟩, ⟨120000000000, 8⟩,
    ⟨130000000000, 7⟩, ⟨140000000000, 7⟩]

def answerConvs : List Conversation := [⟨1, 140000000000, 2, answers, by decide⟩]

def answerRun : DataRun := ⟨1, 0, List.replicate 60 0 ++ [2, 0, 2]⟩

def answerStates (during : State) : List State :=
  List.replicate 60 .idle ++ [.active, during, .active]

def answerFile (during : State) : Text :=
  logCounters [answerRun] ++ stateLine (answerStates during) ++ []

theorem parseStatsFile_answerFile (during : State) :
    parseStatsFile 7 (answerFile during) = some ⟨⟨7, [answerRun]⟩, answerStates during⟩ := by
  refine parseStatsFile_of_sized 7 (List.cons_ne_nil _ _) ?_ rfl []
  intro run hrun
  obtain rfl := List.mem_singleton.mp hrun
  exact ⟨by decide, by decide, by decide⟩

/-- Both stretches open with an answer, and of the three messages received one is not in an Active
minute: the rate is two. -/
theorem fittedR_of_pause :
    (extract answerConvs).bind (·.lookup 7) = some [answerRun] ∧
      ∃ fitted, processFile 7 answerConvs (answerFile .idle) = some (some fitted) ∧
        fitted.rProb = 2 ∧ ¬ fitted.rProb ≤ 1 := by
  have hextract : (extract answerConvs).bind (·.lookup 7) = some [answerRun] := by decide +kernel
  have hcounts : (statsToLabeled ⟨⟨7, [answerRun]⟩, answerStates .idle⟩
      (userConvo 7 answerConvs)).map (fun out => (receiveTransitionCount out.1, out.2)) =
        some (2, 1) := by decide +kernel
  obtain ⟨⟨labeled, idle⟩, hout, hcount⟩ := Option.map_eq_some_iff.mp hcounts
  obtain ⟨hcount, rfl⟩ := Prod.mk.inj hcount
  have hrate : rProb (receiveTransitionCount labeled) 1 = 2 := by
    rw [hcount, rProb, if_pos (by decide)]
    norm_num
  obtain ⟨fitted, hfitted⟩ := Option.isSome_iff_exists.mp
    (fit_isSome (mt hrate.symm.trans_le (by norm_num)))
  have hr := (fit_eq_some hfitted).trans hrate
  refine ⟨hextract, fitted, ?_, hr, by rw [hr]; norm_num⟩
  rw [processFile, processUser, parseStatsFile_answerFile]
  exact (congrArg (Option.map _) hout).trans (congrArg some hfitted)

/-- Without the pause there is one stretch, and the first answer opens it. -/
theorem fittedR_accepted_answers :
    ∃ fitted, processFile 7 answerConvs (answerFile .active) = some (some fitted) ∧
      (0 ≤ fitted.rProb ∧ fitted.rProb ≤ 1) ∧
        (if 0 ≤ fitted.rProb ∧ fitted.rProb ≤ 1 then some fitted.rProb else none).isSome := by
  have hdata : ((processFile 7 answerConvs (answerFile .active)).bind id).isSome := by
    rw [processFile, processUser, parseStatsFile_answerFile]
    decide +kernel
  obtain ⟨fitted, hfitted⟩ := Option.isSome_iff_exists.mp hdata
  obtain ⟨_, hfile, rfl⟩ := Option.bind_eq_some_iff.mp hfitted
  have hlabels : (statsToLabeled ⟨⟨7, [answerRun]⟩, answerStates .active⟩
      (userConvo 7 answerConvs)).isSome := by decide +kernel
  have haccepted := (fittedR_accepted_iff (fun p => if 0 ≤ p ∧ p ≤ 1 then some p else none)
    (by simp) (by decide) (by decide) (parseStatsFile_answerFile .active) hlabels).mpr
      (by decide +kernel)
  exact ⟨fitted, hfile, haccepted fitted hfile⟩

end SignalSim.SamExtractor
