import SignalSim.SamExtractor.Process

/-!
# What the passes for the runs contribute

Each pass of the outer loop of `stats_to_labeled` adds labelled messages to the list and takes a
number of messages out of the count of those received while idle. Neither depends on what the
passes before it did; a pass panics by itself, or because the count is too small.

## Main definitions

* `scanned` — the messages that a pass looks at
* `activeReceived` — those it takes out of the count

## Main results

* `labelDataRun_eq` — what a pass does to the list and the count
* `labelDataRuns_eq` — what all passes do together
* `mem_activeReceived_iff` — which messages a pass takes out of the count
-/

namespace SignalSim.SamExtractor

/-! ### The counters of a run -/

theorem findIdx?_replicate_append (k : ℕ) {c : UInt16} (hc : 0 < c) (cs : List UInt16) :
    (List.replicate k 0 ++ c :: cs).findIdx? (0 < ·) = some k := by
  induction k with
  -- no zeros left: the search stops at `c`
  | zero => simp [List.findIdx?_cons, hc]
  | succ k ih => simp [List.replicate_succ, List.findIdx?_cons, ih]

/-- An hour of zeros before and at most one behind the minutes are trimmed. -/
theorem trimZeros_append {minutes : List UInt16} {c : UInt16} {k : ℕ}
    (hlast : minutes.getLast? = some c) (hc : 0 < c) (hk : k ≤ 60) :
    trimZeros (List.replicate 60 0 ++ minutes ++ List.replicate k 0) = some minutes := by
  -- read from the end, the first counter that is not zero comes after the `k` zeros
  obtain ⟨front, rfl⟩ := List.getLast?_eq_some_iff.mp hlast
  have hzeros : (List.replicate 60 (0 : UInt16)).length = 60 := List.length_replicate
  have hposition : ((front ++ [c]) ++ List.replicate k (0 : UInt16)).reverse.findIdx? (0 < ·) =
      some k := by
    rw [List.reverse_append, List.reverse_append, List.reverse_replicate]
    exact findIdx?_replicate_append k hc _
  have hlength : ((front ++ [c]) ++ List.replicate k (0 : UInt16)).length - k =
      (front ++ [c]).length := by
    rw [List.length_append, List.length_replicate, Nat.add_sub_cancel]
  -- the comparison slice of the assertion is there because `k` is at most an hour
  have hexpected : slice (List.replicate 60 (0 : UInt16)) 0 k = some (List.replicate k 0) := by
    rw [slice, if_pos ⟨Nat.zero_le k, hzeros ▸ hk⟩, List.drop_zero, List.take_replicate,
      Nat.min_eq_left hk]
  unfold trimZeros
  rw [List.append_assoc, if_neg (by rw [List.length_append, hzeros]; omega),
    List.take_left' hzeros, List.drop_left' hzeros]
  simp only [ne_eq, not_true_eq_false, if_false, hposition, Option.bind_eq_bind, Option.bind_some,
    hlength, List.drop_left', List.take_left', List.length_replicate, hexpected]

theorem length_trimZeros {counters minutes : List UInt16} (h : trimZeros counters = some minutes) :
    minutes.length + 60 ≤ counters.length := by
  unfold trimZeros at h
  split at h
  case isTrue => cases h
  case isFalse hlen =>
    obtain ⟨-, h⟩ := Option.ite_none_left_eq_some.mp h
    obtain ⟨position, -, h⟩ := Option.bind_eq_some_iff.mp h
    obtain ⟨expected, -, h⟩ := Option.bind_eq_some_iff.mp h
    obtain ⟨-, h⟩ := Option.ite_none_left_eq_some.mp h
    obtain rfl := Option.some_inj.mp h
    rw [List.length_take, List.length_drop]
    omega

/-- The indices of the messages that the loop over the messages of a run comes to. -/
def scanned (view : RunView) (is : List ℕ) : List ℕ :=
  (is.filter (· ≠ 0)).takeWhile fun i =>
    (view.messages[i]?).any fun m => m.date ≤ view.finalMsgDate

/-- The message is by another user and in an Active-labelled minute of the run. -/
def isActiveReceived (user : UserId) (view : RunView) (i : ℕ) : Bool :=
  (view.messages[i]?).any fun m =>
    m.user ≠ user ∧ view.states[view.minuteIdx m]? = some .active

/-- The messages that the pass for a run takes out of the count, by conversation and index. -/
def activeReceived (user : UserId) (states : List State)
    (conversations : AList fun _ : Int32 => Conversation) (i : ℕ) (dataRun : DataRun) :
    List (Int32 × ℕ) :=
  match viewDataRun states conversations i dataRun with
  | none => []
  | some view => ((scanned view view.indices).filter (isActiveReceived user view)).map
      fun j => (dataRun.conversationId, j)

/-- What a computation with `labels` to add and `n` messages to take out of the count makes of
the list and the count. -/
def contribute (labels : Option (List LabeledMessage)) (n : ℕ)
    (labeledMessages : List LabeledMessage) (receivedMessages : ℕ) :
    Option (List LabeledMessage × ℕ) :=
  labels.bind fun ls =>
    if n ≤ receivedMessages then some (labeledMessages ++ ls, receivedMessages - n) else none

section

variable {user : UserId} {view : RunView} {i : ℕ} {is : List ℕ} {m : Message}

theorem scanned_cons (hi : i ≠ 0) (hm : view.messages[i]? = some m)
    (hdate : m.date ≤ view.finalMsgDate) : scanned view (i :: is) = i :: scanned view is := by
  simp [scanned, hi, hm, hdate]

theorem scanned_of_late (hi : i ≠ 0) (hm : view.messages[i]? = some m)
    (hdate : view.finalMsgDate < m.date) : scanned view (i :: is) = [] := by
  simp [scanned, hi, hm, hdate]

theorem takeWhile_eq_filter {α : Type*} {p : α → Bool} {xs : List α}
    (h : xs.Pairwise fun a b => p b → p a) : xs.takeWhile p = xs.filter p := by
  induction xs with
  | nil => rfl
  | cons x xs ih =>
    obtain ⟨hx, hxs⟩ := List.pairwise_cons.mp h
    by_cases hp : p x
    · rw [List.takeWhile_cons_of_pos hp, List.filter_cons_of_pos hp, ih hxs]
    · rw [List.takeWhile_cons_of_neg hp, List.filter_cons_of_neg hp]
      symm
      apply List.filter_eq_nil_iff.mpr
      intro y hy hpy
      exact hp (hx y hy hpy)

theorem date_le_of_sorted {ms : List Message} {j : ℕ} {m' : Message}
    (h : ms.Pairwise fun m m' => m.date ≤ m'.date) (hij : i ≤ j) (hm : ms[i]? = some m)
    (hm' : ms[j]? = some m') : m.date ≤ m'.date := by
  obtain ⟨hi, rfl⟩ := List.getElem?_eq_some_iff.mp hm
  obtain ⟨hj, rfl⟩ := List.getElem?_eq_some_iff.mp hm'
  rcases Nat.eq_or_lt_of_le hij with rfl | hlt
  · exact le_rfl
  · exact List.pairwise_iff_getElem.mp h i j hi hj hlt

/-- If the messages are in order, the loop looks at all up to the end of the run. -/
theorem scanned_eq_filter (his : is.Pairwise (· < ·))
    (hsorted : view.messages.Pairwise fun m m' => m.date ≤ m'.date) :
    scanned view is = (is.filter (· ≠ 0)).filter fun i =>
      (view.messages[i]?).any fun m => m.date ≤ view.finalMsgDate := by
  apply takeWhile_eq_filter
  apply (his.sublist List.filter_sublist).imp
  intro i j hij hj
  obtain ⟨m', hm', hle⟩ := (Option.any_eq_true _ _).mp hj
  obtain ⟨hlen, -⟩ := List.getElem?_eq_some_iff.mp hm'
  have hm : view.messages[i]? = some view.messages[i] := List.getElem?_eq_getElem (hij.trans hlen)
  rw [hm, Option.any_some, decide_eq_true_iff]
  exact Int.le_trans (date_le_of_sorted hsorted hij.le hm hm') (of_decide_eq_true hle)

theorem isActiveReceived_iff (hm : view.messages[i]? = some m) :
    isActiveReceived user view i = true ↔
      m.user ≠ user ∧ view.states[view.minuteIdx m]? = some .active := by
  simp [isActiveReceived, hm]

variable {loop : LabelLoop}

theorem labelMessages_none (hi : i ≠ 0) (hm : view.messages[i]? = none) :
    labelMessages user view (i :: is) loop = none := by
  rw [labelMessages, if_neg hi, hm]
  rfl

theorem labelMessages_of_late (hi : i ≠ 0) (hm : view.messages[i]? = some m)
    (hdate : view.finalMsgDate < m.date) :
    labelMessages user view (i :: is) loop = some loop := by
  rw [labelMessages, if_neg hi, hm]
  exact if_pos hdate

theorem labelMessages_cons (hi : i ≠ 0) (hm : view.messages[i]? = some m)
    (hdate : m.date ≤ view.finalMsgDate) :
    labelMessages user view (i :: is) loop =
      (labelMessage user view i m loop).bind (labelMessages user view is) := by
  rw [labelMessages, if_neg hi, hm]
  exact if_neg (Int.not_lt.mpr hdate)

/-- What the loop returns. -/
def LabelLoop.result (loop : LabelLoop) : List LabeledMessage × ℕ :=
  (loop.labeledMessages, loop.receivedMessages)

/-- A sent message adds its label. -/
theorem contribute_sent (label : LabeledMessage) (labels : Option (List LabeledMessage)) (n : ℕ)
    (ls : List LabeledMessage) (r : ℕ) :
    contribute (labels.map (label :: ·)) n ls r = contribute labels n (ls ++ [label]) r := by
  cases labels with
  | none => rfl
  | some labels => simp [contribute]

/-- A message received in an Active minute takes one from the count. -/
theorem contribute_received (labels : Option (List LabeledMessage)) (n : ℕ)
    (ls : List LabeledMessage) (r : ℕ) :
    contribute labels (n + 1) ls (r + 1) = contribute labels n ls r := by
  cases labels with
  | none => rfl
  | some labels => simp [contribute]

/-- The loop over the messages adds labels and takes from the count. -/
theorem labelMessages_eq (user : UserId) (view : RunView) (is : List ℕ) (prevTime : Option ℤ)
    (prevIdx : Option ℕ) :
    ∃ labels, ∀ ls r,
      (labelMessages user view is ⟨ls, r, prevTime, prevIdx⟩).map LabelLoop.result =
        contribute labels ((scanned view is).filter (isActiveReceived user view)).length ls r := by
  -- The labels depend on what was sent before, the count does not; so the induction is for any
  -- previous message, list and count.
  induction is generalizing prevTime prevIdx with
  | nil =>
    refine ⟨some [], fun ls r => ?_⟩
    simp [labelMessages, contribute, scanned, LabelLoop.result]
  | cons i is ih =>
    by_cases hi : i = 0
    · subst hi
      exact ih prevTime prevIdx
    cases hm : view.messages[i]? with
    | none =>
      refine ⟨none, fun ls r => ?_⟩
      rw [labelMessages_none hi hm]
      rfl
    | some m =>
      by_cases hdate : view.finalMsgDate < m.date
      · refine ⟨some [], fun ls r => ?_⟩
        rw [labelMessages_of_late hi hm hdate, scanned_of_late hi hm hdate]
        simp [contribute, LabelLoop.result]
      have hle := Int.not_lt.mp hdate
      by_cases hu : m.user = user
      · -- a sent message gets a label, which depends on the ones sent before it
        -- the message is the user's own, so nothing is taken out of the count
        have hactive : ¬ isActiveReceived user view i = true := by
          rw [isActiveReceived_iff hm]
          exact fun h => h.1 hu
        obtain ⟨labels, hlabels⟩ := ih (some m.date) (some (view.minuteIdx m))
        refine ⟨(view.messages[i - 1]?).bind fun lastMsg =>
          (labelSent view prevTime prevIdx lastMsg m).bind fun label =>
            labels.map (label :: ·), fun ls r => ?_⟩
        rw [labelMessages_cons hi hm hle, scanned_cons hi hm hle, List.filter_cons_of_neg hactive,
          labelMessage, if_pos hu]
        cases hlast : view.messages[i - 1]? with
        | none => rfl
        | some lastMsg =>
          cases hlabel : labelSent view prevTime prevIdx lastMsg m with
          | none =>
            simp only [Option.bind_eq_bind, Option.bind_some, hlabel]
            rfl
          | some label =>
            simp only [Option.bind_eq_bind, Option.bind_some, hlabel, contribute_sent]
            exact hlabels (ls ++ [label]) r
      · obtain ⟨labels, hlabels⟩ := ih prevTime prevIdx
        refine ⟨labels, fun ls r => ?_⟩
        rw [labelMessages_cons hi hm hle, scanned_cons hi hm hle, labelMessage, if_neg hu,
          countReceived]
        by_cases hstate : view.states[view.minuteIdx m]? = some .active
        · -- a message received in an Active minute counts out
          have hactive : isActiveReceived user view i = true :=
            (isActiveReceived_iff hm).mpr ⟨hu, hstate⟩
          rw [List.filter_cons_of_pos hactive, if_pos hstate, List.length_cons]
          -- with a count of zero both sides panic
          cases r with
          | zero =>
            rw [if_pos rfl]
            cases labels <;> rfl
          | succ r =>
            rw [if_neg (Nat.succ_ne_zero r), contribute_received]
            exact hlabels ls r
        · have hactive : ¬ isActiveReceived user view i = true := by
            rw [isActiveReceived_iff hm]
            exact fun h => hstate h.2
          rw [List.filter_cons_of_neg hactive, if_neg hstate]
          exact hlabels ls r

end

/-! ### The passes -/

section

variable (user : UserId) (states : List State)
  (conversations : AList fun _ : Int32 => Conversation)

/-- The labels that a run gets if its own start at `i`: those from a pass that the count does
not stop. -/
def runLabels (i : ℕ) (dataRun : DataRun) : Option (List LabeledMessage) :=
  (labelDataRun user states conversations i dataRun []
    (activeReceived user states conversations i dataRun).length).map Prod.fst

/-- The labels of runs whose own start at the given positions. -/
def labelsAt (runs : List (ℕ × DataRun)) : Option (List LabeledMessage) :=
  (runs.mapM fun run => runLabels user states conversations run.1 run.2).map List.flatten

/-- The messages that the passes for these runs take out of the count. -/
def activeAt (runs : List (ℕ × DataRun)) : List (Int32 × ℕ) :=
  runs.flatMap fun run => activeReceived user states conversations run.1 run.2

/-- The values of `i` in a loop over runs that goes on from `i` with `next i dataRun`. -/
def runStarts (next : ℕ → DataRun → ℕ) (i : ℕ) : List DataRun → List ℕ
  | [] => []
  | dataRun :: dataRuns => i :: runStarts next (next i dataRun) dataRuns

/-- The values of `i` in the loop of the code. -/
def sliceStarts : ℕ → List DataRun → List ℕ := runStarts fun _ dataRun => nextI dataRun

variable {user states conversations} {i : ℕ} {dataRun : DataRun} {dataRuns : List DataRun}
  {ls : List LabeledMessage} {r : ℕ}

theorem contribute_self (labels : Option (List LabeledMessage)) (n : ℕ) :
    (contribute labels n [] n).map Prod.fst = labels := by
  cases labels with
  | none => rfl
  | some labels => simp [contribute]

theorem contribute_bind (labels labels' : Option (List LabeledMessage)) (n n' : ℕ) :
    ((contribute labels n ls r).bind fun out => contribute labels' n' out.1 out.2) =
      contribute (labels.bind fun l => labels'.map (l ++ ·)) (n + n') ls r := by
  cases labels with
  | none => rfl
  | some l =>
    cases labels' with
    | none => simp [contribute]
    | some l' =>
      -- The count suffices for both if and only if it suffices for the first and, less that, for
      -- the second.
      simp only [contribute, Option.bind_some, Option.map_some]
      by_cases hn : n ≤ r
      · simp only [if_pos hn, Option.bind_some, List.append_assoc]
        by_cases hn' : n' ≤ r - n
        · rw [if_pos hn', if_pos (by omega), Nat.sub_sub]
        · rw [if_neg hn', if_neg (by omega)]
      · rw [if_neg hn, if_neg (by omega)]
        rfl

/-- **One pass.** The pass for a run adds the labels of the run and takes the messages received
in its Active minutes from the count. -/
theorem labelDataRun_eq :
    labelDataRun user states conversations i dataRun ls r =
      contribute (runLabels user states conversations i dataRun)
        (activeReceived user states conversations i dataRun).length ls r := by
  -- the labels of the loop, which are then seen to be those of the run by itself
  have hlabels : ∃ labels, ∀ ls r,
      labelDataRun user states conversations i dataRun ls r =
        contribute labels (activeReceived user states conversations i dataRun).length ls r := by
    cases hview : viewDataRun states conversations i dataRun with
    | none =>
      refine ⟨none, fun ls r => ?_⟩
      rw [labelDataRun, hview]
      rfl
    | some view =>
      obtain ⟨labels, hlabels⟩ := labelMessages_eq user view view.indices none none
      refine ⟨labels, fun ls r => ?_⟩
      have hlength : (activeReceived user states conversations i dataRun).length =
          ((scanned view view.indices).filter (isActiveReceived user view)).length := by
        simp [activeReceived, hview]
      rw [hlength, ← hlabels, labelDataRun, hview, Option.map_eq_bind]
      rfl
  obtain ⟨labels, hlabels⟩ := hlabels
  have hself : runLabels user states conversations i dataRun = labels := by
    rw [runLabels, hlabels, contribute_self]
  rw [hlabels, hself]

theorem labelsAt_cons {runs : List (ℕ × DataRun)} :
    labelsAt user states conversations ((i, dataRun) :: runs) =
      (runLabels user states conversations i dataRun).bind fun l =>
        (labelsAt user states conversations runs).map (l ++ ·) := by
  unfold labelsAt
  rw [List.mapM_cons]
  cases runLabels user states conversations i dataRun with
  | none => rfl
  | some l =>
    cases runs.mapM fun run => runLabels user states conversations run.1 run.2 <;> rfl

theorem activeAt_cons {runs : List (ℕ × DataRun)} :
    activeAt user states conversations ((i, dataRun) :: runs) =
      activeReceived user states conversations i dataRun ++
        activeAt user states conversations runs :=
  List.flatMap_cons

theorem length_runStarts {next : ℕ → DataRun → ℕ} :
    (runStarts next i dataRuns).length = dataRuns.length := by
  induction dataRuns generalizing i with
  | nil => rfl
  | cons dataRun dataRuns ih => simp [runStarts, ih]

/-- No run ends beyond the sum of the lengths if none starts beyond the end of the one before. -/
theorem end_le_of_mem_runStarts {next : ℕ → DataRun → ℕ} {p : ℕ × DataRun}
    (hnext : ∀ i run, next i run ≤ i + run.minuteCounters.length)
    (hp : p ∈ (runStarts next i dataRuns).zip dataRuns) :
    p.1 + p.2.minuteCounters.length ≤ i + (dataRuns.map (·.minuteCounters.length)).sum := by
  induction dataRuns generalizing i with
  | nil => cases hp
  | cons dataRun dataRuns ih =>
    rw [runStarts, List.zip_cons_cons] at hp
    rw [List.map_cons, List.sum_cons]
    rcases List.mem_cons.mp hp with rfl | hp
    · exact Nat.add_le_add_left (Nat.le_add_right _ _) i
    · have hend := ih hp
      have hle := hnext i dataRun
      omega

/-- **All passes.** -/
theorem labelDataRuns_eq :
    labelDataRuns user states conversations i dataRuns ls r =
      contribute (labelsAt user states conversations ((sliceStarts i dataRuns).zip dataRuns))
        (activeAt user states conversations ((sliceStarts i dataRuns).zip dataRuns)).length
        ls r := by
  -- each pass hands the next one its list, its count and a new `i`
  induction dataRuns generalizing i ls r with
  | nil => simp [labelDataRuns, contribute, labelsAt, activeAt, sliceStarts, runStarts]
  | cons dataRun dataRuns ih =>
    have hpasses : labelDataRuns user states conversations i (dataRun :: dataRuns) ls r =
        (labelDataRun user states conversations i dataRun ls r).bind fun out =>
          labelDataRuns user states conversations (nextI dataRun) dataRuns out.1 out.2 := rfl
    simp only [hpasses, labelDataRun_eq, ih]
    rw [contribute_bind, sliceStarts, runStarts, List.zip_cons_cons, labelsAt_cons, activeAt_cons,
      List.length_append]

end

/-! ### The count -/

/-- What the pass for a run has found out before it comes to the messages. -/
structure ViewOf (states : List State) (conversations : AList fun _ : Int32 => Conversation)
    (i : ℕ) (run : DataRun) (view : RunView) (c : Conversation) (first : Message) : Prop where
  trim_eq : trimZeros run.minuteCounters = some view.minutes
  slice_eq : slice states (i + 60) (i + 60 + view.minutes.length) = some view.states
  lookup_eq : conversations.lookup run.conversationId = some c
  messages_eq : view.messages = c.messages
  firstMessage_eq : view.firstMessage = run.firstMessage
  first_eq : c.messages[run.firstMessage]? = some first
  firstMsgDate_eq : view.firstMsgDate = first.date
  finalMsgDate_eq : addTime first.date (view.states.length * minute) = some view.finalMsgDate

theorem viewDataRun_eq_some {states : List State}
    {conversations : AList fun _ : Int32 => Conversation} {i : ℕ} {run : DataRun}
    {view : RunView} (h : viewDataRun states conversations i run = some view) :
    ∃ c first, ViewOf states conversations i run view c first := by
  obtain ⟨minutes, hminutes, h⟩ := Option.bind_eq_some_iff.mp h
  obtain ⟨labels, hlabels, h⟩ := Option.bind_eq_some_iff.mp h
  obtain ⟨c, hc, h⟩ := Option.bind_eq_some_iff.mp h
  obtain ⟨first, hfirst, h⟩ := Option.bind_eq_some_iff.mp h
  obtain ⟨final, hfinal, h⟩ := Option.bind_eq_some_iff.mp h
  obtain rfl := Option.some_inj.mp h
  exact ⟨c, first, hminutes, hlabels, hc, rfl, rfl, hfirst, rfl, hfinal⟩

section

variable {user : UserId} {states : List State}
  {conversations : AList fun _ : Int32 => Conversation} {i j : ℕ} {id : Int32}

/-- The messages that others have sent, by conversation and index. -/
def others (user : UserId) (conversations : AList fun _ : Int32 => Conversation) :
    List (Int32 × ℕ) :=
  conversations.entries.flatMap fun c =>
    (c.2.messages.zipIdx.filter fun m => m.1.user ≠ user).map fun m => (c.1, m.2)

theorem length_others : (others user conversations).length = countOthers user conversations := by
  simp only [others, countOthers, List.length_flatMap, List.length_map]
  congr 1
  apply List.map_congr_left
  intro c _
  rw [← List.countP_eq_length_filter, ← List.countP_eq_length_filter]
  conv_rhs => rw [← List.zipIdx_map_fst 0 c.2.messages, List.countP_map]
  rfl

theorem mem_others {c : Conversation} {m : Message} (hc : conversations.lookup id = some c)
    (hm : c.messages[j]? = some m) (hu : m.user ≠ user) : (id, j) ∈ others user conversations := by
  refine List.mem_flatMap.mpr ⟨⟨id, c⟩, List.mem_dlookup_iff conversations.nodupKeys |>.mp hc, ?_⟩
  refine List.mem_map.mpr ⟨(m, j), List.mem_filter.mpr ⟨?_, by simpa using hu⟩, rfl⟩
  exact List.mem_zipIdx_iff_getElem?.mpr hm

theorem others_nodup : (others user conversations).Nodup := by
  rw [others, List.nodup_flatMap]
  constructor
  · intro c _
    -- messages of one conversation differ in their index
    apply List.Nodup.of_map Prod.snd
    rw [List.map_map]
    refine List.Nodup.sublist (List.filter_sublist.map _) ?_
    exact (List.zipIdx_map_snd 0 c.2.messages).symm ▸ List.nodup_range'
  -- messages of two conversations differ in the first component
  · have hkeys : conversations.entries.Pairwise fun c d => c.1 ≠ d.1 :=
      List.pairwise_map.mp conversations.nodupKeys
    apply hkeys.imp
    intro c d hcd
    apply List.disjoint_left.mpr
    intro p hc hd
    obtain ⟨_, -, rfl⟩ := List.mem_map.mp hc
    obtain ⟨_, -, hp⟩ := List.mem_map.mp hd
    exact hcd (congrArg Prod.fst hp).symm

theorem activeReceived_nodup {run : DataRun} :
    (activeReceived user states conversations i run).Nodup := by
  unfold activeReceived
  split
  case h_1 => exact .nil
  case h_2 view _ =>
    apply List.Nodup.map (Prod.mk_right_injective _)
    apply List.Nodup.filter
    exact ((List.takeWhile_sublist _).trans List.filter_sublist).nodup List.nodup_range'

/-- If the messages are in order, a pass takes out of the count the messages of others that are
in an Active minute of the run, from its first message on. The first message of a conversation
is never taken out. -/
theorem mem_activeReceived_iff {run : DataRun} {view : RunView}
    (hview : viewDataRun states conversations i run = some view)
    (hsorted : view.messages.Pairwise fun m m' => m.date ≤ m'.date) :
    (id, j) ∈ activeReceived user states conversations i run ↔
      id = run.conversationId ∧ view.firstMessage ≤ j ∧ j ≠ 0 ∧ ∃ m,
        view.messages[j]? = some m ∧ m.date ≤ view.finalMsgDate ∧ m.user ≠ user ∧
        view.states[view.minuteIdx m]? = some .active := by
  have hindices : view.indices.Pairwise (· < ·) := List.pairwise_lt_range'
  simp only [activeReceived, hview, scanned_eq_filter hindices hsorted, List.mem_map,
    List.mem_filter, Prod.mk.injEq]
  constructor
  · rintro ⟨k, ⟨⟨⟨hrange, hne⟩, hdate⟩, hactive⟩, rfl, rfl⟩
    obtain ⟨m, hm, hle⟩ := (Option.any_eq_true _ _).mp hdate
    obtain ⟨hu, hstate⟩ := (isActiveReceived_iff hm).mp hactive
    exact ⟨rfl, (List.mem_range'_1.mp hrange).1, of_decide_eq_true hne, m, hm,
      of_decide_eq_true hle, hu, hstate⟩
  · rintro ⟨rfl, hfirst, hne, m, hm, hle, hu, hstate⟩
    obtain ⟨hlen, -⟩ := List.getElem?_eq_some_iff.mp hm
    refine ⟨j, ⟨⟨⟨?_, decide_eq_true hne⟩, ?_⟩, (isActiveReceived_iff hm).mpr ⟨hu, hstate⟩⟩,
      rfl, rfl⟩
    · exact List.mem_range'_1.mpr ⟨hfirst, by omega⟩
    · rw [hm, Option.any_some, decide_eq_true_iff]
      exact hle

/-- What a pass takes out of the count are messages of others. -/
theorem mem_others_of_activeReceived {run : DataRun} {p : Int32 × ℕ}
    (hp : p ∈ activeReceived user states conversations i run) : p ∈ others user conversations := by
  unfold activeReceived at hp
  split at hp
  case h_1 => cases hp
  case h_2 view hview =>
    obtain ⟨k, hk, rfl⟩ := List.mem_map.mp hp
    obtain ⟨-, hactive⟩ := List.mem_filter.mp hk
    obtain ⟨m, hm, -⟩ := (Option.any_eq_true _ _).mp hactive
    obtain ⟨c, first, hv⟩ := viewDataRun_eq_some hview
    have hu := ((isActiveReceived_iff hm).mp hactive).1
    rw [hv.messages_eq] at hm
    exact mem_others hv.lookup_eq hm hu

/-- Messages that are taken out of the count once each are no more than it counts. -/
theorem length_activeAt_le {runs : List (ℕ × DataRun)}
    (h : (activeAt user states conversations runs).Nodup) :
    (activeAt user states conversations runs).length ≤ countOthers user conversations := by
  rw [← length_others]
  apply (List.subperm_of_subset h _).length_le
  intro p hp
  obtain ⟨run, -, hp⟩ := List.mem_flatMap.mp hp
  exact mem_others_of_activeReceived hp

end

end SignalSim.SamExtractor
