import Mathlib.Data.List.Dedup
import SignalSim.Foundations.Result
import SignalSim.SamExtractor.Labelling
import SignalSim.SamExtractor.StatsFile

/-!
# Which labels a run gets

The counters of all runs of a user lie one after the other, and so do their labels: those of a run
start where the runs before it end. `parse_stats_file` adds up the lengths to find the counters;
`stats_to_labeled` starts each run where the one before it would end if it were the first.

## Main definitions

* `ownStarts` — where the labels of each run start
* `labelAlone` — what a run gets if it is the only one, with its own labels
* `OwnLabels` — every run gets its own labels, and the count is right

## Main results

* `statsToLabeled_ownLabels` — that is so for at most two runs that share no message received
  in an Active minute, and for no others
-/

namespace SignalSim.SamExtractor

/-- The sums of the lengths of all earlier runs. -/
def ownStarts : ℕ → List DataRun → List ℕ :=
  runStarts fun i dataRun => i + dataRun.minuteCounters.length

namespace Stats

variable (stats : Stats)

/-- The runs, with where their labels start. -/
def ownRuns : List (ℕ × DataRun) :=
  (ownStarts 0 stats.userStats.dataRuns).zip stats.userStats.dataRuns

/-- Only one run, with its own labels. -/
def alone (start : ℕ) (dataRun : DataRun) : Stats :=
  ⟨⟨stats.userStats.user, [dataRun]⟩,
    (stats.states.drop start).take dataRun.minuteCounters.length⟩

end Stats

section

variable (stats : Stats) (conversations : AList fun _ : Int32 => Conversation)

/-- What a run gets by itself, with its own labels. -/
def labelAlone (run : ℕ × DataRun) : Option (List LabeledMessage × ℕ) :=
  statsToLabeled (stats.alone run.1 run.2) conversations

/-- The messages of others that are in Active minutes of the runs, once for each run:
`mem_activeReceived_iff` says which. -/
def ownActive : List (Int32 × ℕ) :=
  activeAt stats.userStats.user stats.states conversations stats.ownRuns

/-- Every run gets its own labels, so the labelled messages are those that the runs get by
themselves, and each message in an Active minute of some run is not counted. -/
structure OwnLabels : Prop where
  starts : sliceStarts 0 stats.userStats.dataRuns = ownStarts 0 stats.userStats.dataRuns
  outcome : statsToLabeled stats conversations =
    (stats.ownRuns.mapM fun run => (labelAlone stats conversations run).map Prod.fst).map
      fun labels => (labels.flatten, countOthers stats.userStats.user conversations -
        ((others stats.userStats.user conversations).filter
          (· ∈ ownActive stats conversations)).length)

end

/-! ### Labels of a run by itself -/

section

variable {stats : Stats} {conversations : AList fun _ : Int32 => Conversation} {start : ℕ}
  {run : DataRun}

/-- The slice of the own labels is that of all labels, further on. -/
theorem slice_drop_take {xs : List State} {len j k : ℕ} (hk : k ≤ len)
    (hlen : start + len ≤ xs.length) :
    slice ((xs.drop start).take len) j k = slice xs (start + j) (start + k) := by
  -- there are as many own labels as the run has counters
  have hown : ((xs.drop start).take len).length = len := by
    rw [List.length_take, List.length_drop]
    omega
  unfold slice
  rw [hown]
  -- both slices are there, or neither
  by_cases hjk : j ≤ k
  · rw [if_pos ⟨hjk, hk⟩, if_pos (by omega), List.take_take, Nat.min_eq_left hk, List.drop_take,
      List.drop_take, List.drop_drop, Nat.add_sub_add_left]
  · rw [if_neg (fun h => hjk h.1), if_neg (by omega)]

theorem viewDataRun_alone (h : start + run.minuteCounters.length ≤ stats.states.length) :
    viewDataRun (stats.alone start run).states conversations 0 run =
      viewDataRun stats.states conversations start run := by
  unfold viewDataRun
  cases hminutes : trimZeros run.minuteCounters with
  | none => rfl
  | some minutes =>
    have hslice : slice (stats.alone start run).states (0 + 60) (0 + 60 + minutes.length) =
        slice stats.states (start + 60) (start + 60 + minutes.length) := by
      -- what is left of the counters, and the hour before it, fit into the run
      have hfit := length_trimZeros hminutes
      rw [Stats.alone, slice_drop_take (by omega) h, Nat.zero_add, ← Nat.add_assoc]
    simp only [Option.bind_eq_bind, Option.bind_some, hslice]

theorem labelDataRun_congr {user : UserId} {states states' : List State} {i i' : ℕ}
    (h : viewDataRun states conversations i run = viewDataRun states' conversations i' run) :
    labelDataRun user states conversations i run =
      labelDataRun user states' conversations i' run := by
  funext labeledMessages receivedMessages
  rw [labelDataRun, labelDataRun, h]

theorem length_activeReceived_le {user : UserId} {states : List State} {i : ℕ} :
    (activeReceived user states conversations i run).length ≤ countOthers user conversations := by
  have hsingle : activeAt user states conversations [(i, run)] =
      activeReceived user states conversations i run := List.flatMap_singleton _ _
  rw [← hsingle]
  apply length_activeAt_le
  rw [hsingle]
  exact activeReceived_nodup

/-- A run by itself gets the labels of its slice. -/
theorem labelAlone_eq (h : start + run.minuteCounters.length ≤ stats.states.length) :
    (labelAlone stats conversations (start, run)).map Prod.fst =
      runLabels stats.userStats.user stats.states conversations start run := by
  have hpass :
      labelDataRun stats.userStats.user (stats.alone start run).states conversations 0 run =
        labelDataRun stats.userStats.user stats.states conversations start run :=
    labelDataRun_congr (viewDataRun_alone h)
  -- with one run there is one pass
  have hone : labelAlone stats conversations (start, run) =
      labelDataRun stats.userStats.user (stats.alone start run).states conversations 0 run []
        (countOthers stats.userStats.user conversations) := Option.bind_fun_some _
  have hle : (activeReceived stats.userStats.user stats.states conversations start run).length ≤
      countOthers stats.userStats.user conversations := length_activeReceived_le
  rw [hone, hpass, labelDataRun_eq]
  cases runLabels stats.userStats.user stats.states conversations start run with
  | none => rfl
  | some labels => simp [contribute, hle]

end

/-! ### Where the labels start -/

section

variable {dataRuns : List DataRun} {i : ℕ}

theorem exists_mem_ownRuns {run : DataRun} (h : run ∈ dataRuns) :
    ∃ start, (start, run) ∈ (ownStarts i dataRuns).zip dataRuns := by
  induction dataRuns generalizing i with
  | nil => cases h
  | cons first runs ih =>
    rw [ownStarts, runStarts, List.zip_cons_cons]
    rcases List.mem_cons.mp h with rfl | h
    · exact ⟨i, List.mem_cons_self⟩
    · obtain ⟨start, hstart⟩ := ih h
      exact ⟨start, List.mem_cons_of_mem _ hstart⟩

/-- The first two runs start where they should. -/
theorem sliceStarts_eq_ownStarts (h : dataRuns.length ≤ 2) :
    sliceStarts 0 dataRuns = ownStarts 0 dataRuns := by
  match dataRuns, h with
  | [], _ => rfl
  | [_], _ => rfl
  | [_, _], _ => simp [sliceStarts, ownStarts, runStarts, nextI]

/-- The third does not, unless the first has no counters. -/
theorem length_le_two_of_starts (h : sliceStarts 0 dataRuns = ownStarts 0 dataRuns)
    (hpos : ∀ run ∈ dataRuns, 0 < run.minuteCounters.length) : dataRuns.length ≤ 2 := by
  match dataRuns with
  | [] => exact Nat.zero_le 2
  | [_] => exact Nat.le_succ 1
  | [_, _] => exact le_rfl
  | run₁ :: run₂ :: run₃ :: runs =>
    -- the third run starts where the second would end if it came first
    have hthird : run₂.minuteCounters.length =
        run₁.minuteCounters.length + run₂.minuteCounters.length := by
      simp only [sliceStarts, ownStarts, runStarts, nextI, List.cons.injEq] at h
      omega
    have hfirst := hpos run₁ List.mem_cons_self
    omega

end

/-! ### All runs -/

section

variable {stats : Stats} {conversations : AList fun _ : Int32 => Conversation}

theorem labelsAt_ownRuns
    (hstates : stats.states.length =
      (stats.userStats.dataRuns.map (·.minuteCounters.length)).sum) :
    labelsAt stats.userStats.user stats.states conversations stats.ownRuns =
      (stats.ownRuns.mapM fun run => (labelAlone stats conversations run).map Prod.fst).map
        List.flatten := by
  rw [labelsAt]
  congr 1
  apply Result.mapM_congr
  rintro ⟨start, run⟩ hrun
  have hfit : start + run.minuteCounters.length ≤ stats.states.length := by
    simpa [hstates] using end_le_of_mem_runStarts (fun _ _ => le_rfl) hrun
  rw [labelAlone_eq hfit]

/-- A run that can be labelled has the hour of zeros. -/
theorem length_pos_of_labelAlone {run : ℕ × DataRun}
    (h : (labelAlone stats conversations run).isSome) : 0 < run.2.minuteCounters.length := by
  obtain ⟨out, hout⟩ := Option.isSome_iff_exists.mp h
  obtain ⟨first, hfirst, -⟩ := Option.bind_eq_some_iff.mp hout
  obtain ⟨view, hview, -⟩ := Option.bind_eq_some_iff.mp hfirst
  obtain ⟨c, m, hv⟩ := viewDataRun_eq_some hview
  have hlen := length_trimZeros hv.trim_eq
  omega

/-- The messages in an Active minute of some run, once each, are all that the passes take out of
the count if and only if no two passes take out the same. -/
theorem length_filter_ownActive :
    ((others stats.userStats.user conversations).filter
      (· ∈ ownActive stats conversations)).length =
        (ownActive stats conversations).dedup.length := by
  apply List.Perm.length_eq
  apply (List.perm_ext_iff_of_nodup (others_nodup.filter _) (List.nodup_dedup _)).mpr
  intro p
  rw [List.mem_filter, List.mem_dedup, decide_eq_true_iff, and_iff_right_iff_imp]
  intro hp
  obtain ⟨run, -, hp⟩ := List.mem_flatMap.mp hp
  exact mem_others_of_activeReceived hp

/-- With the right starts the passes do what they do by themselves, the count aside. -/
theorem statsToLabeled_eq
    (hstates : stats.states.length =
      (stats.userStats.dataRuns.map (·.minuteCounters.length)).sum)
    (hstarts : sliceStarts 0 stats.userStats.dataRuns = ownStarts 0 stats.userStats.dataRuns) :
    statsToLabeled stats conversations =
      contribute ((stats.ownRuns.mapM fun run =>
          (labelAlone stats conversations run).map Prod.fst).map List.flatten)
        (ownActive stats conversations).length []
        (countOthers stats.userStats.user conversations) := by
  rw [← labelsAt_ownRuns hstates, ownActive, Stats.ownRuns, ← hstarts]
  exact labelDataRuns_eq

/-- **Own labels.** With at most two runs, and no message received in Active minutes of both,
every run gets its own labels. Conversely, if each run can be labelled by itself, the runs get
their own labels only then. -/
theorem statsToLabeled_ownLabels
    (hstates : stats.states.length =
      (stats.userStats.dataRuns.map (·.minuteCounters.length)).sum) :
    (stats.userStats.dataRuns.length ≤ 2 ∧ (ownActive stats conversations).Nodup →
      OwnLabels stats conversations) ∧
    ((∀ run ∈ stats.ownRuns, (labelAlone stats conversations run).isSome) →
      OwnLabels stats conversations →
        stats.userStats.dataRuns.length ≤ 2 ∧ (ownActive stats conversations).Nodup) := by
  constructor
  · rintro ⟨hlen, hnodup⟩
    have hstarts := sliceStarts_eq_ownStarts hlen
    refine ⟨hstarts, ?_⟩
    -- every message is taken out once, so the count does not run out
    have hle := length_activeAt_le hnodup
    rw [statsToLabeled_eq hstates hstarts, length_filter_ownActive, hnodup.dedup]
    cases stats.ownRuns.mapM fun run => (labelAlone stats conversations run).map Prod.fst with
    | none => rfl
    | some labels => exact if_pos hle
  · intro halone hown
    obtain ⟨labels, hlabels⟩ : ∃ labels, (stats.ownRuns.mapM fun run =>
        (labelAlone stats conversations run).map Prod.fst) = some labels := by
      apply Result.exists_mapM_eq_some
      intro run hrun
      rw [Option.isSome_map]
      exact halone run hrun
    constructor
    · apply length_le_two_of_starts hown.starts
      intro run hrun
      obtain ⟨start, hstart⟩ := exists_mem_ownRuns hrun
      exact length_pos_of_labelAlone (halone _ hstart)
    · have hout := hown.outcome
      rw [statsToLabeled_eq hstates hown.starts, hlabels, length_filter_ownActive, Option.map_some,
        contribute, Option.bind_some, Option.map_some, Option.ite_none_right_eq_some] at hout
      obtain ⟨hle, hout⟩ := hout
      -- the counts agree, so nothing was taken out twice
      have hcount := congrArg Prod.snd (Option.some_inj.mp hout)
      have hdedup := (List.dedup_sublist (ownActive stats conversations)).length_le
      apply List.dedup_eq_self.mp
      apply (List.dedup_sublist _).eq_of_length
      simp only at hcount
      omega

end

/-! ### Three runs -/

theorem length_twice_le : [(⟨0, 7⟩ : Message), ⟨0, 7⟩].length ≤ UInt32.size := by decide

/-- A conversation in which user 7 sends two messages at once. -/
def twice (hash : Int32) : Conversation := ⟨hash, 0, 1, [⟨0, 7⟩, ⟨0, 7⟩], length_twice_le⟩

/-- The conversations that the user is in. -/
def twiceChats (hashes : List Int32) : AList fun _ : Int32 => Conversation :=
  userConvo 7 (hashes.map twice)

/-- The runs of the user in them, with labels. -/
def twiceStats (hashes : List Int32) (states : List State) : Stats :=
  ⟨⟨7, hashes.map fun hash => ⟨hash, 0, List.replicate 60 0 ++ [2]⟩⟩, states⟩

/-- Three runs, of which only the second has messages in an Active minute. -/
def threeTwice : Stats :=
  twiceStats [1, 2, 3] (List.replicate 121 .idle ++ [.active] ++ List.replicate 61 .idle)

theorem statsToLabeled_ownLabels_twice :
    OwnLabels (twiceStats [1, 2] (List.replicate 121 .idle ++ [.active])) (twiceChats [1, 2]) ∧
      ¬ OwnLabels threeTwice (twiceChats [1, 2, 3]) := by
  constructor
  · apply (statsToLabeled_ownLabels (by decide +kernel)).1
    exact ⟨by decide, by decide +kernel⟩
  · intro h
    have hlen := ((statsToLabeled_ownLabels (by decide +kernel)).2 (by decide +kernel) h).1
    revert hlen
    decide

/-- The runs are what is extracted from the conversations, and each can be labelled by itself. But
the third run gets the label of the second one. -/
theorem statsToLabeled_threeTwice :
    (extract ([1, 2, 3].map twice)).bind (·.lookup 7) = some threeTwice.userStats.dataRuns ∧
    threeTwice.states.length =
      (threeTwice.userStats.dataRuns.map (·.minuteCounters.length)).sum ∧
    (threeTwice.ownRuns.map fun run => (labelAlone threeTwice (twiceChats [1, 2, 3]) run).map
      fun out => out.1.map (·.state)) = [some [.idle], some [.active], some [.idle]] ∧
    (statsToLabeled threeTwice (twiceChats [1, 2, 3])).map (fun out => out.1.map (·.state)) =
      some [.idle, .active, .active] ∧
    ¬ OwnLabels threeTwice (twiceChats [1, 2, 3]) := by
  refine ⟨by decide +kernel, by decide +kernel, by decide +kernel, by decide +kernel, ?_⟩
  intro h
  have hstarts := h.starts
  revert hstarts
  decide

end SignalSim.SamExtractor
