import SignalSim.SamExtractor.Extract
import Mathlib.Algebra.GroupWithZero.Nat

/-!
# What a message adds to the counters

Whatever the dates of the messages, `process_conversation` adds one to one counter for each. If
that counter does not wrap around, the counters add up to one more, and no counter that has counted
something goes back to zero. If it does wrap around, the counters add up to less than the messages
from then on.

## Main definitions

* `total` — what the counters add up to
* `Counts` — the counter of a minute has counted something
* `DataRun.EarlyCount` — a counter of the first hour has

## Main results

* `ProcStats.total_add` — the counters add up to at most one more
* `ProcStats.hasEarlyCount_add` — counts in a first hour stay if the counters add up to one more
* `ProcStats.hasEarlyCount_of_early` — and a message in a first hour is such a count
-/

namespace SignalSim.SamExtractor

/-- What the counters add up to. -/
def total (counters : List UInt16) : ℕ := (counters.map UInt16.toNat).sum

/-- The counter of a minute has counted something. -/
def Counts (counters : List UInt16) (k : ℕ) : Prop := ∃ c, counters[k]? = some c ∧ c ≠ 0

section

variable {counters counters' : List UInt16} {j k n : ℕ}

@[simp] theorem total_append :
    total (counters ++ counters') = total counters + total counters' := by
  simp [total]

@[simp] theorem total_replicate : total (List.replicate n 0) = 0 := by
  simp [total]

theorem Counts.append (h : Counts counters k) : Counts (counters ++ counters') k := by
  obtain ⟨c, hc, hne⟩ := h
  obtain ⟨hk, -⟩ := List.getElem?_eq_some_iff.mp hc
  exact ⟨c, (List.getElem?_append_left hk).trans hc, hne⟩

/-- What the counters of some runs add up to. -/
theorem sum_counters {runs : List DataRun} :
    ((runs.flatMap (·.minuteCounters)).map UInt16.toNat).sum =
      (runs.map fun run => total run.minuteCounters).sum := by
  rw [List.map_flatMap, List.flatMap_def, List.sum_flatten, List.map_map]
  rfl

/-- Counting in a minute, with the counter before. -/
theorem total_modify (hk : k < counters.length) :
    total (counters.modify k (· + 1)) + counters[k].toNat =
      total counters + (counters[k] + 1).toNat := by
  have hsplit : total counters = total (counters.take k) + (counters[k].toNat +
      total (counters.drop (k + 1))) := by
    conv_lhs => rw [← List.take_append_drop k counters, List.drop_eq_getElem_cons hk]
    rw [total_append]
    rfl
  have hmodify : total (counters.modify k (· + 1)) = total (counters.take k) +
      ((counters[k] + 1).toNat + total (counters.drop (k + 1))) := by
    rw [List.modify_eq_take_cons_drop hk, total_append]
    rfl
  omega

theorem toNat_add_one_le (c : UInt16) : (c + 1).toNat ≤ c.toNat + 1 := by
  rw [UInt16.toNat_add]
  exact Nat.mod_le _ _

theorem total_modify_le (hk : k < counters.length) :
    total (counters.modify k (· + 1)) ≤ total counters + 1 := by
  have hmodify := total_modify hk
  have hle := toNat_add_one_le counters[k]
  omega

/-- If the counter has not wrapped around, it has counted something. -/
theorem counts_modify_self (hk : k < counters.length)
    (h : total (counters.modify k (· + 1)) = total counters + 1) :
    Counts (counters.modify k (· + 1)) k := by
  have hmodify := total_modify hk
  refine ⟨counters[k] + 1, ?_, fun hzero => ?_⟩
  · rw [List.getElem?_modify, List.getElem?_eq_getElem hk]
    simp
  · rw [hzero, UInt16.toNat_zero] at hmodify
    omega

/-- The other counters stay as they are. -/
theorem counts_modify (hk : k < counters.length)
    (h : total (counters.modify k (· + 1)) = total counters + 1) (hj : Counts counters j) :
    Counts (counters.modify k (· + 1)) j := by
  by_cases hkj : k = j
  · subst hkj
    exact counts_modify_self hk h
  · obtain ⟨c, hc, hne⟩ := hj
    refine ⟨c, ?_, hne⟩
    rw [List.getElem?_modify, hc]
    simp [hkj]

/-- An hour of zeros has not counted anything. -/
theorem not_counts_of_take (h : counters.take 60 = List.replicate 60 0) (hk : k < 60) :
    ¬ Counts counters k := by
  rintro ⟨c, hc, hne⟩
  rw [← List.getElem?_take_of_lt hk, h, List.getElem?_replicate_of_lt hk] at hc
  exact hne (Option.some_inj.mp hc).symm

end

/-! ### Runs -/

namespace DataRun

variable {run run' : DataRun} {j m n : ℕ}

/-- A counter of the first hour has counted something. -/
def EarlyCount (run : DataRun) : Prop := ∃ k < 60, Counts run.minuteCounters k

theorem not_earlyCount_of_take (h : run.minuteCounters.take 60 = List.replicate 60 0) :
    ¬ run.EarlyCount := by
  rintro ⟨k, hk, hcounts⟩
  exact not_counts_of_take h hk hcounts

theorem total_pad (h : run.pad n = some run') :
    total run'.minuteCounters = total run.minuteCounters := by
  rw [pad_eq_some h, total_append, total_replicate, Nat.add_zero]

theorem EarlyCount.pad (hrun : run.EarlyCount) (h : run.pad n = some run') : run'.EarlyCount := by
  obtain ⟨k, hk, hcounts⟩ := hrun
  refine ⟨k, hk, ?_⟩
  rw [pad_eq_some h]
  exact hcounts.append

/-- The minute has a counter when it is counted. -/
theorem lt_length_filled :
    m < (run.minuteCounters ++ List.replicate (1 + m - run.minuteCounters.length) 0).length := by
  rw [List.length_append, List.length_replicate]
  omega

theorem total_countMinute (h : run.countMinute m = some run') :
    total run'.minuteCounters ≤ total run.minuteCounters + 1 := by
  rw [countMinute_eq_some h]
  refine Nat.le_trans (total_modify_le lt_length_filled) ?_
  rw [total_append, total_replicate, Nat.add_zero]

/-- If the counters add up to one more, the minute has been counted, and no count is lost. -/
theorem counts_countMinute (h : run.countMinute m = some run')
    (htotal : total run'.minuteCounters = total run.minuteCounters + 1)
    (hj : j = m ∨ Counts run.minuteCounters j) : Counts run'.minuteCounters j := by
  rw [countMinute_eq_some h] at htotal ⊢
  have hone : total (run.minuteCounters ++
      List.replicate (1 + m - run.minuteCounters.length) 0) = total run.minuteCounters := by
    rw [total_append, total_replicate, Nat.add_zero]
  rw [← hone] at htotal
  rcases hj with rfl | hj
  · exact counts_modify_self lt_length_filled htotal
  · exact counts_modify lt_length_filled htotal hj.append

end DataRun

/-! ### Users -/

namespace ProcStats

variable {stats stats' : ProcStats} {hash : Int32} {i : ℕ} {message : Message}

/-- All runs so far. -/
def runs (stats : ProcStats) : List DataRun := stats.closedRuns ++ [stats.dataRun]

/-- What all counters add up to. -/
def total (stats : ProcStats) : ℕ :=
  (stats.runs.map fun run => SamExtractor.total run.minuteCounters).sum

/-- Some run has counted something in its first hour. -/
def HasEarlyCount (stats : ProcStats) : Prop := ∃ run ∈ stats.runs, run.EarlyCount

theorem total_eq (stats : ProcStats) :
    stats.total = (stats.closedRuns.map fun run => SamExtractor.total run.minuteCounters).sum +
      SamExtractor.total stats.dataRun.minuteCounters := by
  simp [total, runs]

/-- The two ways of counting a message. -/
inductive Added (stats : ProcStats) (hash : Int32) (i : ℕ) (message : Message) :
    ProcStats → Prop
  /-- In a new run. -/
  | opened {closed run : DataRun} {start : ℤ} : stats.dataRun.pad 60 = some closed →
      addTime message.date (-hour) = some start →
      (DataRun.openAt hash i).countMinute 60 = some run →
      stats.dataRun.minuteCounters.length + 120 <
        asUsize (wholeMinutes (message.date - stats.start)) →
      Added stats hash i message ⟨start, message.date, stats.closedRuns ++ [closed], run⟩
  /-- In the current one. -/
  | counted {run : DataRun} :
      stats.dataRun.countMinute (asUsize (wholeMinutes (message.date - stats.start))) =
        some run →
      Added stats hash i message { stats with last := message.date, dataRun := run }

/-- **Inversion.** What a message does. -/
theorem add_cases (h : stats.add hash i message = some stats') :
    Added stats hash i message stats' := by
  simp only [add] at h
  split at h
  · obtain ⟨closed, hclosed, h⟩ := Option.bind_eq_some_iff.mp h
    obtain ⟨start, hstart, h⟩ := Option.bind_eq_some_iff.mp h
    obtain ⟨run, hrun, h⟩ := Option.bind_eq_some_iff.mp h
    obtain rfl := Option.some_inj.mp h
    exact .opened hclosed hstart hrun ‹_›
  · obtain ⟨run, hrun, h⟩ := Option.bind_eq_some_iff.mp h
    obtain rfl := Option.some_inj.mp h
    exact .counted hrun

theorem total_openAt {run : DataRun} {m : ℕ}
    (h : (DataRun.openAt hash i).countMinute m = some run) :
    SamExtractor.total run.minuteCounters ≤ 1 := by
  refine Nat.le_trans (DataRun.total_countMinute h) ?_
  rw [DataRun.openAt, total_replicate]

theorem total_add (h : stats.add hash i message = some stats') :
    stats'.total ≤ stats.total + 1 := by
  rw [total_eq, total_eq]
  cases add_cases h with
  | opened hclosed _ hrun =>
    have hnew := total_openAt hrun
    simp only [List.map_append, List.sum_append, List.map_singleton, List.sum_singleton,
      DataRun.total_pad hclosed]
    omega
  | counted hrun =>
    have hnew := DataRun.total_countMinute hrun
    simp only
    omega

/-- Where the counters add up to one more, so do those of the current run. -/
theorem total_dataRun {run : DataRun}
    (htotal : ProcStats.total { stats with last := message.date, dataRun := run } =
      stats.total + 1) :
    SamExtractor.total run.minuteCounters =
      SamExtractor.total stats.dataRun.minuteCounters + 1 := by
  rw [total_eq, total_eq] at htotal
  simp only at htotal
  omega

/-- Counts in a first hour are not lost. -/
theorem hasEarlyCount_add (h : stats.add hash i message = some stats')
    (htotal : stats'.total = stats.total + 1) (hearly : stats.HasEarlyCount) :
    stats'.HasEarlyCount := by
  obtain ⟨run, hmem, hrun⟩ := hearly
  rw [runs, List.mem_append, List.mem_singleton] at hmem
  cases add_cases h with
  | @opened closed _ _ hclosed =>
    rcases hmem with hmem | rfl
    · refine ⟨run, ?_, hrun⟩
      exact List.mem_append_left _ (List.mem_append_left _ hmem)
    · refine ⟨closed, ?_, hrun.pad hclosed⟩
      exact List.mem_append_left _ (List.mem_append_right _ (List.mem_singleton_self closed))
  | @counted new hnew =>
    rcases hmem with hmem | rfl
    · exact ⟨run, List.mem_append_left _ hmem, hrun⟩
    · obtain ⟨k, hk, hcounts⟩ := hrun
      refine ⟨new, List.mem_append_right _ (List.mem_singleton_self new), k, hk, ?_⟩
      exact DataRun.counts_countMinute hnew (total_dataRun htotal) (.inr hcounts)

/-- A message less than an hour after the start is counted in the first hour. -/
theorem hasEarlyCount_of_early (h : stats.add hash i message = some stats')
    (htotal : stats'.total = stats.total + 1)
    (hminute : asUsize (wholeMinutes (message.date - stats.start)) < 60) :
    stats'.HasEarlyCount := by
  cases add_cases h with
  | opened _ _ _ hlt => omega
  | @counted new hnew =>
    refine ⟨new, List.mem_append_right _ (List.mem_singleton_self new), _, hminute, ?_⟩
    exact DataRun.counts_countMinute hnew (total_dataRun htotal) (.inl rfl)

end ProcStats

end SignalSim.SamExtractor
