import SignalSim.SamExtractor.Fragments
import SignalSim.SamExtractor.Tally

/-!
# Messages in any order

What `process_conversation` computes for a user whose messages need not be in the order of their
dates, as long as none of them comes before the first message of the run that counts it. A run then
reaches to the latest of its messages, and the next message begins another if it comes more than
120 minutes after that.

## Main definitions

* `Fragment.InOrder` — no message is before the first one
* `Fragments.cut`, `cuts` — the stretches of a user's messages
* `Fragments.placedRuns` — their runs
* `Fragments.Placed` — the state of the code holds their counters

## Main results

* `Fragments.total_placedRuns_iff` — when the runs count all messages
* `Fragments.add_placed` — the code counts a message that is not too early, and does not panic
* `Fragments.finish_placed` — when it gets to the end without a panic
-/

namespace SignalSim.SamExtractor

/-! ### One stretch -/

namespace Fragment

variable {f g : Fragment} {s : Stamp} {hash : Int32} {k n : ℕ}

/-- No message is before the first one. -/
def InOrder (f : Fragment) : Prop := ∀ s ∈ f.stamps, f.head.date ≤ s.date

/-- One more than the latest minute with a message. -/
def reach (f : Fragment) : ℕ := f.minutes.foldl max 0 + 1

/-- The messages in each minute, behind an hour of zeros. -/
def placed (f : Fragment) : List UInt16 :=
  List.replicate 60 0 ++ histogram UInt16.ofNat f.reach f.minutes

/-- The run of the stretch, with `n` zeros behind the latest message. -/
def placedRun (f : Fragment) (hash : Int32) (n : ℕ) : DataRun :=
  ⟨hash, f.head.index, f.placed ++ List.replicate n 0⟩

theorem inOrder_singleton : (⟨s, []⟩ : Fragment).InOrder := by
  intro t ht
  obtain rfl := List.mem_singleton.mp ht
  exact le_rfl

theorem inOrder_push (h : f.InOrder) (hs : f.head.date ≤ s.date) : (f.push s).InOrder := by
  intro t ht
  rw [stamps_push] at ht
  rcases List.mem_append.mp ht with ht | ht
  · exact h t ht
  · rw [List.mem_singleton.mp ht]
    exact hs

theorem reach_push : (f.push s).reach = max f.reach (minutesAfter f.head.date s.date + 1) := by
  rw [reach, minutes_push, List.foldl_append, List.foldl_cons, List.foldl_nil, reach,
    Nat.add_max_add_right]

theorem foldl_max_le_iff {ks : List ℕ} {b : ℕ} :
    ks.foldl max b ≤ n ↔ b ≤ n ∧ ∀ k ∈ ks, k ≤ n := by
  induction ks generalizing b with
  | nil => simp
  | cons k ks ih => rw [List.foldl_cons, ih, Nat.max_le, List.forall_mem_cons, and_assoc]

theorem lt_reach (hk : k ∈ f.minutes) : k < f.reach :=
  Nat.lt_succ_of_le ((foldl_max_le_iff.mp le_rfl).2 k hk)

theorem reach_le (h : ∀ k ∈ f.minutes, k ≤ n) : f.reach ≤ n + 1 :=
  Nat.succ_le_succ (foldl_max_le_iff.mpr ⟨Nat.zero_le n, h⟩)

@[simp] theorem length_placed : f.placed.length = 60 + f.reach := by
  rw [placed, List.length_append, List.length_replicate, length_histogram]

/-- One more message: zeros up to its minute, and one more there. -/
theorem placed_push : (f.push s).placed =
    (f.placed ++ List.replicate (minutesAfter f.head.date s.date + 1 - f.reach) 0).modify
      (60 + minutesAfter f.head.date s.date) (· + 1) := by
  have hgrow : (f.push s).reach =
      f.reach + (minutesAfter f.head.date s.date + 1 - f.reach) := by
    rw [reach_push]
    omega
  have hnext : ∀ c, UInt16.ofNat c + 1 = UInt16.ofNat (c + 1) :=
    fun c => (UInt16.ofNat_add c 1).symm
  rw [placed, placed, minutes_push, histogram_concat (· + 1) hnext, hgrow,
    histogram_add fun k hk => lt_reach hk, List.append_assoc]
  exact (modify_append_right (List.replicate 60 0) _ _).symm

theorem reach_singleton : (⟨s, []⟩ : Fragment).reach = 1 := by
  simp [reach, minutes, stamps]

theorem placed_singleton : (⟨s, []⟩ : Fragment).placed = List.replicate 60 0 ++ [1] := by
  have hminutes : (⟨s, []⟩ : Fragment).minutes = [0] := by
    simp [minutes, stamps]
  rw [placed, reach, hminutes]
  rfl

/-- The first hour of a run is free. -/
theorem take_placedRun : (f.placedRun hash n).minuteCounters.take 60 = List.replicate 60 0 := by
  rw [placedRun, placed, List.append_assoc]
  exact List.take_left' List.length_replicate

end Fragment

/-! ### The stretches of a user -/

namespace Fragments

variable {fs : Fragments} {s : Stamp} {ss : List Stamp} {fo : Option Fragments}

/-- The next message of the user. It begins a stretch if it comes more than 120 minutes after the
latest minute of the current one. -/
def cut (fs : Fragments) (s : Stamp) : Fragments :=
  if fs.current.reach + 120 < minutesAfter fs.current.head.date s.date then ⟨fs.all, ⟨s, []⟩⟩
  else ⟨fs.closed, fs.current.push s⟩

/-- A message of a user who may not have sent one before. -/
def cutTo : Option Fragments → Stamp → Option Fragments
  | none, s => some ⟨[], ⟨s, []⟩⟩
  | some fs, s => some (fs.cut s)

theorem cut_of_lt (h : fs.current.reach + 120 < minutesAfter fs.current.head.date s.date) :
    fs.cut s = ⟨fs.all, ⟨s, []⟩⟩ := if_pos h

theorem cut_of_not_lt (h : ¬ fs.current.reach + 120 < minutesAfter fs.current.head.date s.date) :
    fs.cut s = ⟨fs.closed, fs.current.push s⟩ := if_neg h

@[simp] theorem stamps_cut : (fs.cut s).stamps = fs.stamps ++ [s] := by
  unfold cut
  split
  · simp [stamps, all, Fragment.stamps]
  · simp [stamps, all]

@[simp] theorem stamps?_cutTo : stamps? (cutTo fo s) = stamps? fo ++ [s] := by
  cases fo with
  | none => rfl
  | some fs => exact stamps_cut

theorem cutTo_ne_none : cutTo fo s ≠ none := by
  cases fo <;> nofun

/-- Some stretches, none with a message before its first one. -/
def AllInOrder (fo : Option Fragments) : Prop := ∀ fs ∈ fo, ∀ f ∈ fs.all, f.InOrder

/-- A message that is not before the first one of the current stretch keeps them in order. -/
theorem allInOrder_cut (h : ∀ f ∈ fs.all, f.InOrder) (hs : fs.current.head.date ≤ s.date) :
    ∀ f ∈ (fs.cut s).all, f.InOrder := by
  unfold cut
  split
  · intro f hf
    rcases List.mem_append.mp hf with hf | hf
    · exact h f hf
    · rw [List.mem_singleton.mp hf]
      exact Fragment.inOrder_singleton
  · intro f hf
    rcases List.mem_append.mp hf with hf | hf
    · exact h f (List.mem_append_left _ hf)
    · rw [List.mem_singleton.mp hf]
      exact Fragment.inOrder_push (h _ current_mem) hs

/-- A message that is before it goes into the current stretch. -/
theorem not_allInOrder_cut (hs : s.date < fs.current.head.date) :
    ¬ ∀ f ∈ (fs.cut s).all, f.InOrder := by
  have hzero : minutesAfter fs.current.head.date s.date ≤ 0 := by
    have hself : minutesAfter fs.current.head.date fs.current.head.date = 0 := minutesAfter_self
    exact hself ▸ minutesAfter_mono hs.le
  intro h
  rw [cut_of_not_lt (by omega)] at h
  have hmem : s ∈ (fs.current.push s).stamps := by
    rw [Fragment.stamps_push]
    exact List.mem_append_right _ (List.mem_singleton_self s)
  exact absurd hs (Int.not_lt.mpr (h _ current_mem s hmem))

/-- Stretches only grow. -/
theorem allInOrder_of_cut (h : ∀ f ∈ (fs.cut s).all, f.InOrder) : ∀ f ∈ fs.all, f.InOrder := by
  unfold cut at h
  split at h
  · exact fun f hf => h f (List.mem_append_left _ hf)
  · intro f hf
    rcases List.mem_append.mp hf with hf | hf
    · exact h f (List.mem_append_left _ hf)
    · rw [List.mem_singleton.mp hf]
      intro t ht
      exact h _ current_mem t (List.mem_append_left _ ht)

theorem allInOrder_of_cutTo (h : AllInOrder (cutTo fo s)) : AllInOrder fo := by
  rintro fs hfs
  obtain rfl : fo = some fs := hfs
  exact allInOrder_of_cut (h _ rfl)

theorem allInOrder_of_foldl (h : AllInOrder (ss.foldl cutTo fo)) : AllInOrder fo := by
  induction ss generalizing fo with
  | nil => exact h
  | cons s ss ih => exact allInOrder_of_cutTo (ih h)

end Fragments

/-- The stretches of a user in a conversation. -/
def cuts (user : UserId) (messages : List Message) : Option Fragments :=
  (stampsOf user 0 messages).foldl Fragments.cutTo none

/-! ### What is counted -/

namespace Fragment

variable {f : Fragment} {hash : Int32} {n : ℕ}

theorem count_eq_zero {k : ℕ} (hk : f.reach ≤ k) : f.minutes.count k = 0 :=
  List.count_eq_zero.mpr fun hmem => absurd (lt_reach hmem) (Nat.not_lt_of_le hk)

/-- A run counts what its counters have not lost. -/
theorem total_placedRun : total (f.placedRun hash n).minuteCounters =
    ((List.range f.reach).map fun k => (UInt16.ofNat (f.minutes.count k)).toNat).sum := by
  rw [placedRun, placed, total_append, total_append, total_replicate, total_replicate, total,
    histogram, List.map_map, Nat.zero_add, Nat.add_zero]
  rfl

theorem length_stamps :
    f.stamps.length = ((List.range f.reach).map fun k => f.minutes.count k).sum := by
  rw [sum_count_range fun k hk => lt_reach hk, minutes, List.length_map]

theorem toNat_ofNat_le (c : ℕ) : (UInt16.ofNat c).toNat ≤ c := by
  rw [UInt16.toNat_ofNat']
  exact Nat.mod_le c _

theorem toNat_ofNat_eq_iff {c : ℕ} : (UInt16.ofNat c).toNat = c ↔ c < UInt16.size := by
  rw [UInt16.toNat_ofNat']
  exact Nat.mod_eq_iff_lt (by decide)

theorem total_placedRun_le : total (f.placedRun hash n).minuteCounters ≤ f.stamps.length := by
  rw [total_placedRun, length_stamps]
  exact List.sum_le_sum fun k _ => toNat_ofNat_le _

/-- It counts all messages if no minute has too many. -/
theorem total_placedRun_iff : total (f.placedRun hash n).minuteCounters = f.stamps.length ↔
    ∀ k, f.minutes.count k < UInt16.size := by
  rw [total_placedRun, length_stamps, sum_map_eq_iff fun k _ => toNat_ofNat_le _]
  constructor
  · intro h k
    rcases Nat.lt_or_ge k f.reach with hk | hk
    · exact toNat_ofNat_eq_iff.mp (h k (List.mem_range.mpr hk))
    · rw [count_eq_zero hk]
      decide
  · exact fun h k _ => toNat_ofNat_eq_iff.mpr (h k)

end Fragment

namespace Fragments

variable {fs : Fragments} {hash : Int32} {n : ℕ}

/-- The runs of the stretches, with `n` zeros at the end of the last one. -/
def placedRuns (fs : Fragments) (hash : Int32) (n : ℕ) : List DataRun :=
  fs.closed.map (fun f => f.placedRun hash 60) ++ [fs.current.placedRun hash n]

theorem length_stamps_eq : fs.stamps.length = (fs.all.map fun f => f.stamps.length).sum := by
  rw [stamps, List.length_flatMap]

theorem take_placedRuns : ∀ run ∈ fs.placedRuns hash n,
    run.minuteCounters.take 60 = List.replicate 60 0 := by
  intro run hrun
  rcases List.mem_append.mp hrun with hrun | hrun
  · obtain ⟨f, -, rfl⟩ := List.mem_map.mp hrun
    exact Fragment.take_placedRun
  · rw [List.mem_singleton.mp hrun]
    exact Fragment.take_placedRun

/-- The runs count all messages if no minute of a stretch has too many. -/
theorem total_placedRuns_iff :
    ((fs.placedRuns hash n).map fun run => total run.minuteCounters).sum = fs.stamps.length ↔
      ∀ f ∈ fs.all, ∀ k, f.minutes.count k < UInt16.size := by
  have hsum : ((fs.placedRuns hash n).map fun run => total run.minuteCounters).sum =
      (fs.all.map fun f => total (f.placedRun hash 0).minuteCounters).sum := by
    simp only [placedRuns, all, List.map_append, List.map_map, List.map_singleton,
      List.sum_append, Function.comp_def, Fragment.total_placedRun]
  rw [hsum, length_stamps_eq, sum_map_eq_iff fun f _ => Fragment.total_placedRun_le]
  simp only [Fragment.total_placedRun_iff]

end Fragments

/-! ### The code -/

theorem pad_of_le {run : DataRun} {n : ℕ} (h : run.minuteCounters.length + n ≤ maxCounters) :
    run.pad n =
      some { run with minuteCounters := run.minuteCounters ++ List.replicate n 0 } := by
  obtain ⟨run', hrun⟩ := Option.isSome_iff_exists.mp (pad_isSome h)
  rw [hrun, DataRun.pad_eq_some hrun]

namespace Fragments

/-- The state of the code for a user holds the counters of the stretches. -/
structure Placed (hash : Int32) (stats : ProcStats) (fs : Fragments) : Prop where
  closedRuns : stats.closedRuns = fs.closed.map fun f => f.placedRun hash 60
  dataRun : stats.dataRun = fs.current.placedRun hash 0
  start : stats.start = fs.current.head.date - hour
  last : stats.last = fs.current.last.date
  minTime_le : minTime ≤ fs.current.head.date - hour
  fits : fs.current.reach + 120 ≤ maxCounters

variable {fs : Fragments} {s : Stamp} {hash : Int32} {stats stats' : ProcStats} {last : ℤ}

theorem Placed.length_dataRun (h : Placed hash stats fs) :
    stats.dataRun.minuteCounters.length = 60 + fs.current.reach := by
  rw [h.dataRun, Fragment.placedRun, List.replicate_zero, List.append_nil,
    Fragment.length_placed]

theorem eq_placedRun_of_countMinute {run : DataRun}
    (h : (DataRun.openAt hash s.index).countMinute 60 = some run) :
    run = (⟨s, []⟩ : Fragment).placedRun hash 0 := by
  rw [DataRun.countMinute_eq_some h, Fragment.placedRun, Fragment.placed_singleton]
  rfl

/-- **Simulation.** The code counts a message that is not before the first one of the current
stretch, and its counters are those of the stretches. -/
theorem add_placed (h : Placed hash stats fs) (hle : fs.current.head.date ≤ s.date)
    (hrange : InRange s.date) :
    ∃ stats', stats.add hash s.index ⟨s.date, 0⟩ = some stats' ∧
      Placed hash stats' (fs.cut s) := by
  have hmax : s.date ≤ maxTime + hour := by
    have := hrange.2
    omega
  have hminute : asUsize (wholeMinutes (s.date - stats.start)) =
      60 + minutesAfter fs.current.head.date s.date := by
    rw [h.start]
    exact Fragment.messageMinute_eq hle h.minTime_le hmax
  have hroom : minutesAfter fs.current.head.date s.date + 200 ≤ maxCounters := by
    refine minutesAfter_le_maxCounters (Int.le_trans h.minTime_le ?_) hmax
    exact Int.sub_le_self _ (by decide)
  have hfits := h.fits
  simp only [ProcStats.add, hminute, h.length_dataRun]
  by_cases hlt : fs.current.reach + 120 < minutesAfter fs.current.head.date s.date
  · -- the current run is closed and a new one counts the message
    rw [cut_of_lt hlt, if_pos (by omega)]
    have hopen : ((DataRun.openAt hash s.index).countMinute 60).isSome :=
      countMinute_isSome (by decide)
    obtain ⟨run, hrun⟩ := Option.isSome_iff_exists.mp hopen
    rw [pad_of_le (by rw [h.length_dataRun]; omega),
      addTime_eq_some.mpr ⟨hrange, rfl⟩, hrun]
    refine ⟨_, rfl, ?_, eq_placedRun_of_countMinute hrun, rfl, rfl, hrange.1, ?_⟩
    · rw [h.closedRuns, h.dataRun, all, List.map_append]
      simp [Fragment.placedRun]
    · rw [Fragment.reach_singleton]
      decide
  · -- the current run counts the message
    rw [cut_of_not_lt hlt, if_neg (by omega)]
    have hcount : (stats.dataRun.countMinute
        (60 + minutesAfter fs.current.head.date s.date)).isSome := countMinute_isSome (by omega)
    obtain ⟨run, hrun⟩ := Option.isSome_iff_exists.mp hcount
    rw [hrun]
    refine ⟨_, rfl, h.closedRuns, ?_, h.start, ?_, h.minTime_le, ?_⟩
    · have hfill : 1 + (60 + minutesAfter fs.current.head.date s.date) -
          (60 + fs.current.reach) =
          minutesAfter fs.current.head.date s.date + 1 - fs.current.reach := by omega
      rw [DataRun.countMinute_eq_some hrun, h.length_dataRun, hfill, h.dataRun,
        Fragment.placedRun, Fragment.placedRun, Fragment.placed_push]
      simp
    · simp
    · rw [Fragment.reach_push]
      omega

/-- The minutes that the code fills up to the end of the conversation. -/
def closing (last dateLastMessage : ℤ) : ℤ :=
  wholeMinutes (min (last + hour) dateLastMessage - last)

/-- A conversation that ends less than a minute before the last message is filled for no
minutes. -/
theorem closing_nonneg_iff {dateLastMessage : ℤ} :
    0 ≤ closing last dateLastMessage ↔ last < dateLastMessage + minute := by
  have hhour : 0 < hour := by decide
  have hminute := minute_pos
  rw [closing, wholeMinutes_nonneg_iff]
  omega

theorem asUsize_closing {dateLastMessage : ℤ} (h : 0 ≤ closing last dateLastMessage) :
    asUsize (closing last dateLastMessage) ≤ 60 := by
  have hlt : closing last dateLastMessage < (61 : ℕ) := by
    refine (wholeMinutes_lt_iff (by decide)).mpr ?_
    have hhour : hour = 60 * minute := rfl
    have hminute := minute_pos
    omega
  have hsize : closing last dateLastMessage < UInt64.size := Int.lt_trans hlt (by decide)
  rw [asUsize, Int.emod_eq_of_lt h hsize]
  omega

/-- The code gets to the end if it can go an hour beyond the last message and has no negative
number of minutes to fill. -/
theorem finish_placed {dateLastMessage : ℤ} (h : Placed hash stats fs)
    (hmin : minTime ≤ fs.current.last.date + hour)
    (hmax : fs.current.last.date + hour ≤ maxTime)
    (hclosing : 0 ≤ closing fs.current.last.date dateLastMessage) :
    stats.finish dateLastMessage =
      some (fs.placedRuns hash (asUsize (closing fs.current.last.date dateLastMessage))) := by
  have hlimit : addTime stats.last hour = some (fs.current.last.date + hour) := by
    rw [h.last]
    exact addTime_eq_some.mpr ⟨⟨hmin, hmax⟩, rfl⟩
  have hpad : stats.dataRun.minuteCounters.length +
      asUsize (closing fs.current.last.date dateLastMessage) ≤ maxCounters := by
    have hle := asUsize_closing hclosing
    have hfits := h.fits
    rw [h.length_dataRun]
    omega
  have hrun := pad_of_le hpad
  rw [ProcStats.finish, hlimit]
  simp only [Option.bind_eq_bind, Option.bind_some]
  rw [h.last, ← closing, hrun, h.closedRuns, h.dataRun]
  simp only [Fragment.placedRun, List.replicate_zero, List.append_nil]
  rfl

end Fragments

end SignalSim.SamExtractor
