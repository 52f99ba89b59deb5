import SignalSim.SamExtractor.Runs
import SignalSim.SamExtractor.Tally

/-!
# Messages out of order

The messages of a conversation are in the order of their keys, and their dates need not be. A
message up to an hour before the first of its run is counted in the padding, where the labelling
program expects zeros. A message that comes earlier than that has a negative minute, which the cast
makes a huge one, so that the run is split. And a conversation that ends a minute before somebody's
last message is filled with more zeros than there is room for.

## Main definitions

* `Sound` — nothing of that happens, and every message is counted
* `Tidy` — the dates of a user's messages from which it does not

## Main results

* `sound_iff` — the runs are sound exactly if all users' messages are tidy
* `not_sound_early` — a message a minute before the one with the key before it
-/

namespace SignalSim.SamExtractor

open Fragments (Placed cutTo stamps? closing closing_nonneg_iff)

/-- What the runs returned for a conversation are to be like. -/
structure Sound (c : Conversation) (all : List UserStats) : Prop where
  /-- No negative number of minutes is cast to an index. -/
  indices : (loop c.hash).Along (Loop.NonnegCast c.hash) (∅, 0) c.messages
  /-- No negative number of minutes is cast to a length. -/
  lengths : ∀ users, processMessages c.hash ∅ 0 c.messages = some users →
    ∀ entry ∈ users.entries, 0 ≤ closing entry.2.last c.dateLastMessage
  /-- The counters of a user's runs add up to the number of the user's messages. -/
  counted (user : UserId) :
    ((((all.filter (·.user = user)).flatMap (·.dataRuns)).flatMap (·.minuteCounters)).map
      UInt16.toNat).sum = (c.messages.filter (·.user = user)).length
  /-- The padding is empty. -/
  zeros : ∀ stats ∈ all, ∀ run ∈ stats.dataRuns,
    run.minuteCounters.take 60 = List.replicate 60 0

/-- What the dates of a user's messages are to be like. -/
structure Tidy (c : Conversation) (fs : Fragments) : Prop where
  /-- No message is before the first one of its stretch. -/
  inOrder : ∀ f ∈ fs.all, f.InOrder
  /-- No minute has more messages than its counter can count. -/
  few : ∀ f ∈ fs.all, ∀ k, f.minutes.count k < UInt16.size
  le_maxTime : fs.current.last.date + hour ≤ maxTime
  /-- The conversation ends less than a minute before the last message, or after it. -/
  ends : fs.current.last.date < c.dateLastMessage + minute

/-! ### Flaws -/

namespace Seen

variable {hash : Int32} {u v : Seen} {s : Stamp}

/-- What the counters of the user add up to. -/
def total (u : Seen) : ℕ := u.stats.elim 0 ProcStats.total

/-- Some message has got lost, or has been counted in the first hour of a run. -/
def Flawed (u : Seen) : Prop :=
  u.total < u.stamps.length ∨ ∃ stats ∈ u.stats, stats.HasEarlyCount

theorem total_entry : (u.entry hash s).total = u.total := by
  obtain ⟨stats, stamps⟩ := u
  cases stats with
  | none =>
    rw [ProcStats.total_eq]
    exact (Nat.zero_add _).trans total_replicate
  | some stats => rfl

/-- A user has no more counted than sent. -/
theorem total_step (hu : u.total ≤ u.stamps.length) (h : u.step hash s = some v) :
    v.total ≤ v.stamps.length := by
  obtain ⟨stats, hadd, rfl⟩ := step_eq_some.mp h
  have hle := ProcStats.total_add hadd
  rw [total_entry] at hle
  rw [List.length_append, List.length_singleton]
  exact Nat.le_trans hle (Nat.succ_le_succ hu)

/-- A step without a flaw counts the message. -/
theorem flawed_or_total {stats : ProcStats} (hu : u.total ≤ u.stamps.length)
    (hadd : (u.entry hash s).add hash s.index ⟨s.date, 0⟩ = some stats) :
    Flawed ⟨some stats, u.stamps ++ [s]⟩ ∨ stats.total = (u.entry hash s).total + 1 := by
  have hle := ProcStats.total_add hadd
  rw [total_entry] at hle ⊢
  rcases Nat.lt_or_ge stats.total (u.stamps.length + 1) with hlt | hge
  · refine .inl (.inl ?_)
    rw [List.length_append, List.length_singleton]
    exact hlt
  · exact .inr (by omega)

/-- Flaws stay. -/
theorem flawed_step (hu : u.total ≤ u.stamps.length) (hflaw : u.Flawed)
    (h : u.step hash s = some v) : v.Flawed := by
  obtain ⟨stats, hadd, rfl⟩ := step_eq_some.mp h
  rcases flawed_or_total hu hadd with hflawed | htotal
  · exact hflawed
  rcases hflaw with hlost | ⟨old, hold, hearly⟩
  · -- a message that has got lost is not counted later
    have hlost' : stats.total < u.stamps.length + 1 := by
      rw [htotal, total_entry]
      exact Nat.succ_lt_succ hlost
    refine .inl ?_
    rw [List.length_append, List.length_singleton]
    exact hlost'
  · have hentry : u.entry hash s = old := by
      rw [entry, hold, Option.getD_some]
    rw [hentry] at hadd htotal
    exact .inr ⟨stats, rfl, ProcStats.hasEarlyCount_add hadd htotal hearly⟩

/-- A message before the first one is a flaw, if its minute is not negative. -/
theorem flawed_of_early (hu : u.total ≤ u.stamps.length) (hcast : u.NonnegCast hash s)
    (hearly : ¬ u.Later s) (h : u.step hash s = some v) : v.Flawed := by
  obtain ⟨stats, hadd, rfl⟩ := step_eq_some.mp h
  rcases flawed_or_total hu hadd with hflawed | htotal
  · exact hflawed
  refine .inr ⟨stats, rfl, ProcStats.hasEarlyCount_of_early hadd htotal ?_⟩
  obtain ⟨old, hold, hlt⟩ : ∃ old ∈ u.stats, s.date < old.start + hour := by
    simpa [Later] using hearly
  have hentry : u.entry hash s = old := by
    rw [entry, hold, Option.getD_some]
  rw [NonnegCast, hentry] at hcast
  rw [hentry]
  have hminutes : wholeMinutes (s.date - old.start) < (60 : ℕ) := by
    refine (wholeMinutes_lt_iff (by decide)).mpr ?_
    have hhour : hour = (60 : ℕ) * minute := rfl
    omega
  have hsize : wholeMinutes (s.date - old.start) < UInt64.size :=
    Int.lt_trans hminutes (by decide)
  rw [asUsize, Int.emod_eq_of_lt hcast hsize]
  omega

/-- **Flaws.** A loop that casts no negative number and ends without a flaw has met no message
before the first one of its run. -/
theorem along_later {ss : List Stamp} (hcast : (userLoop hash).Along (NonnegCast hash) init ss)
    (hrun : (userLoop hash).run init ss = some u) (hflaw : ¬ u.Flawed) :
    (userLoop hash).Along Later init ss := by
  have hboth : (userLoop hash).Along (fun u s => u.NonnegCast hash s → u.Later s) init ss := by
    refine System.along_of_not_persistent (I := fun u => u.total ≤ u.stamps.length)
      (B := Flawed) ?_ ?_ ?_ (Nat.le_refl 0) hrun hflaw
    · exact fun u s v hu h => total_step hu h
    · intro u s v hu h hnot
      obtain ⟨hcast, hearly⟩ := Classical.not_imp.mp hnot
      exact flawed_of_early hu hcast hearly h
    · exact fun u s v hu hflaw h => flawed_step hu hflaw h
  exact hboth.mp hcast

end Seen

/-! ### Conversations -/

section

variable {c : Conversation} {all : List UserStats} {user : UserId} {fs : Fragments}
  {stats : ProcStats} {runs : List DataRun} {dateLastMessage : ℤ}

theorem last_le_of_finish (h : stats.finish dateLastMessage = some runs) :
    stats.last + hour ≤ maxTime := by
  obtain ⟨limit, hlimit, -⟩ := Option.bind_eq_some_iff.mp h
  exact (addTime_eq_some.mp hlimit).1.2

/-- The zeros at the end count nothing. -/
theorem total_finish (h : stats.finish dateLastMessage = some runs) :
    (runs.map fun run => total run.minuteCounters).sum = stats.total := by
  obtain ⟨limit, -, h⟩ := Option.bind_eq_some_iff.mp h
  obtain ⟨run, hrun, h⟩ := Option.bind_eq_some_iff.mp h
  obtain rfl := Option.some_inj.mp h
  rw [List.map_append, List.sum_append, List.map_singleton, List.sum_singleton,
    DataRun.total_pad hrun, ProcStats.total_eq]

theorem earlyCount_finish (h : stats.finish dateLastMessage = some runs)
    (hearly : stats.HasEarlyCount) : ∃ run ∈ runs, run.EarlyCount := by
  obtain ⟨limit, -, h⟩ := Option.bind_eq_some_iff.mp h
  obtain ⟨run, hrun, h⟩ := Option.bind_eq_some_iff.mp h
  obtain rfl := Option.some_inj.mp h
  obtain ⟨old, hmem, hold⟩ := hearly
  rcases List.mem_append.mp hmem with hmem | hmem
  · exact ⟨old, List.mem_append_left _ hmem, hold⟩
  · obtain rfl := List.mem_singleton.mp hmem
    exact ⟨run, List.mem_append_right _ (List.mem_singleton_self run), hold.pad hrun⟩

theorem stamps_cuts (hfs : cuts user c.messages = some fs) :
    fs.stamps = stampsOf user 0 c.messages := by
  have hstamps (fo : Option Fragments) (ss : List Stamp) :
      stamps? (ss.foldl cutTo fo) = stamps? fo ++ ss := by
    induction ss generalizing fo with
    | nil => exact (List.append_nil _).symm
    | cons s ss ih => rw [List.foldl_cons, ih, Fragments.stamps?_cutTo, ← List.append_cons]
  have hcuts := hstamps none (stampsOf user 0 c.messages)
  rw [← cuts, hfs] at hcuts
  exact hcuts

theorem stampsOf_of_cuts (h : cuts user c.messages = none) :
    stampsOf user 0 c.messages = [] := by
  rcases List.eq_nil_or_concat (stampsOf user 0 c.messages) with hnil | ⟨ss, s, hss⟩
  · exact hnil
  · rw [cuts, hss, List.concat_eq_append, Seen.foldl_concat] at h
    exact absurd h Fragments.cutTo_ne_none

/-- An hour after the last message there is a date, as there is one an hour before it. -/
theorem minTime_le_of_cuts (hrange : ∀ m ∈ c.messages, InRange m.date)
    (hfs : cuts user c.messages = some fs) : minTime ≤ fs.current.last.date + hour := by
  have hmem : fs.current.last ∈ stampsOf user 0 c.messages := by
    rw [← stamps_cuts hfs]
    exact Fragments.mem_stamps.mpr ⟨_, Fragments.current_mem, Fragment.last_mem⟩
  have hlast := (inRange_of_mem_stampsOf hrange _ hmem).1
  have hhour : 0 < hour := by decide
  omega

/-- The messages of a user whose runs are sound are counted, and not in the first hour of a run. -/
theorem not_flawed_of_sound {users : AList fun _ : UserId => ProcStats}
    (hall : users.entries.mapM (finishUser c.dateLastMessage) = some all) (hsound : Sound c all)
    (user : UserId) : ¬ Seen.Flawed ⟨users.lookup user, stampsOf user 0 c.messages⟩ := by
  obtain ⟨hnone, hsome⟩ := filter_finishUser user users.nodupKeys hall
  have hcounted := hsound.counted user
  rw [sum_counters, ← length_stampsOf (i := 0)] at hcounted
  cases hlookup : users.lookup user with
  | none =>
    rw [hnone hlookup] at hcounted
    rintro (hlt | ⟨stats, hstats, -⟩)
    · exact absurd hlt (by rw [← hcounted]; exact Nat.not_lt_zero _)
    · cases hstats
  | some stats =>
    obtain ⟨runs, hfinish, hfilter⟩ := hsome stats hlookup
    have hmem : (⟨user, runs⟩ : UserStats) ∈ all :=
      (List.mem_filter.mp (hfilter ▸ List.mem_singleton_self _)).1
    rw [hfilter, List.flatMap_singleton, total_finish hfinish] at hcounted
    rintro (hlt | ⟨stats', hstats, hearly⟩)
    · exact absurd hlt (Nat.not_lt_of_le hcounted.ge)
    · obtain rfl := Option.some_inj.mp hstats
      obtain ⟨run, hrun, hrunEarly⟩ := earlyCount_finish hfinish hearly
      exact DataRun.not_earlyCount_of_take (hsound.zeros _ hmem run hrun) hrunEarly

/-- No negative number is cast in the loop of a user whose runs are sound. -/
theorem along_nonnegCast_of_sound {users : AList fun _ : UserId => ProcStats}
    (husers : processMessages c.hash ∅ 0 c.messages = some users) (hsound : Sound c all)
    (user : UserId) : (userLoop c.hash).Along (Seen.NonnegCast c.hash) Seen.init
      (stampsOf user 0 c.messages) := by
  rw [← run_loop] at husers
  obtain ⟨l, hrun, -⟩ := Option.map_eq_some_iff.mp husers
  have halong := (along_loop_iff (fun _ => []) hrun).mp hsound.indices user
  rwa [AList.lookup_empty] at halong

/-- The dates of a user whose runs are sound are tidy. -/
theorem tidy_of_sound (h : processConversation c = some all) (hsound : Sound c all)
    (hfs : cuts user c.messages = some fs) : Tidy c fs := by
  obtain ⟨-, users, husers, hall⟩ := processConversation_eq_some.mp h
  have hrange := inRange_of_processMessages husers
  have hseen := exists_seen husers user
  have hlater := Seen.along_later (along_nonnegCast_of_sound husers hsound user) hseen
    (not_flawed_of_sound hall hsound user)
  obtain ⟨hplaced, horder⟩ := Seen.placed_run Seen.placed_init nofun hlater
    (inRange_of_mem_stampsOf hrange) hseen
  have hrel : Option.Rel (Placed c.hash) (users.lookup user) (cuts user c.messages) := hplaced
  rw [hfs] at hrel
  obtain ⟨stats, runs, hlookup, hp, hfinish, hfilter⟩ := (filter_of_rel hrel hall).2 fs rfl
  have hmax := last_le_of_finish hfinish
  have hclosing := hsound.lengths users husers ⟨user, stats⟩ (AList.mem_lookup_iff.mp hlookup)
  rw [hp.last] at hmax
  simp only [hp.last] at hclosing
  have hruns := Fragments.finish_placed hp (minTime_le_of_cuts hrange hfs) hmax hclosing
  refine ⟨horder fs hfs, ?_, hmax, closing_nonneg_iff.mp hclosing⟩
  have hcounted := hsound.counted user
  rw [sum_counters, ← length_stampsOf (i := 0), hfilter, List.flatMap_singleton,
    ← stamps_cuts hfs] at hcounted
  obtain rfl := Option.some_inj.mp (hfinish.symm.trans hruns)
  exact Fragments.total_placedRuns_iff.mp hcounted

/-- A user's entry whose dates are tidy is finished without a panic. -/
theorem finish_of_tidy (hrange : ∀ m ∈ c.messages, InRange m.date)
    (hfs : cuts user c.messages = some fs) (htidy : Tidy c fs) (h : Placed c.hash stats fs) :
    0 ≤ closing stats.last c.dateLastMessage ∧ ∃ n,
      stats.finish c.dateLastMessage = some (fs.placedRuns c.hash n) := by
  have hclosing := closing_nonneg_iff.mpr htidy.ends
  exact ⟨h.last ▸ hclosing, _,
    Fragments.finish_placed h (minTime_le_of_cuts hrange hfs) htidy.le_maxTime hclosing⟩

/-- The runs of users whose dates are tidy are sound. -/
theorem sound_of_tidy (hcount : c.userCount.toNat ≤ maxEntries)
    (hrange : ∀ m ∈ c.messages, InRange m.date)
    (htidy : ∀ user fs, cuts user c.messages = some fs → Tidy c fs) :
    ∃ all, processConversation c = some all ∧ Sound c all := by
  obtain ⟨l, hl, hcast, hplaced⟩ :=
    exists_loop hrange fun user fs hfs => (htidy user fs hfs).inOrder
  have husers : processMessages c.hash ∅ 0 c.messages = some l.1 := by
    rw [← run_loop, hl, Option.map_some]
  have hentries : ∀ entry ∈ l.1.entries, 0 ≤ closing entry.2.last c.dateLastMessage ∧
      ∃ (fs : Fragments) (n : ℕ),
        entry.2.finish c.dateLastMessage = some (fs.placedRuns c.hash n) := by
    rintro ⟨user, stats⟩ hentry
    have hrel := hplaced user
    rw [AList.mem_lookup_iff.mpr hentry] at hrel
    obtain ⟨fs, hfs, hp⟩ := Result.exists_of_rel hrel
    obtain ⟨hclosing, n, hruns⟩ := finish_of_tidy hrange hfs (htidy user fs hfs) hp
    exact ⟨hclosing, fs, n, hruns⟩
  obtain ⟨all, hall⟩ : ∃ all, l.1.entries.mapM (finishUser c.dateLastMessage) = some all := by
    apply Result.exists_mapM_eq_some
    intro entry hentry
    obtain ⟨-, fs, n, hruns⟩ := hentries entry hentry
    rw [finishUser, hruns]
    rfl
  refine ⟨all, ?_, hcast, ?_, fun user => ?_, fun stats hstats run hrun => ?_⟩
  · exact processConversation_eq_some.mpr ⟨hcount, l.1, husers, hall⟩
  · intro users husers' entry hentry
    obtain rfl := Option.some_inj.mp (husers.symm.trans husers')
    exact (hentries entry hentry).1
  · obtain ⟨hnone, hsome⟩ := filter_of_rel (hplaced user) hall
    rw [sum_counters, ← length_stampsOf (i := 0)]
    cases hfs : cuts user c.messages with
    | none =>
      rw [hnone hfs, stampsOf_of_cuts hfs]
      rfl
    | some fs =>
      obtain ⟨stats, runs, -, hp, hruns, hfilter⟩ := hsome fs hfs
      obtain ⟨-, n, hruns'⟩ := finish_of_tidy hrange hfs (htidy user fs hfs) hp
      obtain rfl := Option.some_inj.mp (hruns.symm.trans hruns')
      rw [hfilter, List.flatMap_singleton, ← stamps_cuts hfs]
      exact Fragments.total_placedRuns_iff.mpr (htidy user fs hfs).few
  · obtain ⟨entry, hentry, hstats⟩ :=
      Result.exists_of_mem_right (Result.mapM_eq_some hall) hstats
    obtain ⟨-, fs, n, hruns⟩ := hentries entry hentry
    rw [finishUser, hruns] at hstats
    obtain rfl := Option.some_inj.mp hstats
    exact Fragments.take_placedRuns run hrun

end

/-- **Disorder.** For dates that there are, the code returns sound runs exactly if it can have a map
for so many users, it can go an hour back from all dates, and those of each user are tidy. -/
theorem sound_iff {c : Conversation}
    (hdates : ∀ m ∈ c.messages, minTime ≤ m.date ∧ m.date ≤ maxTime) :
    (∃ all, processConversation c = some all ∧ Sound c all) ↔
      c.userCount.toNat ≤ maxEntries ∧ (∀ m ∈ c.messages, minTime + hour ≤ m.date) ∧
        ∀ user fs, cuts user c.messages = some fs → Tidy c fs := by
  have hhour : 0 < hour := by decide
  constructor
  · rintro ⟨all, hall, hsound⟩
    obtain ⟨hcount, users, husers, -⟩ := processConversation_eq_some.mp hall
    refine ⟨hcount, fun m hm => ?_, fun user fs hfs => tidy_of_sound hall hsound hfs⟩
    have hrange := (inRange_of_processMessages husers m hm).1
    omega
  · rintro ⟨hcount, hmin, htidy⟩
    refine sound_of_tidy hcount (fun m hm => ?_) htidy
    have hle := hmin m hm
    have hdate := hdates m hm
    exact ⟨by omega, by omega⟩

/-- Messages of one user, the last an hour before the one with the key before it. -/
def disorderly : Conversation where
  hash := 1
  dateLastMessage := 2 * hour
  userCount := 1
  messages := [⟨0, 7⟩, ⟨2 * hour, 7⟩, ⟨hour, 7⟩]
  length_le := by decide

theorem sound_disorderly :
    ∃ all, processConversation disorderly = some all ∧ Sound disorderly all := by
  have hcuts : cuts 7 disorderly.messages =
      some ⟨[], ⟨⟨0, 0⟩, [⟨1, 2 * hour⟩, ⟨2, hour⟩]⟩⟩ := rfl
  refine (sound_iff (by decide)).mpr ⟨by decide, by decide, fun user fs hfs => ?_⟩
  by_cases hu : user = 7
  · subst hu
    obtain rfl := Option.some_inj.mp (hcuts.symm.trans hfs)
    refine ⟨?_, ?_, by decide, by decide⟩
    · simp only [Fragments.all, List.nil_append, List.forall_mem_singleton, Fragment.InOrder]
      decide
    · simp only [Fragments.all, List.nil_append, List.forall_mem_singleton]
      intro k
      exact Nat.lt_of_le_of_lt List.count_le_length (by decide)
  · have hnone : stampsOf user 0 disorderly.messages = [] := by
      simp [stampsOf, disorderly, Ne.symm hu]
    rw [cuts, hnone] at hfs
    cases hfs

/-- Messages of one user, the second a minute before the first. -/
def early : Conversation where
  hash := 1
  dateLastMessage := hour
  userCount := 1
  messages := [⟨hour, 7⟩, ⟨hour - minute, 7⟩]
  length_le := by decide

/-- A conversation that ends two minutes before its last message. -/
def cutShort : Conversation where
  hash := 1
  dateLastMessage := 0
  userCount := 1
  messages := [⟨2 * minute, 7⟩]
  length_le := by decide

/-- A conversation with as many users as there can be. -/
def crowded : Conversation where
  hash := 1
  dateLastMessage := 0
  userCount := 9999999980506447872
  messages := [⟨0, 7⟩]
  length_le := by decide

/-- **Early messages.** A message a minute before the first one of its run is counted in the
padding, and the code panics over a conversation that ends before its last message, and over one
with too many users for the map. -/
theorem not_sound_early :
    (¬ ∃ all, processConversation early = some all ∧ Sound early all) ∧
      processConversation cutShort = none ∧ processConversation crowded = none := by
  have hall : processConversation early =
      some [⟨7, [⟨1, 0, List.replicate 59 0 ++ [1, 1, 0]⟩]⟩] := by
    decide +kernel
  refine ⟨?_, by decide +kernel, by decide +kernel⟩
  rintro ⟨all, h, hsound⟩
  obtain rfl := Option.some_inj.mp (hall.symm.trans h)
  have hzeros := hsound.zeros _ (List.mem_singleton_self _) _ (List.mem_singleton_self _)
  revert hzeros
  decide

end SignalSim.SamExtractor
