import Mathlib.Data.List.SplitBy
import SignalSim.SamExtractor.Runs

/-!
# Where runs begin

A conversation is meant to be broken where more than two hours pass between two messages of a user.
The code compares whole minutes since the first message of the run: a message begins a run if it is
122 minutes or more behind the last one. That is the same break only if the minutes happen to fall
so.

## Main definitions

* `Near` — two messages are at most two hours apart
* `Begins` — a message is the first one of a run

## Main results

* `fragments_of_groups` — what the code makes of messages that are grouped with wide gaps
* `begins_iff_of_gaps` — when runs begin where the gaps are
-/

namespace SignalSim.SamExtractor

open Fragments (Represents Separated addTo mem_stamps)

/-- The second message is sent at most two hours after the first. -/
def Near (s t : Stamp) : Bool := t.date ≤ s.date + 2 * hour

theorem near_iff {s t : Stamp} : Near s t = true ↔ t.date ≤ s.date + 2 * hour :=
  decide_eq_true_iff

theorem not_near_iff {s t : Stamp} : ¬ Near s t = true ↔ s.date + 2 * hour < t.date := by
  rw [near_iff, Int.not_le]

/-! ### Groups of messages -/

namespace Fragment

variable {f g : Fragment} {s t : Stamp} {ss : List Stamp}

theorem head?_stamps : f.stamps.head? = some f.head := rfl

theorem getLast?_stamps : f.stamps.getLast? = some f.last := List.getLast?_eq_some_getLast _

/-- No message less than two hours after the last one begins a fragment. -/
theorem not_lt_of_near (hle : f.head.date ≤ f.last.date) (hnear : Near f.last t) :
    ¬ f.size + 120 < minutesAfter f.head.date t.date := by
  have hdate := near_iff.mp hnear
  intro hlt
  have hfar : f.size + 121 ≤ minutesAfter f.head.date t.date := hlt
  have hlater : f.head.date ≤ t.date := by
    by_contra hbefore
    have hzero : minutesAfter f.head.date t.date ≤ minutesAfter f.head.date f.head.date :=
      minutesAfter_mono (Int.le_of_lt (Int.not_le.mp hbefore))
    rw [minutesAfter_self] at hzero
    omega
  -- the last message is less than `size` minutes after the first
  have hlast : f.last.date < f.head.date + f.size * minute :=
    (minutesAfter_lt_iff hle).mp (Nat.lt_succ_self _)
  have hlate := (le_minutesAfter_iff hlater).mp hfar
  rw [hour, minute] at hdate
  rw [minute] at hlast hlate
  omega

end Fragment

namespace Fragments

variable {fs : Fragments} {closed : List Fragment} {f g : Fragment} {s t : Stamp}
  {ss : List Stamp} {gs : List Fragment}

/-- Messages that follow each other closely go into one fragment. -/
theorem foldl_addTo_of_near (hsorted : (f.stamps ++ ss).Pairwise fun s t => s.date ≤ t.date)
    (hnear : (f.last :: ss).IsChain fun s t => Near s t) :
    ss.foldl addTo (some ⟨closed, f⟩) = some ⟨closed, ⟨f.head, f.tail ++ ss⟩⟩ := by
  induction ss generalizing f with
  | nil =>
    rw [List.append_nil]
    rfl
  | cons s ss ih =>
    obtain ⟨hs, hss⟩ := List.isChain_cons_cons.mp hnear
    have hf : f.Sorted := (List.pairwise_append.mp hsorted).1
    have hadd : addTo (some ⟨closed, f⟩) s = some ⟨closed, f.push s⟩ :=
      congrArg some (add_of_not_lt (Fragment.not_lt_of_near (hf.le_last Fragment.head_mem) hs))
    rw [List.foldl_cons, hadd, ih]
    · simp [Fragment.push]
    · rwa [Fragment.stamps_push, ← List.append_cons]
    · rwa [Fragment.last_push]

/-- A group whose first message begins a fragment becomes that fragment. -/
theorem foldl_addTo_group {fo : Option Fragments}
    (hhead : addTo fo g.head = some ⟨closed, ⟨g.head, []⟩⟩) (hsorted : g.Sorted)
    (hnear : g.stamps.IsChain fun s t => Near s t) :
    g.stamps.foldl addTo fo = some ⟨closed, g⟩ := by
  rw [Fragment.stamps, List.foldl_cons, hhead]
  exact foldl_addTo_of_near (f := ⟨g.head, []⟩) hsorted hnear

/-- Every group becomes a fragment if it is far enough behind the one before. -/
theorem foldl_addTo_of_groups (closed : List Fragment)
    (hsorted : ((f :: gs).flatMap Fragment.stamps).Pairwise fun s t => s.date ≤ t.date)
    (hnear : ∀ g ∈ gs, g.stamps.IsChain fun s t => Near s t)
    (hfar : (f :: gs).IsChain fun f g => f.size + 120 < minutesAfter f.head.date g.head.date) :
    ∃ fs, (gs.flatMap Fragment.stamps).foldl addTo (some ⟨closed, f⟩) = some fs ∧
      fs.all = closed ++ f :: gs := by
  induction gs generalizing closed f with
  | nil => exact ⟨⟨closed, f⟩, rfl, rfl⟩
  | cons g gs ih =>
    obtain ⟨hg, hgs⟩ := List.isChain_cons_cons.mp hfar
    have hadd : addTo (some ⟨closed, f⟩) g.head = some ⟨closed ++ [f], ⟨g.head, []⟩⟩ :=
      congrArg some (add_of_lt hg)
    rw [List.flatMap_cons, List.pairwise_append] at hsorted
    have hrest := hsorted.2.1
    rw [List.flatMap_cons, List.pairwise_append] at hrest
    obtain ⟨fs, hfs, hall⟩ := ih (closed ++ [f]) hsorted.2.1
      (fun g' hg' => hnear g' (List.mem_cons_of_mem g hg')) hgs
    refine ⟨fs, ?_, by rw [hall, List.append_assoc]; rfl⟩
    rw [List.flatMap_cons, List.foldl_append,
      foldl_addTo_group hadd hrest.1 (hnear g List.mem_cons_self)]
    exact hfs

end Fragments

/-- **Groups.** The fragments of a user are groups of messages in which all are near the one before,
if each group is far enough behind. -/
theorem fragments_of_groups {user : UserId} {ms : List Message} {gs : List Fragment}
    (hsorted : ms.Pairwise fun m m' => m.date ≤ m'.date) (hne : gs ≠ [])
    (hstamps : stampsOf user 0 ms = gs.flatMap Fragment.stamps)
    (hnear : ∀ g ∈ gs, g.stamps.IsChain fun s t => Near s t)
    (hfar : gs.IsChain fun f g => f.size + 120 < minutesAfter f.head.date g.head.date) :
    ∃ fs, fragments user ms = some fs ∧ fs.all = gs := by
  obtain ⟨g, gs, rfl⟩ := List.exists_cons_of_ne_nil hne
  have hdates : (stampsOf user 0 ms).Pairwise fun s t => s.date ≤ t.date :=
    stampsOf_pairwise_date hsorted
  rw [hstamps] at hdates
  obtain ⟨fs, hfs, hall⟩ := Fragments.foldl_addTo_of_groups [] hdates
    (fun g' hg' => hnear g' (List.mem_cons_of_mem g hg')) hfar
  rw [List.flatMap_cons, List.pairwise_append] at hdates
  refine ⟨fs, ?_, hall⟩
  rw [fragments, hstamps, List.flatMap_cons, List.foldl_append,
    Fragments.foldl_addTo_group rfl hdates.1 (hnear g List.mem_cons_self)]
  exact hfs

/-! ### Gaps -/

/-- The message at the index is the first one of a run of the user. -/
def Begins (all : List UserStats) (user : UserId) (index : ℕ) : Prop :=
  ∃ stats ∈ all, stats.user = user ∧ ∃ run ∈ stats.dataRuns, run.firstMessage = index

section

variable {user : UserId} {c : Conversation} {all : List UserStats} {fs : Fragments}
  {stats : ProcStats} {runs : List DataRun} {hash : Int32} {last : ℤ} {index : ℕ}
  {f g : Fragment} {t : Stamp}

theorem firstMessages_of_finish (h : Represents hash stats fs)
    (hfinish : stats.finish last = some runs) :
    runs.map (·.firstMessage) = fs.all.map (·.head.index) := by
  obtain ⟨limit, -, hfinish⟩ := Option.bind_eq_some_iff.mp hfinish
  obtain ⟨run, hrun, hfinish⟩ := Option.bind_eq_some_iff.mp hfinish
  obtain rfl := Option.some_inj.mp hfinish
  rw [DataRun.pad_eq_some hrun, h.closedRuns, h.dataRun, Fragments.all, List.map_append,
    List.map_append, List.map_map]
  rfl

/-- The runs of a user begin where the fragments do. -/
theorem begins_iff (hsorted : c.messages.Pairwise fun m m' => m.date ≤ m'.date)
    (h : processConversation c = some all) (hfs : fragments user c.messages = some fs) :
    Begins all user index ↔ ∃ f ∈ fs.all, f.head.index = index := by
  obtain ⟨-, users, husers, h⟩ := processConversation_eq_some.mp h
  obtain ⟨stats, runs, -, hrep, hfinish, hfilter⟩ :=
    (filter_of_rel (processMessages_represents husers hsorted) h).2 fs hfs
  have hmem : ∀ stats, stats ∈ all ∧ stats.user = user ↔ stats = ⟨user, runs⟩ := by
    intro stats
    have hin : stats ∈ all.filter (·.user = user) ↔ stats = ⟨user, runs⟩ := by
      rw [hfilter, List.mem_singleton]
    rw [← hin, List.mem_filter, decide_eq_true_iff]
  have hruns : Begins all user index ↔ index ∈ runs.map (·.firstMessage) := by
    simp only [Begins, ← and_assoc, hmem, exists_eq_left, List.mem_map]
  rw [hruns, firstMessages_of_finish hrep hfinish, List.mem_map]

/-- Only the first message of a fragment begins one. -/
theorem not_begins_of_mem_tail (hindex : fs.stamps.Pairwise fun s t => s.index < t.index)
    (hf : f ∈ fs.all) (ht : t ∈ f.tail) : ¬ ∃ g ∈ fs.all, g.head.index = t.index := by
  rintro ⟨g, hg, heq⟩
  obtain ⟨hinner, houter⟩ := List.pairwise_flatMap.mp hindex
  have hmem : t ∈ f.stamps := List.mem_cons_of_mem _ ht
  rcases Fragments.eq_or_before houter hf hg with rfl | hbefore | hafter
  · have hlt := (List.pairwise_cons.mp (hinner f hf)).1 t ht
    omega
  · have hlt := hbefore t hmem g.head Fragment.head_mem
    omega
  · have hlt := hafter g.head Fragment.head_mem t hmem
    omega

theorem stamps_eq_flatten (fs : Fragments) : fs.stamps = (fs.all.map Fragment.stamps).flatten :=
  List.flatMap_def

theorem nil_notMem_stamps (gs : List Fragment) : [] ∉ gs.map Fragment.stamps := by
  intro hnil
  obtain ⟨g, -, hg⟩ := List.mem_map.mp hnil
  exact List.cons_ne_nil _ _ hg

theorem exists_map_stamps {groups : List (List Stamp)} (h : [] ∉ groups) :
    ∃ gs : List Fragment, groups = gs.map Fragment.stamps := by
  induction groups with
  | nil => exact ⟨[], rfl⟩
  | cons group groups ih =>
    obtain ⟨hne, hgroups⟩ := not_or.mp (mt List.mem_cons.mpr h)
    obtain ⟨gs, rfl⟩ := ih hgroups
    obtain ⟨s, ss, rfl⟩ := List.exists_cons_of_ne_nil (Ne.symm hne)
    exact ⟨⟨s, ss⟩ :: gs, rfl⟩

theorem foldl_addTo_isSome (ss : List Stamp) (fs : Fragments) :
    (ss.foldl addTo (some fs)).isSome := by
  induction ss generalizing fs with
  | nil => rfl
  | cons s ss ih => exact ih (fs.add s)

/-- Whoever has no fragment has sent no message. -/
theorem stampsOf_eq_nil {ms : List Message} (h : fragments user ms = none) :
    stampsOf user 0 ms = [] := by
  rw [fragments] at h
  cases hstamps : stampsOf user 0 ms with
  | nil => rfl
  | cons s ss =>
    have hsome := foldl_addTo_isSome ss ⟨[], ⟨s, []⟩⟩
    rw [hstamps, List.foldl_cons] at h
    exact absurd h (Option.ne_none_iff_isSome.mpr hsome)

/-- The first message of a fragment is more than two hours behind the one before. -/
theorem isChain_far (hsorted : fs.stamps.Pairwise fun s t => s.date ≤ t.date)
    (hseparated : fs.all.Pairwise Separated) :
    fs.all.IsChain fun f g => f.size + 120 < minutesAfter f.head.date g.head.date ∧
      ¬ Near f.last g.head := by
  apply List.IsChain.imp_of_mem_imp _ hseparated.isChain
  intro f g hf hg hfar
  have hlt := hfar g.head Fragment.head_mem
  have hle := (Fragments.sorted_of_mem hsorted hf).le_last Fragment.head_mem
  exact ⟨hlt, fun hnear => Fragment.not_lt_of_near hle hnear hlt⟩

/-- Runs begin where the gaps are if and only if all fragments are without gaps. -/
theorem isChain_begins_iff (hbegins : ∀ i, Begins all user i ↔ ∃ f ∈ fs.all, f.head.index = i)
    (hindex : fs.stamps.Pairwise fun s t => s.index < t.index)
    (hsorted : fs.stamps.Pairwise fun s t => s.date ≤ t.date)
    (hseparated : fs.all.Pairwise Separated) :
    (fs.stamps.IsChain fun s t => Begins all user t.index ↔ s.date + 2 * hour < t.date) ↔
      ∀ f ∈ fs.all, f.stamps.IsChain fun s t => Near s t := by
  rw [stamps_eq_flatten, List.isChain_flatten (nil_notMem_stamps _), List.forall_mem_map]
  -- between fragments there is a gap and a run begins
  have hbetween : (fs.all.map Fragment.stamps).IsChain fun g g' =>
      ∀ᵉ (s ∈ g.getLast?) (t ∈ g'.head?),
        Begins all user t.index ↔ s.date + 2 * hour < t.date := by
    rw [List.isChain_map]
    apply List.IsChain.imp_of_mem_imp _ (isChain_far hsorted hseparated)
    intro f g _ hg hfar
    simp only [Fragment.getLast?_stamps, Fragment.head?_stamps, Option.mem_some_iff, forall_eq']
    exact iff_of_true ((hbegins _).mpr ⟨g, hg, rfl⟩) (not_near_iff.mp hfar.2)
  rw [and_iff_left hbetween]
  -- inside none begins
  refine forall₂_congr fun f hf => List.IsChain.iff_of_mem_tail_imp fun s t _ ht => ?_
  rw [hbegins, iff_false_left (not_begins_of_mem_tail hindex hf ht), ← not_near_iff, not_not]

end

/-- **Gaps.** Runs of a user begin exactly where more than two hours pass between two messages if
and only if, from the first message of each group between such gaps on, the minute of the next
group's first message is at least 122 more than that of its own last one. -/
theorem begins_iff_of_gaps {c : Conversation} {all : List UserStats} (user : UserId)
    (hsorted : c.messages.Pairwise fun m m' => m.date ≤ m'.date)
    (h : processConversation c = some all) :
    ((stampsOf user 0 c.messages).IsChain fun s t =>
        Begins all user t.index ↔ s.date + 2 * hour < t.date) ↔
      ((stampsOf user 0 c.messages).splitBy Near).IsChain fun group next =>
        ∀ᵉ (first ∈ group.head?) (last ∈ group.getLast?) (t ∈ next.head?),
          minutesAfter first.date last.date + 122 ≤ minutesAfter first.date t.date := by
  cases hfs : fragments user c.messages with
  | none =>
    rw [stampsOf_eq_nil hfs]
    exact iff_of_true .nil .nil
  | some fs =>
    obtain ⟨hstamps, hindex, hdates, hseparated⟩ := fragments_eq_some hsorted hfs
    have hfar := isChain_far hdates hseparated
    have hcondition : ∀ gs : List Fragment,
        ((gs.map Fragment.stamps).IsChain fun group next =>
          ∀ᵉ (first ∈ group.head?) (last ∈ group.getLast?) (t ∈ next.head?),
            minutesAfter first.date last.date + 122 ≤ minutesAfter first.date t.date) ↔
          gs.IsChain fun f g => f.size + 120 < minutesAfter f.head.date g.head.date := by
      intro gs
      rw [List.isChain_map]
      apply List.IsChain.iff
      intro f g
      simp only [Fragment.getLast?_stamps, Fragment.head?_stamps, Option.mem_some_iff, forall_eq',
        Fragment.size]
      omega
    rw [← hstamps, isChain_begins_iff (fun i => begins_iff hsorted h hfs) hindex hdates hseparated]
    constructor
    · intro hnear
      -- the groups are the fragments
      have hsplit : fs.stamps.splitBy Near = fs.all.map Fragment.stamps := by
        refine List.splitBy_eq_iff.mpr ⟨stamps_eq_flatten fs, nil_notMem_stamps _,
          List.forall_mem_map.mpr hnear, (List.isChain_map _).mpr (hfar.imp fun f g hfg => ?_)⟩
        exact ⟨List.cons_ne_nil _ _, List.cons_ne_nil _ _, Bool.eq_false_of_not_eq_true hfg.2⟩
      rw [hsplit, hcondition]
      exact hfar.imp fun f g hfg => hfg.1
    · intro hgroups
      obtain ⟨gs, hgs⟩ := exists_map_stamps (List.nil_notMem_splitBy Near fs.stamps)
      rw [hgs, hcondition] at hgroups
      have hflat : fs.stamps = gs.flatMap Fragment.stamps := by
        rw [List.flatMap_def, ← hgs, List.flatten_splitBy]
      have hne : gs ≠ [] := by
        rintro rfl
        have hmem : fs.current.head ∈ fs.stamps :=
          mem_stamps.mpr ⟨_, Fragments.current_mem, Fragment.head_mem⟩
        exact List.ne_nil_of_mem hmem hflat
      have hnear : ∀ g ∈ gs, g.stamps.IsChain fun s t => Near s t := by
        intro g hg
        exact List.isChain_of_mem_splitBy (hgs ▸ List.mem_map_of_mem hg)
      obtain ⟨fs', hfs', hall⟩ :=
        fragments_of_groups hsorted hne (hstamps.symm.trans hflat) hnear hgroups
      obtain rfl := Option.some_inj.mp (hfs.symm.trans hfs')
      rw [hall]
      exact hnear

/-- Two messages of user 7. -/
def gapConv (gap : ℤ) : Conversation where
  hash := 1
  dateLastMessage := gap
  userCount := 1
  messages := [⟨0, 7⟩, ⟨gap, 7⟩]
  length_le := Nat.le_of_ble_eq_true rfl

/-- Two hours and half a minute are no break. -/
theorem not_begins_of_gap :
    ∃ all, processConversation (gapConv 7230000000000) = some all ∧
      (0 : ℤ) + 2 * hour < 7230000000000 ∧ ¬ Begins all 7 1 := by
  have hrun : processConversation (gapConv 7230000000000) =
      some [⟨7, [⟨1, 0, List.replicate 60 0 ++ [1] ++ List.replicate 119 0 ++ [1]⟩]⟩] := by
    decide +kernel
  refine ⟨_, hrun, by decide, ?_⟩
  rintro ⟨stats, hstats, -, run, hmem, hfirst⟩
  obtain rfl := List.mem_singleton.mp hstats
  obtain rfl := List.mem_singleton.mp hmem
  exact absurd hfirst (by decide)

/-- Three hours are one. -/
theorem begins_iff_of_gaps_far :
    ∃ all, processConversation (gapConv 10800000000000) = some all ∧
      (stampsOf 7 0 (gapConv 10800000000000).messages).IsChain fun s t =>
        Begins all 7 t.index ↔ s.date + 2 * hour < t.date := by
  have hsome : (processConversation (gapConv 10800000000000)).isSome := by decide +kernel
  obtain ⟨all, hall⟩ := Option.isSome_iff_exists.mp hsome
  have hsplit : (stampsOf 7 0 (gapConv 10800000000000).messages).splitBy Near =
      [[⟨0, 0⟩], [⟨1, 10800000000000⟩]] := rfl
  refine ⟨all, hall, (begins_iff_of_gaps 7 (by decide) hall).mpr ?_⟩
  rw [hsplit, List.isChain_pair]
  decide

end SignalSim.SamExtractor
