import SignalSim.Foundations.Result
import SignalSim.SamExtractor.UserLoop

/-!
# The runs that are extracted

What `extract` writes for a user: for each conversation in turn, the histograms of the user's
fragments, each closed by an hour of zeros and the last one by up to an hour.

## Main results

* `cuts_eq_fragments` — the stretches of messages in order are the fragments
* `processMessages_represents` — the loop over the messages builds the fragments of every user
* `extract_runs` — the runs of a user are those of the fragments in each conversation
-/

namespace SignalSim.SamExtractor

open Fragments (Represents)

/-! ### Messages in order -/

namespace Fragment

variable {f : Fragment} {hash : Int32} {n : ℕ}

/-- The latest message of a fragment in order is the last one. -/
theorem Sorted.reach_eq (h : f.Sorted) : f.reach = f.size := by
  refine Nat.le_antisymm (reach_le ?_) (lt_reach (List.mem_map_of_mem last_mem))
  intro k hk
  obtain ⟨s, hs, rfl⟩ := List.mem_map.mp hk
  exact Nat.le_of_lt_succ (h.lt_size hs)

theorem Sorted.placedRun_eq (h : f.Sorted) : f.placedRun hash n = f.toRun hash n := by
  rw [placedRun, placed, h.reach_eq]
  rfl

theorem Sorted.inOrder (h : f.Sorted) : f.InOrder := fun _ => h.head_le

end Fragment

namespace Fragments

variable {fs : Fragments} {hash : Int32} {stats : ProcStats} {n : ℕ}

/-- The stretches of messages in order are the fragments. -/
theorem foldl_cutTo_eq {ss : List Stamp} {fo : Option Fragments}
    (hsorted : (stamps? fo ++ ss).Pairwise fun s t => s.date ≤ t.date) :
    ss.foldl cutTo fo = ss.foldl addTo fo := by
  induction ss generalizing fo with
  | nil => rfl
  | cons s ss ih =>
    have hnext : cutTo fo s = addTo fo s := by
      cases fo with
      | none => rfl
      | some fs =>
        have hcurrent := sorted_of_mem (List.pairwise_append.mp hsorted).1 current_mem
        rw [cutTo, addTo, cut, add, hcurrent.reach_eq]
    rw [List.append_cons, ← stamps?_addTo] at hsorted
    rw [List.foldl_cons, List.foldl_cons, hnext, ih hsorted]

theorem map_placedRun_closed (h : ∀ f ∈ fs.all, f.Sorted) :
    (fs.closed.map fun f => f.placedRun hash n) = fs.closed.map fun f => f.toRun hash n :=
  List.map_congr_left fun f hf => (h f (List.mem_append_left _ hf)).placedRun_eq

theorem placedRuns_eq_toRuns (h : ∀ f ∈ fs.all, f.Sorted) :
    fs.placedRuns hash n = fs.toRuns hash n := by
  rw [placedRuns, toRuns, (h _ current_mem).placedRun_eq, map_placedRun_closed h]

theorem Placed.represents (h : Placed hash stats fs) (hsorted : ∀ f ∈ fs.all, f.Sorted) :
    Represents hash stats fs where
  closedRuns := h.closedRuns.trans (map_placedRun_closed hsorted)
  dataRun := h.dataRun.trans (hsorted _ current_mem).placedRun_eq
  start := h.start
  last := h.last
  minTime_le := h.minTime_le

end Fragments

section

variable {c : Conversation} {users : AList fun _ : UserId => ProcStats} {user : UserId}
  {fs : Fragments}

theorem cuts_eq_fragments (hsorted : c.messages.Pairwise fun m m' => m.date ≤ m'.date) :
    cuts user c.messages = fragments user c.messages :=
  Fragments.foldl_cutTo_eq (stampsOf_pairwise_date hsorted)

/-- The loop over messages in order gets through, and counts the fragments of each user. -/
theorem exists_loop_of_sorted (hsorted : c.messages.Pairwise fun m m' => m.date ≤ m'.date)
    (hrange : ∀ m ∈ c.messages, InRange m.date) :
    ∃ users, processMessages c.hash ∅ 0 c.messages = some users ∧ ∀ user,
      Option.Rel (Fragments.Placed c.hash) (users.lookup user) (fragments user c.messages) := by
  have horder (user : UserId) : Fragments.AllInOrder (cuts user c.messages) := by
    rw [cuts_eq_fragments hsorted]
    exact fun fs hfs f hf => ((fragments_eq_some hsorted hfs).sorted hf).inOrder
  obtain ⟨l, hl, -, hplaced⟩ := exists_loop hrange horder
  refine ⟨l.1, by rw [← run_loop, hl, Option.map_some], fun user => ?_⟩
  rw [← cuts_eq_fragments hsorted]
  exact hplaced user

/-- The loop over the messages builds the fragments of the user. -/
theorem processMessages_represents (h : processMessages c.hash ∅ 0 c.messages = some users)
    (hsorted : c.messages.Pairwise fun m m' => m.date ≤ m'.date) :
    Option.Rel (Represents c.hash) (users.lookup user) (fragments user c.messages) := by
  obtain ⟨users', husers, hplaced⟩ :=
    exists_loop_of_sorted hsorted (inRange_of_processMessages h)
  obtain rfl := Option.some_inj.mp (husers.symm.trans h)
  have hall (fs : Fragments) (hfs : fragments user c.messages = some fs) :
      ∀ f ∈ fs.all, f.Sorted := fun f hf => (fragments_eq_some hsorted hfs).sorted hf
  have hrel := hplaced user
  generalize fragments user c.messages = fo at hrel hall ⊢
  generalize users'.lookup user = so at hrel ⊢
  cases hrel with
  | none => exact .none
  | some hp => exact .some (hp.represents (hall _ rfl))

end

/-! ### The runs of a conversation -/

/-- The messages are in the order of their dates, the last of which is not after the end. -/
structure Conversation.Ordered (c : Conversation) : Prop where
  sorted : c.messages.Pairwise fun m m' => m.date ≤ m'.date
  le_last : ∀ m ∈ c.messages, m.date ≤ c.dateLastMessage

/-- The minutes without messages at the end of the last run. -/
def closingMinutes (c : Conversation) (last : ℤ) : ℕ :=
  minutesAfter last (min (last + hour) c.dateLastMessage)

theorem closingMinutes_le (c : Conversation) (last : ℤ) : closingMinutes c last ≤ 60 := by
  have hle : minutesAfter last (min (last + hour) c.dateLastMessage) ≤
      minutesAfter last (last + hour) := minutesAfter_mono (Int.min_le_left _ _)
  have hhour : minutesAfter last (last + hour) = 60 := by
    rw [minutesAfter, add_sub_cancel_left]
    rfl
  exact hhour ▸ hle

/-- The runs of a user in a conversation: none if there is no message of the user in it. -/
inductive ConvRuns (user : UserId) (c : Conversation) : List DataRun → Prop
  | none : fragments user c.messages = none → ConvRuns user c []
  | some {fs : Fragments} : fragments user c.messages = some fs →
      (∀ m ∈ c.messages, InRange m.date) → fs.current.last.date + hour ≤ maxTime →
      ConvRuns user c (fs.toRuns c.hash (closingMinutes c fs.current.last.date))

theorem finish_eq_some {c : Conversation} {stats : ProcStats} {fs : Fragments}
    {runs : List DataRun} (h : Represents c.hash stats fs)
    (hlast : fs.current.last.date ≤ c.dateLastMessage)
    (hrange : InRange fs.current.last.date)
    (hfinish : stats.finish c.dateLastMessage = some runs) :
    fs.current.last.date + hour ≤ maxTime ∧
      runs = fs.toRuns c.hash (closingMinutes c fs.current.last.date) := by
  obtain ⟨limit, hlimit, hfinish⟩ := Option.bind_eq_some_iff.mp hfinish
  rw [h.last] at hlimit
  obtain ⟨hmax, rfl⟩ := addTime_eq_some.mp hlimit
  obtain ⟨run, hrun, hfinish⟩ := Option.bind_eq_some_iff.mp hfinish
  obtain rfl := Option.some_inj.mp hfinish
  -- the code fills up to an hour, or to the end of the conversation if that comes first
  have hle : fs.current.last.date ≤ min (fs.current.last.date + hour) c.dateLastMessage :=
    Int.le_min.mpr ⟨Int.le_add_of_nonneg_right (by decide), hlast⟩
  have hclosing : asUsize (wholeMinutes (min (fs.current.last.date + hour) c.dateLastMessage -
      fs.current.last.date)) = closingMinutes c fs.current.last.date := by
    apply asUsize_wholeMinutes hle
    · exact Int.le_trans hrange.1 (Int.sub_le_self _ (by decide))
    · exact Int.le_trans (Int.min_le_left _ _) (Int.le_trans hmax.2 (by decide))
  refine ⟨hmax.2, ?_⟩
  rw [h.last, hclosing] at hrun
  rw [DataRun.pad_eq_some hrun, h.closedRuns, h.dataRun]
  simp [Fragments.toRuns, Fragment.toRun]

/-- The statistics of a user are those of the user's entry, if there is one. -/
theorem filter_finishUser (user : UserId) {last : ℤ}
    {entries : List (Σ _ : UserId, ProcStats)} {all : List UserStats}
    (hnodup : entries.NodupKeys) (h : entries.mapM (finishUser last) = some all) :
    (entries.dlookup user = none → all.filter (·.user = user) = []) ∧
    ∀ stats, entries.dlookup user = some stats → ∃ runs, stats.finish last = some runs ∧
      all.filter (·.user = user) = [⟨user, runs⟩] := by
  -- the keys are distinct, so at most one entry is the user's
  induction entries generalizing all with
  | nil =>
    obtain rfl := Option.some_inj.mp h
    exact ⟨fun _ => rfl, fun stats hstats => nomatch hstats⟩
  | cons e es ih =>
    rw [List.mapM_cons] at h
    obtain ⟨first, hfirst, h⟩ := Option.bind_eq_some_iff.mp h
    obtain ⟨rest, hrest, h⟩ := Option.bind_eq_some_iff.mp h
    obtain rfl := Option.some_inj.mp h
    obtain ⟨runs, hruns, hfirst⟩ := Option.bind_eq_some_iff.mp hfirst
    obtain rfl := Option.some_inj.mp hfirst
    obtain ⟨hnew, hes⟩ := List.nodupKeys_cons.mp hnodup
    have hih := ih hes hrest
    obtain ⟨k, stats⟩ := e
    by_cases hk : user = k
    · subst hk
      have hnone := hih.1 (List.dlookup_eq_none.mpr hnew)
      rw [List.dlookup_cons_eq, List.filter_cons_of_pos (by simp), hnone]
      refine ⟨nofun, ?_⟩
      intro stats' hstats
      obtain rfl := Option.some_inj.mp hstats
      exact ⟨runs, hruns, rfl⟩
    · rw [List.dlookup_cons_ne _ _ hk, List.filter_cons_of_neg (by simpa using Ne.symm hk)]
      exact hih

/-- The statistics of a user whose entry is related to some fragments. -/
theorem filter_of_rel {R : ProcStats → Fragments → Prop} {user : UserId} {last : ℤ}
    {users : AList fun _ : UserId => ProcStats} {all : List UserStats} {fo : Option Fragments}
    (hrel : Option.Rel R (users.lookup user) fo)
    (h : users.entries.mapM (finishUser last) = some all) :
    (fo = none → all.filter (·.user = user) = []) ∧
    ∀ fs, fo = some fs → ∃ stats runs, users.lookup user = some stats ∧ R stats fs ∧
      stats.finish last = some runs ∧ all.filter (·.user = user) = [⟨user, runs⟩] := by
  obtain ⟨hnone, hsome⟩ := filter_finishUser user users.nodupKeys h
  cases hlookup : users.lookup user with
  | none =>
    rw [hlookup] at hrel
    cases hrel
    exact ⟨fun _ => hnone hlookup, nofun⟩
  | some stats =>
    rw [hlookup] at hrel
    cases hrel with
    | some hR =>
      refine ⟨nofun, ?_⟩
      rintro fs ⟨⟩
      obtain ⟨runs, hfinish, hfilter⟩ := hsome stats hlookup
      exact ⟨stats, runs, rfl, hR, hfinish, hfilter⟩

section

variable {c : Conversation} {all : List UserStats} {user : UserId} {fs : Fragments}

/-- The last message of the fragments is one of the conversation. -/
theorem exists_last (hsorted : c.messages.Pairwise fun m m' => m.date ≤ m'.date)
    (hfs : fragments user c.messages = some fs) :
    ∃ m ∈ c.messages, m.date = fs.current.last.date := by
  obtain ⟨m, hm, -, hdate⟩ := (fragments_eq_some hsorted hfs).exists_message
    (Fragments.mem_stamps.mpr ⟨_, Fragments.current_mem, Fragment.last_mem⟩)
  exact ⟨m, List.mem_of_getElem? hm, hdate⟩

/-- Whoever has sent no message has no statistics. -/
theorem filter_of_fragments_eq_none (hsorted : c.messages.Pairwise fun m m' => m.date ≤ m'.date)
    (h : processConversation c = some all) (hfs : fragments user c.messages = none) :
    all.filter (·.user = user) = [] := by
  obtain ⟨-, users, husers, h⟩ := processConversation_eq_some.mp h
  exact (filter_of_rel (processMessages_represents husers hsorted) h).1 hfs

/-- The statistics of a user are the runs of the user's fragments. -/
theorem filter_of_fragments (hc : c.Ordered) (h : processConversation c = some all)
    (hfs : fragments user c.messages = some fs) :
    fs.current.last.date + hour ≤ maxTime ∧ all.filter (·.user = user) =
      [⟨user, fs.toRuns c.hash (closingMinutes c fs.current.last.date)⟩] := by
  obtain ⟨-, users, husers, h⟩ := processConversation_eq_some.mp h
  obtain ⟨stats, runs, -, hrep, hfinish, hfilter⟩ :=
    (filter_of_rel (processMessages_represents husers hc.sorted) h).2 fs hfs
  obtain ⟨m, hm, hdate⟩ := exists_last hc.sorted hfs
  obtain ⟨hmax, rfl⟩ := finish_eq_some hrep (hdate ▸ hc.le_last m hm)
    (hdate ▸ inRange_of_processMessages husers m hm) hfinish
  exact ⟨hmax, hfilter⟩

/-- The statistics of a user in a conversation are the user's runs in it. -/
theorem convRuns_of_processConversation (user : UserId) (hc : c.Ordered)
    (h : processConversation c = some all) :
    ConvRuns user c ((all.filter (·.user = user)).flatMap (·.dataRuns)) := by
  cases hfs : fragments user c.messages with
  | none =>
    rw [filter_of_fragments_eq_none hc.sorted h hfs]
    exact .none hfs
  | some fs =>
    obtain ⟨hmax, hfilter⟩ := filter_of_fragments hc h hfs
    obtain ⟨-, users, husers, -⟩ := processConversation_eq_some.mp h
    rw [hfilter, List.flatMap_singleton]
    exact .some hfs (inRange_of_processMessages husers) hmax

end

/-- Whoever has statistics has a run. -/
theorem dataRuns_ne_nil {c : Conversation} {all : List UserStats}
    (h : processConversation c = some all) : ∀ stats ∈ all, stats.dataRuns ≠ [] := by
  obtain ⟨-, users, -, h⟩ := processConversation_eq_some.mp h
  intro stats hstats
  obtain ⟨entry, -, hentry⟩ := Result.exists_of_mem_right (Result.mapM_eq_some h) hstats
  obtain ⟨runs, hruns, hentry⟩ := Option.bind_eq_some_iff.mp hentry
  obtain rfl := Option.some_inj.mp hentry
  obtain ⟨limit, -, hruns⟩ := Option.bind_eq_some_iff.mp hruns
  obtain ⟨lastRun, -, hruns⟩ := Option.bind_eq_some_iff.mp hruns
  obtain rfl := Option.some_inj.mp hruns
  exact List.append_ne_nil_of_right_ne_nil _ (List.cons_ne_nil _ _)

/-! ### The runs of a user -/

/-- The runs of a user are appended in order. -/
theorem lookup_foldl_appendRuns (user : UserId) (all : List UserStats)
    (users : AList fun _ : UserId => List DataRun) :
    (all.foldl appendRuns users).lookup user =
      if all.filter (·.user = user) = [] then users.lookup user
      else some ((users.lookup user).getD [] ++
        (all.filter (·.user = user)).flatMap (·.dataRuns)) := by
  -- what is in `users` comes first, then the runs of the statistics to come
  induction all generalizing users with
  | nil => rfl
  | cons stats all ih =>
    rw [List.foldl_cons, ih]
    by_cases hu : stats.user = user
    · subst hu
      rw [List.filter_cons_of_pos (by simp)]
      have hlookup : (appendRuns users stats).lookup stats.user =
          some ((users.lookup stats.user).getD [] ++ stats.dataRuns) := AList.lookup_insert _
      rw [hlookup]
      split <;> simp_all
    · rw [List.filter_cons_of_neg (by simpa using hu)]
      have hlookup : (appendRuns users stats).lookup user = users.lookup user :=
        AList.lookup_insert_ne (Ne.symm hu)
      rw [hlookup]

/-- Whoever has a file has a run. -/
theorem runs_ne_nil {convs : List Conversation} {users : AList fun _ : UserId => List DataRun}
    {user : UserId} {runs : List DataRun} (h : extract convs = some users)
    (hruns : users.lookup user = some runs) : runs ≠ [] := by
  obtain ⟨all, hall, rfl⟩ := extract_eq_some h
  rw [collectUsers, lookup_foldl_appendRuns] at hruns
  split at hruns
  case isTrue => cases hruns
  case isFalse hne =>
    obtain rfl := Option.some_inj.mp hruns
    obtain ⟨stats, hstats⟩ := List.exists_mem_of_ne_nil _ hne
    obtain ⟨part, hpart, hmem⟩ := List.mem_flatten.mp (List.mem_filter.mp hstats).1
    obtain ⟨c, -, hc⟩ := Result.exists_of_mem_right (Result.mapM_eq_some hall) hpart
    rw [AList.lookup_empty, Option.getD_none, List.nil_append, ne_eq, List.flatMap_eq_nil_iff]
    exact fun hnil => dataRuns_ne_nil hc stats hmem (hnil stats hstats)

/-- **The extracted runs.** The runs of a user are those in each conversation, one conversation
after the other. -/
theorem extract_runs {convs : List Conversation}
    {users : AList fun _ : UserId => List DataRun} {user : UserId} {runs : List DataRun}
    (hordered : ∀ c ∈ convs, c.Ordered) (h : extract convs = some users)
    (hruns : users.lookup user = some runs) :
    ∃ parts, List.Forall₂ (ConvRuns user) convs parts ∧ runs = parts.flatten := by
  obtain ⟨all, hall, rfl⟩ := extract_eq_some h
  rw [collectUsers, lookup_foldl_appendRuns] at hruns
  refine ⟨all.map fun stats => (stats.filter (·.user = user)).flatMap (·.dataRuns), ?_, ?_⟩
  · rw [List.forall₂_map_right_iff]
    -- conversation by conversation
    have hboth := (List.forall₂_and_left _ _).mpr ⟨hordered, Result.mapM_eq_some hall⟩
    exact hboth.imp fun c stats hc => convRuns_of_processConversation user hc.1 hc.2
  · split at hruns
    · cases hruns
    · obtain rfl := Option.some_inj.mp hruns
      rw [AList.lookup_empty, Option.getD_none, List.nil_append, List.filter_flatten,
        List.flatMap_def, List.map_flatten, List.flatten_flatten, List.map_map, List.map_map]
      rfl

end SignalSim.SamExtractor
