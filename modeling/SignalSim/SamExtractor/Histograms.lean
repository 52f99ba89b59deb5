import Mathlib.Data.List.GetD
import SignalSim.SamExtractor.Fit

/-!
# The counters are faithful

What the runs that `process_conversation` returns for a user say of the user's messages in the
conversation: each message is counted once, in the minute of its run that it belongs to.

## Main definitions

* `CountsMessages` — what one run says
* `FaithfulRuns` — what all runs of a user in a conversation say

## Main results

* `processConversation_faithful` — the runs returned are faithful
-/

namespace SignalSim.SamExtractor

open Fragments (Separated mem_stamps stamps)

/-! ### What the runs of a user say -/

/-- How many zeros are behind the last message of a run, by the run that follows. Behind the last
message of all there is an hour, or less if the conversation ends before. -/
def zerosBehind (c : Conversation) (user : UserId) : Option DataRun → ℕ
  | some _ => 60
  | none => (stampsOf user 0 c.messages).getLast?.elim 0 fun s => closingMinutes c s.date

/-- The messages of the user that a run counts in a minute: those up to the next run whose
distance from the first one, in whole minutes, it is. -/
def messagesIn (c : Conversation) (user : UserId) (run : DataRun) (next : Option DataRun)
    (firstDate : ℤ) (j : ℕ) : List Stamp :=
  (stampsOf user 0 c.messages).filter fun s =>
    run.firstMessage ≤ s.index ∧ next.all (s.index < ·.firstMessage) ∧
      minutesAfter firstDate s.date = j

/-- What a run says of the user's messages, given the run that follows it. -/
structure CountsMessages (c : Conversation) (user : UserId) (run : DataRun)
    (next : Option DataRun) : Prop where
  padded : ∃ body, run.minuteCounters =
      List.replicate 60 0 ++ body ++ List.replicate (zerosBehind c user next) 0 ∧
    (∃ x, body.head? = some x ∧ 0 < x) ∧ ∃ x, body.getLast? = some x ∧ 0 < x
  counted : ∃ m, c.messages[run.firstMessage]? = some m ∧ m.user = user ∧
    (∀ j, (run.minuteCounters.getD (60 + j) 0).toNat =
      (messagesIn c user run next m.date j).length) ∧
    -- the run covers the time from an hour before its first message on
    ∀ run' m', next = some run' → c.messages[run'.firstMessage]? = some m' →
      m.date - hour + run.minuteCounters.length * minute ≤ m'.date - hour

/-- What the runs of a user in a conversation say. -/
structure FaithfulRuns (c : Conversation) (user : UserId) (runs : List DataRun) : Prop where
  total : ((runs.flatMap (·.minuteCounters)).map UInt16.toNat).sum =
    (c.messages.filter (·.user = user)).length
  increasing : runs.Pairwise fun run run' => run.firstMessage < run'.firstMessage
  counts : ∀ before run behind, runs = before ++ run :: behind →
    CountsMessages c user run behind.head?

/-! ### One fragment -/

namespace Fragment

variable {f g : Fragment} {s : Stamp} {hash : Int32} {j k : ℕ}

/-- The counters of a fragment that is not too long have not wrapped around. -/
theorem count_minutes_lt (hlen : f.stamps.length < UInt16.size) :
    f.minutes.count j < UInt16.size := by
  apply Nat.lt_of_le_of_lt List.count_le_length
  rwa [minutes, List.length_map]

theorem Sorted.minutes_lt (h : f.Sorted) : ∀ m ∈ f.minutes, m < f.size := by
  intro m hm
  obtain ⟨s, hs, rfl⟩ := List.mem_map.mp hm
  exact h.lt_size hs

theorem count_minutes : f.minutes.count j =
    (f.stamps.filter fun s => minutesAfter f.head.date s.date = j).length := by
  rw [minutes, List.count_eq_countP, List.countP_map, List.countP_eq_length_filter]
  congr 2

/-- The counter of a minute of the run. -/
theorem Sorted.counter_toRun (h : f.Sorted) (hlen : f.stamps.length < UInt16.size) :
    ((f.toRun hash k).minuteCounters.getD (60 + j) 0).toNat = f.minutes.count j := by
  have hsixty : (List.replicate 60 (0 : UInt16)).length = 60 := List.length_replicate
  rw [toRun, counters, List.append_assoc, List.getD_append_right _ _ _ _ (by omega), hsixty,
    Nat.add_sub_cancel_left]
  by_cases hj : j < f.size
  · rw [List.getD_append _ _ _ _ (by rwa [length_body]), List.getD_eq_getElem?_getD, body,
      getElem?_histogram hj, Option.getD_some, toNat_ofNat_eq_iff.mpr (count_minutes_lt hlen)]
  · -- no message is that far from the first one
    have hnone : f.minutes.count j = 0 :=
      List.count_eq_zero.mpr fun hmem => hj (h.minutes_lt j hmem)
    rw [List.getD_append_right _ _ _ _ (by rw [length_body]; omega), hnone,
      List.getD_eq_getElem?_getD, List.getElem?_replicate]
    split <;> rfl

end Fragment

/-! ### All fragments -/

namespace Fragments

variable {fs : Fragments} {hash : Int32} {n : ℕ} {user : UserId} {c : Conversation}

/-- A run is that of a fragment, and the run behind it is that of the fragment behind it. -/
theorem toRuns_eq_append {before behind : List DataRun} {run : DataRun}
    (h : fs.toRuns hash n = before ++ run :: behind) :
    ∃ fs₁ f fs₂, fs.all = fs₁ ++ f :: fs₂ ∧ run = f.toRun hash (fs₂.head?.elim n fun _ => 60) ∧
      behind.head?.map (·.firstMessage) = fs₂.head?.map (·.head.index) := by
  obtain ⟨closed, current⟩ := fs
  simp only [toRuns, all] at h ⊢
  induction closed generalizing before with
  | nil =>
    -- the current fragment is the only one
    obtain ⟨rfl, hrun⟩ | ⟨tail, rfl, hnil⟩ := List.cons_eq_append_iff.mp h
    · obtain ⟨rfl, rfl⟩ := List.cons.inj hrun
      exact ⟨[], current, [], rfl, rfl, rfl⟩
    · cases tail <;> cases hnil
  | cons g gs ih =>
    rcases List.cons_eq_append_iff.mp h with ⟨rfl, hrun⟩ | ⟨tail, rfl, htail⟩
    · obtain ⟨rfl, rfl⟩ := List.cons.inj hrun
      refine ⟨[], g, gs ++ [current], rfl, ?_, ?_⟩ <;> cases gs <;> rfl
    · obtain ⟨fs₁, f, fs₂, hall, hrest⟩ := ih htail
      exact ⟨g :: fs₁, f, fs₂, by rw [List.cons_append, hall]; rfl, hrest⟩

/-- The messages of a fragment are those from its first one up to the next fragment. -/
theorem filter_stamps {fs₁ fs₂ : List Fragment} {f : Fragment}
    (hindex : fs.stamps.Pairwise fun s t => s.index < t.index)
    (hall : fs.all = fs₁ ++ f :: fs₂) (p : Stamp → Bool) :
    (fs.stamps.filter fun s => decide (f.head.index ≤ s.index) &&
      ((fs₂.head?.map (·.head.index)).all (s.index < ·) && p s)) = f.stamps.filter p := by
  have hstamps : fs.stamps = fs₁.flatMap Fragment.stamps ++
      (f.stamps ++ fs₂.flatMap Fragment.stamps) := by
    rw [stamps, hall, List.flatMap_append, List.flatMap_cons]
  rw [hstamps] at hindex ⊢
  obtain ⟨-, hrest, hbefore⟩ := List.pairwise_append.mp hindex
  obtain ⟨hf, hbehind, hnext⟩ := List.pairwise_append.mp hrest
  rw [List.filter_append, List.filter_append]
  -- those before the fragment have smaller indices
  have hnone : (fs₁.flatMap Fragment.stamps).filter (fun s => decide (f.head.index ≤ s.index) &&
      ((fs₂.head?.map (·.head.index)).all (s.index < ·) && p s)) = [] := by
    apply List.filter_eq_nil_iff.mpr
    intro s hs
    have hlt := hbefore s hs f.head (List.mem_append_left _ Fragment.head_mem)
    simp [Nat.not_le_of_lt hlt]
  -- those of the next fragments do not have smaller indices than the first of them
  have hnone' : (fs₂.flatMap Fragment.stamps).filter (fun s => decide (f.head.index ≤ s.index) &&
      ((fs₂.head?.map (·.head.index)).all (s.index < ·) && p s)) = [] := by
    apply List.filter_eq_nil_iff.mpr
    intro s hs
    cases fs₂ with
    | nil => cases hs
    | cons g gs =>
      rw [List.flatMap_cons, Fragment.stamps, List.cons_append] at hs hbehind
      have hle : g.head.index ≤ s.index := by
        rcases List.mem_cons.mp hs with rfl | hs
        · exact le_rfl
        · exact ((List.pairwise_cons.mp hbehind).1 s hs).le
      simp [Nat.not_lt_of_le hle]
  rw [hnone, hnone', List.nil_append, List.append_nil]
  apply List.filter_congr
  intro s hs
  have hfirst : f.head.index ≤ s.index := by
    rcases List.mem_cons.mp hs with rfl | hs
    · exact le_rfl
    · exact ((List.pairwise_cons.mp hf).1 s hs).le
  have hlt : (fs₂.head?.map (·.head.index)).all (s.index < ·) = true := by
    cases fs₂ with
    | nil => rfl
    | cons g gs =>
      have hg : g.head ∈ (g :: gs).flatMap Fragment.stamps :=
        List.mem_flatMap.mpr ⟨g, List.mem_cons_self, Fragment.head_mem⟩
      simpa using hnext s hs g.head hg
  simp [hfirst, hlt]

theorem getLast?_stamps : fs.stamps.getLast? = some fs.current.last := by
  have hlast : fs.current.stamps.getLast? = some fs.current.last :=
    List.getLast?_eq_some_getLast _
  rw [stamps, all, List.flatMap_append, List.flatMap_singleton, List.getLast?_append, hlast,
    Option.some_or]

/-- The counters of the runs add up to the number of messages. -/
theorem sum_toRuns (h : ∀ f ∈ fs.all, f.Sorted ∧ f.stamps.length < UInt16.size) :
    (((fs.toRuns hash n).flatMap (·.minuteCounters)).map UInt16.toNat).sum = fs.stamps.length := by
  rw [← placedRuns_eq_toRuns fun f hf => (h f hf).1, sum_counters]
  exact total_placedRuns_iff.mpr fun f hf k => Fragment.count_minutes_lt (h f hf).2

theorem map_firstMessage_toRuns :
    (fs.toRuns hash n).map (·.firstMessage) = fs.all.map (·.head.index) := by
  simp [toRuns, all, Fragment.toRun]

/-- The run of a fragment ends before that of the next one starts. -/
theorem Separated.end_le {f g : Fragment} (h : Separated f g) :
    f.head.date - hour + (f.toRun hash 60).minuteCounters.length * minute ≤ g.head.date - hour := by
  have hlt := h g.head Fragment.head_mem
  have hle : f.head.date ≤ g.head.date := by
    have hafter := h.lt Fragment.head_mem
    have hpos : (0 : ℤ) ≤ f.size * minute := Int.mul_nonneg (Int.natCast_nonneg _) minute_pos.le
    omega
  have hfar := (le_minutesAfter_iff hle).mp hlt.le
  have hlength : (f.toRun hash 60).minuteCounters.length = f.size + 120 := by
    rw [Fragment.toRun, List.length_append, Fragment.length_counters, List.length_replicate]
    omega
  rw [hlength]
  omega

section

variable (hfs : FragmentsOf user c.messages fs)

include hfs

/-- The first message of a fragment is one of the user's. -/
theorem exists_head_message {f : Fragment} (hf : f ∈ fs.all) :
    ∃ m, c.messages[f.head.index]? = some m ∧ m.user = user ∧ m.date = f.head.date :=
  hfs.exists_message (mem_stamps.mpr ⟨f, hf, Fragment.head_mem⟩)

theorem zerosBehind_eq {fs₂ : List Fragment} {next : Option DataRun}
    (hnext : fs₂.head?.map (·.head.index) = next.map (·.firstMessage)) :
    zerosBehind c user next =
      fs₂.head?.elim (closingMinutes c fs.current.last.date) fun _ => 60 := by
  cases next with
  | none =>
    rw [Option.map_none, Option.map_eq_none_iff] at hnext
    rw [hnext, zerosBehind, ← hfs.stamps_eq, getLast?_stamps]
    rfl
  | some run' =>
    rw [Option.map_some, Option.map_eq_some_iff] at hnext
    obtain ⟨g, hg, -⟩ := hnext
    rw [hg]
    rfl

/-- What the run of one fragment says. -/
theorem countsMessages {fs₁ fs₂ : List Fragment} {f : Fragment} (hall : fs.all = fs₁ ++ f :: fs₂)
    (hlen : f.stamps.length < UInt16.size) {next : Option DataRun}
    (hnext : fs₂.head?.map (·.head.index) = next.map (·.firstMessage)) :
    CountsMessages c user (f.toRun c.hash (fs₂.head?.elim (closingMinutes c fs.current.last.date)
      fun _ => 60)) next := by
  have hf : f ∈ fs.all := hall ▸ List.mem_append_right _ List.mem_cons_self
  have hsorted := hfs.sorted hf
  have hseparated : ∀ g ∈ fs₂, Separated f g := by
    have hall' := hfs.separated
    rw [hall] at hall'
    exact (List.pairwise_cons.mp (List.pairwise_append.mp hall').2.1).1
  obtain ⟨m, hm, hu, hd⟩ := exists_head_message hfs hf
  refine ⟨⟨f.body, ?_, ?_, ?_⟩, m, hm, hu, ?_, ?_⟩
  · rw [zerosBehind_eq hfs hnext]
    rfl
  · have hfirst := hsorted.counted hlen Fragment.head_mem
    rwa [minutesAfter_self, ← List.head?_eq_getElem?] at hfirst
  · have hlast := hsorted.counted hlen Fragment.last_mem
    rwa [List.getLast?_eq_getElem?, Fragment.length_body]
  · intro j
    rw [hsorted.counter_toRun hlen, Fragment.count_minutes, hd, messagesIn, ← hfs.stamps_eq,
      ← filter_stamps hfs.index_lt hall]
    congr 2
    funext s
    simp only [Bool.decide_and, Bool.decide_eq_true, hnext, Option.all_map]
    rfl
  · intro run' m' hb hm'
    rw [hb, Option.map_some, Option.map_eq_some_iff] at hnext
    obtain ⟨g, hg, hgfirst⟩ := hnext
    have hgmem : g ∈ fs₂ := List.mem_of_mem_head? hg
    have hgall : g ∈ fs.all :=
      hall ▸ List.mem_append_right _ (List.mem_cons_of_mem _ hgmem)
    obtain ⟨m'', hm'', -, hd'⟩ := exists_head_message hfs hgall
    obtain rfl : m'' = m' := Option.some_inj.mp (hm''.symm.trans (hgfirst ▸ hm'))
    rw [hd, hd', hg]
    exact (hseparated g hgmem).end_le

end

/-- What the runs of the fragments say. -/
theorem faithful (hc : c.Ordered)
    (hfew : (c.messages.filter (·.user = user)).length < UInt16.size)
    (hfs : fragments user c.messages = some fs) :
    FaithfulRuns c user (fs.toRuns c.hash (closingMinutes c fs.current.last.date)) := by
  have hof := fragments_eq_some hc.sorted hfs
  have hlen : ∀ f ∈ fs.all, f.stamps.length < UInt16.size :=
    fun f hf => Nat.lt_of_le_of_lt (hof.length_le hf) hfew
  refine ⟨?_, ?_, ?_⟩
  · rw [sum_toRuns fun f hf => ⟨hof.sorted hf, hlen f hf⟩, hof.stamps_eq, length_stampsOf]
  · apply List.pairwise_map.mp
    rw [map_firstMessage_toRuns, List.pairwise_map]
    exact (List.pairwise_flatMap.mp hof.index_lt).2.imp
      fun h => h _ Fragment.head_mem _ Fragment.head_mem
  · intro before run behind hruns
    obtain ⟨fs₁, f, fs₂, hall, rfl, hnext⟩ := toRuns_eq_append hruns
    have hf : f ∈ fs.all := hall ▸ List.mem_append_right _ List.mem_cons_self
    exact countsMessages hof hall (hlen f hf) hnext.symm

end Fragments

/-! ### The program -/

section

variable {c : Conversation} {fs : Fragments} {m : Message}

/-- The dates that can be moved an hour either way. -/
def InRangeBoth (date : ℤ) : Prop := minTime ≤ date - hour ∧ date + hour ≤ maxTime

theorem InRangeBoth.inRange {date : ℤ} (h : InRangeBoth date) : InRange date := by
  have hle : date - hour ≤ date + hour := by
    have hpos : 0 ≤ hour := by decide
    omega
  exact ⟨h.1, Int.le_trans hle h.2⟩

theorem foldl_addTo_ne_none {ss : List Stamp} :
    ss.foldl Fragments.addTo (some fs) ≠ none := by
  induction ss generalizing fs with
  | nil => exact Option.some_ne_none fs
  | cons s ss ih => exact ih

theorem fragments_ne_none (hm : m ∈ c.messages) : fragments m.user c.messages ≠ none := by
  obtain ⟨j, hj⟩ := List.mem_iff_getElem?.mp hm
  have hmem : (⟨j, m.date⟩ : Stamp) ∈ stampsOf m.user 0 c.messages :=
    mem_stampsOf.mpr ⟨j, m, hj, (Nat.zero_add j).symm, rfl, rfl⟩
  unfold fragments
  cases hstamps : stampsOf m.user 0 c.messages with
  | nil =>
    rw [hstamps] at hmem
    cases hmem
  | cons s ss => exact foldl_addTo_ne_none

/-- The code does not panic if all dates can be moved an hour either way and the number of users
is one that a hash map has room for. -/
theorem processConversation_isSome (hc : c.Ordered) (hcount : c.userCount.toNat ≤ maxEntries)
    (hrange : ∀ m ∈ c.messages, InRangeBoth m.date) : (processConversation c).isSome := by
  obtain ⟨users, husers, hplaced⟩ :=
    exists_loop_of_sorted hc.sorted fun m hm => (hrange m hm).inRange
  have hall : ∃ all, users.entries.mapM (finishUser c.dateLastMessage) = some all := by
    apply Result.exists_mapM_eq_some
    rintro ⟨user, stats⟩ hentry
    have hlookup : users.lookup user = some stats := AList.mem_lookup_iff.mpr hentry
    have hrel := hplaced user
    rw [hlookup] at hrel
    obtain ⟨fs, hfs, hp⟩ := Result.exists_of_rel hrel
    obtain ⟨m, hm, hdate⟩ := exists_last hc.sorted hfs
    have hle := hc.le_last m hm
    have hminute := minute_pos
    have hclosing : 0 ≤ Fragments.closing fs.current.last.date c.dateLastMessage :=
      Fragments.closing_nonneg_iff.mpr (by omega)
    have hmin : minTime ≤ fs.current.last.date + hour := by
      have hpos : 0 ≤ hour := by decide
      have hback := (hrange m hm).1
      omega
    rw [finishUser, Fragments.finish_placed hp hmin (hdate ▸ (hrange m hm).2) hclosing]
    rfl
  obtain ⟨all, hall⟩ := hall
  exact Option.isSome_iff_exists.mpr
    ⟨all, processConversation_eq_some.mpr ⟨hcount, users, husers, hall⟩⟩

end

/-- **Faithful counters.** On a conversation in order, whose users send few enough messages, the
code returns if all dates can be moved an hour either way and a hash map has room for the number of
users; and if it returns, each user has one entry, whose runs count each of the user's messages in
its minute. -/
theorem processConversation_faithful {c : Conversation} (hc : c.Ordered)
    (hfew : ∀ m ∈ c.messages, (c.messages.filter (·.user = m.user)).length < UInt16.size) :
    (c.userCount.toNat ≤ maxEntries → (∀ m ∈ c.messages, InRangeBoth m.date) →
      (processConversation c).isSome) ∧
    ∀ all, processConversation c = some all → ∀ m ∈ c.messages, ∃ runs,
      all.filter (·.user = m.user) = [⟨m.user, runs⟩] ∧ FaithfulRuns c m.user runs := by
  refine ⟨fun hcount hrange => processConversation_isSome hc hcount hrange, ?_⟩
  intro all hall m hm
  obtain ⟨fs, hfs⟩ := Option.ne_none_iff_exists'.mp (fragments_ne_none hm)
  exact ⟨_, (filter_of_fragments hc hall hfs).2, fs.faithful hc (hfew m hm) hfs⟩

/-- A conversation of two users, one of whom is silent for four hours. -/
def chat : Conversation := ⟨1, 14400000000000, 2, chatMessages, length_chatMessages_le⟩

theorem processConversation_faithful_chat :
    (processConversation chat).map (·.filter (·.user = 7)) = some [⟨7,
        [⟨1, 0, List.replicate 60 0 ++ [1, 1] ++ List.replicate 60 0⟩,
          ⟨1, 3, List.replicate 60 0 ++ [1]⟩]⟩] ∧
      FaithfulRuns chat 7 [⟨1, 0, List.replicate 60 0 ++ [1, 1] ++ List.replicate 60 0⟩,
        ⟨1, 3, List.replicate 60 0 ++ [1]⟩] := by
  have hc : chat.Ordered := ⟨by decide, by decide⟩
  have hresult : (processConversation chat).map (·.filter (·.user = 7)) = some [⟨7,
      [⟨1, 0, List.replicate 60 0 ++ [1, 1] ++ List.replicate 60 0⟩,
        ⟨1, 3, List.replicate 60 0 ++ [1]⟩]⟩] := by decide +kernel
  obtain ⟨all, hall, hfilter⟩ := Option.map_eq_some_iff.mp hresult
  obtain ⟨runs, hruns, hfaithful⟩ :=
    (processConversation_faithful hc (by decide)).2 all hall ⟨0, 7⟩ (by decide)
  rw [hfilter] at hruns
  obtain ⟨⟨-, rfl⟩, -⟩ := List.cons.inj hruns
  exact ⟨hresult, hfaithful⟩

end SignalSim.SamExtractor
