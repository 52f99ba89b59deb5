import SignalSim.SamExtractor.Passes
import SignalSim.SamExtractor.Runs

/-!
# Both programs together

`extract` counts minutes from an hour before the first message of a run and pads the counters;
the program that labels the messages trims the counters and counts minutes from the first
message. It does not panic on what is extracted.

## Main definitions

* `RunOf` — the run is that of a fragment of the user's messages in a conversation

## Main results

* `extract_process_fit` — the file of every user is read back and all messages are labelled
-/

namespace SignalSim.SamExtractor

open Fragments (Separated mem_stamps)

/-! ### Counters -/

theorem counter_pos {n : ℕ} (h : 0 < n) (hn : n < UInt16.size) : 0 < UInt16.ofNat n := by
  rw [UInt16.lt_iff_toNat_lt, UInt16.toNat_ofNat_of_lt' hn]
  exact h

namespace Fragment

variable {f g : Fragment} {s : Stamp}

/-- The minute of every message has a counter, which is not zero. -/
theorem Sorted.counted (h : f.Sorted) (hlen : f.stamps.length < UInt16.size) (hs : s ∈ f.stamps) :
    ∃ c, f.body[minutesAfter f.head.date s.date]? = some c ∧ 0 < c := by
  -- the count is not zero, and too small to wrap around to zero
  refine ⟨_, getElem?_histogram (h.lt_size hs), ?_⟩
  apply counter_pos
  · exact List.count_pos_iff.mpr (List.mem_map.mpr ⟨s, hs, rfl⟩)
  · apply Nat.lt_of_le_of_lt List.count_le_length
    rw [minutes, List.length_map]
    exact hlen

/-- The zeros behind the last message are trimmed, and no others but those of the first hour. -/
theorem Sorted.trimZeros_toRun (h : f.Sorted) (hlen : f.stamps.length < UInt16.size) {hash : Int32}
    {k : ℕ} (hk : k ≤ 60) : trimZeros (f.toRun hash k).minuteCounters = some f.body := by
  obtain ⟨c, hc, hpos⟩ := h.counted hlen last_mem
  apply trimZeros_append _ hpos hk
  rw [List.getLast?_eq_getElem?, length_body]
  exact hc

end Fragment

/-! ### The run of a fragment -/

/-- The run is that of a fragment of the user's messages in the conversation, to which all of the
user's messages in its time belong. -/
structure RunOf (user : UserId) (c : Conversation) (f : Fragment) (run : DataRun) : Prop where
  eq_toRun : ∃ k ≤ 60, run = f.toRun c.hash k
  sorted : f.Sorted
  length_lt : f.stamps.length < UInt16.size
  sent : ∀ s ∈ f.stamps, ∃ m, c.messages[s.index]? = some m ∧ m.user = user ∧ m.date = s.date
  all_sent : ∀ j m, f.head.index ≤ j → c.messages[j]? = some m → m.user = user →
    m.date ≤ f.head.date + f.size * minute → ∃ s ∈ f.stamps, s.date = m.date
  minTime_le : minTime ≤ f.head.date - hour
  le_maxTime : f.last.date + hour ≤ maxTime

section

variable {user : UserId} {c : Conversation} {fs : Fragments} {f g : Fragment} {s : Stamp}

/-- Later fragments are after all minutes of a fragment. -/
theorem Fragments.Separated.lt (h : Separated f g) (hs : s ∈ g.stamps) :
    f.head.date + f.size * minute < s.date := by
  have hfar := h s hs
  -- a message before the fragment would be in minute 0
  have hle : f.head.date ≤ s.date := by
    rcases Int.le_total f.head.date s.date with hle | hle
    · exact hle
    · have hzero : minutesAfter f.head.date s.date ≤ minutesAfter f.head.date f.head.date :=
        minutesAfter_mono hle
      rw [minutesAfter_self] at hzero
      omega
  have hsucc : f.size + 1 ≤ minutesAfter f.head.date s.date := by omega
  have hdate := (le_minutesAfter_iff hle).mp hsucc
  rw [Int.natCast_succ, Int.add_mul, Int.one_mul] at hdate
  have hpos := minute_pos
  omega

theorem runOf_of_mem {k : ℕ} (hc : c.Ordered)
    (hfew : (c.messages.filter (·.user = user)).length < UInt16.size)
    (hfs : fragments user c.messages = some fs) (hrange : ∀ m ∈ c.messages, InRange m.date)
    (hmax : fs.current.last.date + hour ≤ maxTime) (hf : f ∈ fs.all) (hk : k ≤ 60) :
    RunOf user c f (f.toRun c.hash k) := by
  have hof := fragments_eq_some hc.sorted hfs
  -- every stamp is that of a message at its index
  have hsent : ∀ s ∈ f.stamps, ∃ m, c.messages[s.index]? = some m ∧ m.user = user ∧
      m.date = s.date := fun s hs => hof.exists_message (mem_stamps.mpr ⟨f, hf, hs⟩)
  have hlen := Nat.lt_of_le_of_lt (hof.length_le hf) hfew
  refine ⟨⟨k, hk, rfl⟩, hof.sorted hf, hlen, hsent, ?_, ?_, ?_⟩
  · intro j m hj hm hu hd
    have hmem : (⟨j, m.date⟩ : Stamp) ∈ fs.stamps :=
      hof.stamps_eq ▸ mem_stampsOf.mpr ⟨j, m, hm, (Nat.zero_add j).symm, hu, rfl⟩
    obtain ⟨g, hg, hs⟩ := mem_stamps.mp hmem
    -- The message is in some fragment: not in a later one, whose messages are too late, nor in
    -- an earlier one, whose messages have smaller indices.
    have hbefore := hof.separated.and (List.pairwise_flatMap.mp hof.index_lt).2
    rcases Fragments.eq_or_before hbefore hf hg with rfl | ⟨hlater, -⟩ | ⟨-, hearlier⟩
    · exact ⟨_, hs, rfl⟩
    · exact absurd hd (Int.not_le.mpr (hlater.lt hs))
    · exact absurd (hearlier _ hs _ Fragment.head_mem) (Nat.not_lt_of_le hj)
  · obtain ⟨m, hm, -, hd⟩ := hsent f.head Fragment.head_mem
    rw [← hd]
    exact (hrange m (List.mem_of_getElem? hm)).1
  · refine Int.le_trans (Int.add_le_add_right ?_ _) hmax
    rcases List.mem_append.mp hf with hclosed | hcurrent
    -- a finished fragment ends before the current one
    · have hall := (List.pairwise_append.mp (List.pairwise_flatMap.mp hof.date_le).2).2.2
      exact hall f hclosed fs.current (List.mem_singleton_self _) _ Fragment.last_mem _
        Fragment.last_mem
    · rw [List.mem_singleton.mp hcurrent]

/-- The runs of a user in a conversation are those of fragments that are apart from each other. -/
theorem runOf_of_convRuns {runs : List DataRun} (hc : c.Ordered)
    (hfew : (c.messages.filter (·.user = user)).length < UInt16.size) (h : ConvRuns user c runs) :
    ∃ parts, List.Forall₂ (RunOf user c) parts runs ∧ parts.Pairwise Separated := by
  cases h with
  | none => exact ⟨[], .nil, .nil⟩
  | @some fs hfs hrange hmax =>
    refine ⟨fs.all, ?_, (fragments_eq_some hc.sorted hfs).separated⟩
    apply List.rel_append
    · rw [List.forall₂_map_right_iff, List.forall₂_same]
      intro f hf
      exact runOf_of_mem hc hfew hfs hrange hmax (List.mem_append_left _ hf) le_rfl
    · refine .cons ?_ .nil
      exact runOf_of_mem hc hfew hfs hrange hmax Fragments.current_mem (closingMinutes_le _ _)

end

/-! ### What is known of the run -/

section

variable {user : UserId} {c : Conversation} {f g : Fragment} {run : DataRun} {i : ℕ}
  {states : List State} {conversations : AList fun _ : Int32 => Conversation} {view : RunView}
  {first : Message}

theorem RunOf.trimZeros_eq (h : RunOf user c f run) :
    trimZeros run.minuteCounters = some f.body := by
  obtain ⟨k, hk, rfl⟩ := h.eq_toRun
  exact h.sorted.trimZeros_toRun h.length_lt hk

theorem ViewOf.length_states (hv : ViewOf states conversations i run view c first) :
    view.states.length = view.minutes.length := by
  obtain ⟨⟨-, hle⟩, hslice⟩ := slice_eq_some.mp hv.slice_eq
  rw [← hslice, List.length_drop, List.length_take]
  omega

namespace RunOf

theorem minTime_le_head (h : RunOf user c f run) : minTime ≤ f.head.date :=
  Int.le_trans h.minTime_le (Int.sub_le_self _ (by decide))

/-- The last minute ends less than an hour after the last message. -/
theorem end_le_maxTime (h : RunOf user c f run) : f.head.date + f.size * minute ≤ maxTime := by
  -- the last minute begins no later than the last message is sent
  have hlast := (le_minutesAfter_iff (h.sorted.head_le Fragment.last_mem)).mp le_rfl
  have hminute : minute ≤ hour := by decide
  have hmax := h.le_maxTime
  rw [Fragment.size, Int.natCast_succ, Int.add_mul, Int.one_mul]
  omega

theorem lookup_eq (h : RunOf user c f run) (hlookup : conversations.lookup c.hash = some c) :
    conversations.lookup run.conversationId = some c := by
  obtain ⟨k, -, rfl⟩ := h.eq_toRun
  exact hlookup

theorem firstMessage_eq (h : RunOf user c f run) : run.firstMessage = f.head.index := by
  obtain ⟨k, -, rfl⟩ := h.eq_toRun
  rfl

/-- The slices of counters and states, the conversation and the last date are all there. -/
theorem viewDataRun_isSome (h : RunOf user c f run) (hlookup : conversations.lookup c.hash = some c)
    (hfit : i + run.minuteCounters.length ≤ states.length) :
    (viewDataRun states conversations i run).isSome := by
  obtain ⟨m, hm, -, hd⟩ := h.sent f.head Fragment.head_mem
  rw [← h.firstMessage_eq] at hm
  have hlen := length_trimZeros h.trimZeros_eq
  obtain ⟨labels, hlabels⟩ : ∃ labels,
      slice states (i + 60) (i + 60 + f.body.length) = some labels := by
    apply Option.isSome_iff_exists.mp
    exact slice_isSome.mpr ⟨Nat.le_add_right _ _, by omega⟩
  -- as many states as counters, so the final date is that of the fragment
  have hsize : labels.length = f.size := by
    obtain ⟨⟨-, hle⟩, hslice⟩ := slice_eq_some.mp hlabels
    rw [Fragment.length_body] at hslice hle
    rw [← hslice, List.length_drop, List.length_take]
    omega
  have hfinal : addTime m.date (labels.length * minute) =
      some (f.head.date + f.size * minute) := by
    rw [hsize, hd, addTime_eq_some]
    refine ⟨⟨?_, h.end_le_maxTime⟩, rfl⟩
    have hnonneg : 0 ≤ f.size * minute := Int.mul_nonneg (Int.natCast_nonneg _) minute_pos.le
    exact Int.le_trans h.minTime_le_head (Int.le_add_of_nonneg_right hnonneg)
  unfold viewDataRun
  simp only [h.trimZeros_eq, hlabels, h.lookup_eq hlookup, hm, hfinal, Option.bind_eq_bind,
    Option.bind_some]
  rfl

theorem minutes_eq (h : RunOf user c f run) (hv : ViewOf states conversations i run view c first) :
    view.minutes = f.body :=
  Option.some_inj.mp (hv.trim_eq.symm.trans h.trimZeros_eq)

theorem exists_viewOf (h : RunOf user c f run) (hlookup : conversations.lookup c.hash = some c)
    (hview : viewDataRun states conversations i run = some view) :
    ∃ first, ViewOf states conversations i run view c first := by
  obtain ⟨c', first, hv⟩ := viewDataRun_eq_some hview
  obtain rfl : c' = c := Option.some_inj.mp (hv.lookup_eq.symm.trans (h.lookup_eq hlookup))
  exact ⟨first, hv⟩

/-- The dates of the run are those of the fragment. -/
theorem dates_eq (h : RunOf user c f run) (hv : ViewOf states conversations i run view c first) :
    view.firstMsgDate = f.head.date ∧ view.finalMsgDate = f.head.date + f.size * minute := by
  obtain ⟨m, hm, -, hd⟩ := h.sent f.head Fragment.head_mem
  rw [← h.firstMessage_eq] at hm
  have hfirst : first = m := Option.some_inj.mp (hv.first_eq.symm.trans hm)
  have hfinal := (addTime_eq_some.mp hv.finalMsgDate_eq).2
  rw [hv.length_states, h.minutes_eq hv, Fragment.length_body, hfirst, hd] at hfinal
  exact ⟨hv.firstMsgDate_eq.trans (hfirst ▸ hd), hfinal.symm⟩

/-- The messages of the user that are in the time of the run are counted in it. -/
theorem fits (h : RunOf user c f run) (hc : c.Ordered)
    (hv : ViewOf states conversations i run view c first) : view.Fits user := by
  obtain ⟨hfirst, hfinal⟩ := h.dates_eq hv
  have hindex : view.firstMessage = f.head.index := hv.firstMessage_eq.trans h.firstMessage_eq
  have hdate : ∀ j m, view.firstMessage ≤ j → view.messages[j]? = some m →
      view.firstMsgDate ≤ m.date := by
    intro j m hj hm
    rw [hv.messages_eq] at hm
    rw [hv.firstMsgDate_eq]
    exact date_le_of_sorted hc.sorted (hv.firstMessage_eq ▸ hj) hv.first_eq hm
  refine ⟨⟨hfirst ▸ h.minTime_le_head, hfinal ▸ h.end_le_maxTime, hv.messages_eq ▸ hc.sorted,
    hdate⟩, hv.length_states, ?_⟩
  intro j m hj hm hle hu
  -- the minute counted from the first message is that of the histogram
  have hminute : view.minuteIdx m = minutesAfter f.head.date m.date := by
    rw [RunView.minuteIdx, hfirst]
    apply asUsize_wholeMinutes (hfirst ▸ hdate j m hj hm) h.minTime_le_head
    rw [hfinal] at hle
    exact Int.le_trans hle (Int.le_trans h.end_le_maxTime (by decide))
  rw [hv.messages_eq] at hm
  obtain ⟨s, hs, hsd⟩ := h.all_sent j m (hindex ▸ hj) hm hu (hfinal ▸ hle)
  rw [hminute, h.minutes_eq hv, ← hsd]
  exact h.sorted.counted h.length_lt hs

/-- What a pass takes out of the count is in the conversation, in the time of the run. -/
theorem mem_activeReceived (h : RunOf user c f run) (hc : c.Ordered)
    (hlookup : conversations.lookup c.hash = some c) {p : Int32 × ℕ}
    (hp : p ∈ activeReceived user states conversations i run) :
    p.1 = c.hash ∧ ∃ m, c.messages[p.2]? = some m ∧ f.head.date ≤ m.date ∧
      m.date ≤ f.head.date + f.size * minute := by
  obtain ⟨id, j⟩ := p
  cases hview : viewDataRun states conversations i run with
  | none =>
    rw [activeReceived, hview] at hp
    cases hp
  | some view =>
    obtain ⟨first, hv⟩ := h.exists_viewOf hlookup hview
    have hfits := h.fits hc hv
    obtain ⟨hfirst, hfinal⟩ := h.dates_eq hv
    obtain ⟨rfl, hj, -, m, hm, hle, -⟩ := (mem_activeReceived_iff hview hfits.sorted).mp hp
    refine ⟨?_, m, hv.messages_eq ▸ hm, hfirst ▸ hfits.le_date j m hj hm, hfinal ▸ hle⟩
    obtain ⟨k, -, rfl⟩ := h.eq_toRun
    rfl

end RunOf

end

/-! ### The runs of a user -/

/-- No message is in the time of both runs. -/
def Apart (user : UserId) (conversations : AList fun _ : Int32 => Conversation)
    (states : List State) (run run' : DataRun) : Prop :=
  ∀ i i', (activeReceived user states conversations i run).Disjoint
    (activeReceived user states conversations i' run')

section

variable {user : UserId} {c d : Conversation} {f g : Fragment} {run run' : DataRun}
  {states : List State} {conversations : AList fun _ : Int32 => Conversation}

theorem apart_of_separated (hf : RunOf user c f run) (hg : RunOf user c g run') (hc : c.Ordered)
    (hlookup : conversations.lookup c.hash = some c) (h : Separated f g) :
    Apart user conversations states run run' := by
  intro i i'
  apply List.disjoint_left.mpr
  intro p hp hp'
  obtain ⟨-, m, hm, -, hle⟩ := hf.mem_activeReceived hc hlookup hp
  obtain ⟨-, m', hm', hge, -⟩ := hg.mem_activeReceived hc hlookup hp'
  obtain rfl : m = m' := Option.some_inj.mp (hm.symm.trans hm')
  exact absurd (Int.le_trans hge hle) (Int.not_le.mpr (h.lt Fragment.head_mem))

theorem apart_of_hash_ne (hf : RunOf user c f run) (hg : RunOf user d g run') (hc : c.Ordered)
    (hd : d.Ordered) (hlookup : conversations.lookup c.hash = some c)
    (hlookup' : conversations.lookup d.hash = some d) (h : c.hash ≠ d.hash) :
    Apart user conversations states run run' := by
  intro i i'
  apply List.disjoint_left.mpr
  intro p hp hp'
  have hid := (hf.mem_activeReceived hc hlookup hp).1
  have hid' := (hg.mem_activeReceived hd hlookup' hp').1
  exact h (hid.symm.trans hid')

/-- Runs that are apart take nothing out of the count twice. -/
theorem activeAt_nodup {starts : List ℕ} {runs : List DataRun} (hlen : runs.length ≤ starts.length)
    (h : runs.Pairwise (Apart user conversations states)) :
    (activeAt user states conversations (starts.zip runs)).Nodup := by
  rw [← List.map_snd_zip hlen, List.pairwise_map] at h
  rw [activeAt, List.nodup_flatMap]
  exact ⟨fun run _ => activeReceived_nodup, h.imp fun hapart => hapart _ _⟩

end

/-! ### The conversations of a user -/

section

variable {user : UserId} {convs : List Conversation} {c : Conversation} {id : Int32}
  {convos : AList fun _ : Int32 => Conversation}

theorem lookup_foldl_addConvo_of_ne (h : ∀ c ∈ convs, c.hash ≠ id) :
    (convs.foldl (addConvo user) convos).lookup id = convos.lookup id := by
  induction convs generalizing convos with
  | nil => rfl
  | cons c cs ih =>
    rw [List.foldl_cons, ih fun d hd => h d (List.mem_cons_of_mem c hd), addConvo]
    split
    · exact AList.lookup_insert_ne (h c List.mem_cons_self).symm
    · rfl

/-- If no two conversations have the same hash, each is found by it. -/
theorem lookup_foldl_addConvo (hhash : (convs.map (·.hash)).Nodup) (hc : c ∈ convs)
    (hsent : c.messages.any (·.user = user)) :
    (convs.foldl (addConvo user) convos).lookup c.hash = some c := by
  -- what was inserted before does not matter: either it is replaced or never looked up
  induction convs generalizing convos with
  | nil => cases hc
  | cons d ds ih =>
    rw [List.map_cons, List.nodup_cons] at hhash
    rw [List.foldl_cons]
    rcases List.mem_cons.mp hc with rfl | hc
    · rw [lookup_foldl_addConvo_of_ne, addConvo, if_pos hsent, AList.lookup_insert]
      intro d hd heq
      exact hhash.1 (heq ▸ List.mem_map_of_mem hd)
    · exact ih hhash.2 hc

theorem RunOf.lookup_userConvo {f : Fragment} {run : DataRun} (h : RunOf user c f run)
    (hhash : (convs.map (·.hash)).Nodup) (hc : c ∈ convs) :
    (userConvo user convs).lookup c.hash = some c := by
  obtain ⟨m, hm, hu, -⟩ := h.sent f.head Fragment.head_mem
  apply lookup_foldl_addConvo hhash hc
  exact List.any_eq_true.mpr ⟨m, List.mem_of_getElem? hm, decide_eq_true hu⟩

end

/-! ### The files -/

theorem RunOf.sized {user : UserId} {c : Conversation} {f : Fragment} {run : DataRun}
    (h : RunOf user c f run) : run.Sized := by
  obtain ⟨m, hm, -, -⟩ := h.sent f.head Fragment.head_mem
  have hlast : f.last.date ≤ maxTime + hour :=
    Int.le_trans (Int.le_add_of_nonneg_right (by decide)) (Int.le_trans h.le_maxTime (by decide))
  have hspan := minutesAfter_lt_size h.minTime_le_head hlast
  obtain ⟨k, hk, rfl⟩ := h.eq_toRun
  have hlength : (f.toRun c.hash k).minuteCounters.length = 60 + f.size + k := by
    rw [Fragment.toRun, List.length_append, Fragment.length_counters, List.length_replicate]
  refine ⟨?_, ?_, ?_⟩
  · apply List.ne_nil_of_length_pos
    omega
  · rw [hlength, Fragment.size]
    omega
  · obtain ⟨hindex, -⟩ := List.getElem?_eq_some_iff.mp hm
    exact Nat.lt_of_lt_of_le hindex (Nat.le_trans c.length_le (by decide))

/-- The conversations have hashes of their own, their messages are in order, and the counters of
the user do not overflow. -/
structure WellFormed (user : UserId) (convs : List Conversation) : Prop where
  hashes : (convs.map (·.hash)).Nodup
  ordered : ∀ c ∈ convs, c.Ordered
  few : ∀ c ∈ convs, (c.messages.filter (·.user = user)).length < UInt16.size

/-- The counters of a run begin with an hour of zeros, then the first message is counted, and at
most an hour of zeros is behind the minutes. -/
structure Trimmed (counters minutes : List UInt16) : Prop where
  eq_append : ∃ k ≤ 60, counters = List.replicate 60 0 ++ minutes ++ List.replicate k 0
  first_pos : ∃ c, minutes[0]? = some c ∧ 0 < c

namespace WellFormed

variable {user : UserId} {convs : List Conversation} {parts : List (List DataRun)}

theorem exists_runOf (h : WellFormed user convs)
    (hparts : List.Forall₂ (ConvRuns user) convs parts) :
    ∀ run ∈ parts.flatten, ∃ c ∈ convs, ∃ f, RunOf user c f run := by
  intro run hrun
  obtain ⟨part, hpart, hrun⟩ := List.mem_flatten.mp hrun
  obtain ⟨c, hc, hpart⟩ := Result.exists_of_mem_right hparts hpart
  obtain ⟨fs, hfs, -⟩ := runOf_of_convRuns (h.ordered c hc) (h.few c hc) hpart
  obtain ⟨f, -, hf⟩ := Result.exists_of_mem_right hfs hrun
  exact ⟨c, hc, f, hf⟩

/-- The runs of a user are apart: in one conversation as the fragments are, in two because of
the hashes. -/
theorem pairwise_apart (h : WellFormed user convs)
    (hparts : List.Forall₂ (ConvRuns user) convs parts) (states : List State) :
    parts.flatten.Pairwise (Apart user (userConvo user convs) states) := by
  -- in one conversation the fragments keep the runs apart, in two the hashes do
  have hall : List.Forall₂ (fun c part => c ∈ convs ∧ ConvRuns user c part) convs parts :=
    (List.forall₂_and_left _ _).mpr ⟨fun c hc => hc, hparts⟩
  apply List.pairwise_flatten.mpr
  constructor
  · intro part hpart
    obtain ⟨c, hc, hpart⟩ := Result.exists_of_mem_right hparts hpart
    obtain ⟨fs, hfs, hseparated⟩ := runOf_of_convRuns (h.ordered c hc) (h.few c hc) hpart
    apply Result.pairwise_right hfs _ hseparated
    intro f g run run' hsep hf hg
    exact apart_of_separated hf hg (h.ordered c hc) (hf.lookup_userConvo h.hashes hc) hsep
  · apply Result.pairwise_right hall _ (List.pairwise_map.mp h.hashes)
    intro c d part part' hne ⟨hc, hpart⟩ ⟨hd, hpart'⟩ run hrun run' hrun'
    obtain ⟨fs, hfs, -⟩ := runOf_of_convRuns (h.ordered c hc) (h.few c hc) hpart
    obtain ⟨gs, hgs, -⟩ := runOf_of_convRuns (h.ordered d hd) (h.few d hd) hpart'
    obtain ⟨f, -, hf⟩ := Result.exists_of_mem_right hfs hrun
    obtain ⟨g, -, hg⟩ := Result.exists_of_mem_right hgs hrun'
    exact apart_of_hash_ne hf hg (h.ordered c hc) (h.ordered d hd)
      (hf.lookup_userConvo h.hashes hc) (hg.lookup_userConvo h.hashes hd) hne

end WellFormed

theorem RunOf.trimmed {user : UserId} {c : Conversation} {f : Fragment} {run : DataRun}
    (h : RunOf user c f run) : Trimmed run.minuteCounters f.body := by
  obtain ⟨k, hk, rfl⟩ := h.eq_toRun
  refine ⟨⟨k, hk, rfl⟩, ?_⟩
  have hfirst := h.sorted.counted h.length_lt Fragment.head_mem
  rwa [minutesAfter_self] at hfirst

/-- The pass for a run finds its counters, states, conversation and dates. -/
theorem RunOf.exists_view {user : UserId} {c : Conversation} {f : Fragment} {run : DataRun}
    {conversations : AList fun _ : Int32 => Conversation} {states : List State} {i : ℕ}
    (h : RunOf user c f run) (hc : c.Ordered) (hlookup : conversations.lookup c.hash = some c)
    (hfit : i + run.minuteCounters.length ≤ states.length) :
    ∃ view, viewDataRun states conversations i run = some view ∧
      Trimmed run.minuteCounters view.minutes ∧ view.Fits user := by
  obtain ⟨view, hview⟩ := Option.isSome_iff_exists.mp (h.viewDataRun_isSome hlookup hfit)
  obtain ⟨first, hv⟩ := h.exists_viewOf hlookup hview
  exact ⟨view, hview, h.minutes_eq hv ▸ h.trimmed, h.fits hc hv⟩

/-- The file of a user is read back, with a label for each counter. -/
theorem parseStatsFile_of_sized (user : UserId) {runs : List DataRun} {states : List State}
    (hne : runs ≠ []) (hsized : ∀ run ∈ runs, run.Sized)
    (hstates : states.length = (runs.map (·.minuteCounters.length)).sum) (rest : Text) :
    parseStatsFile user (logCounters runs ++ stateLine states ++ rest) =
      some ⟨⟨user, runs⟩, states⟩ := by
  apply parseStatsFile_logCounters user hne hsized
  -- the first run has counters, so there are labels
  obtain ⟨first, others, rfl⟩ := List.exists_cons_of_ne_nil hne
  have hpos := List.length_pos_of_ne_nil (hsized first List.mem_cons_self).ne_nil
  rw [List.map_cons, List.sum_cons] at hstates
  apply List.ne_nil_of_length_pos
  omega

/-- The passes do not panic if each run gets labels and nothing is taken out of the count
twice. -/
theorem statsToLabeled_isSome {stats : Stats}
    {conversations : AList fun _ : Int32 => Conversation}
    (hlabels : ∀ run ∈ (sliceStarts 0 stats.userStats.dataRuns).zip stats.userStats.dataRuns,
      (runLabels stats.userStats.user stats.states conversations run.1 run.2).isSome)
    (hnodup : (activeAt stats.userStats.user stats.states conversations
      ((sliceStarts 0 stats.userStats.dataRuns).zip stats.userStats.dataRuns)).Nodup) :
    (statsToLabeled stats conversations).isSome := by
  obtain ⟨labels, hlabels⟩ := Result.exists_mapM_eq_some hlabels
  have hpasses : statsToLabeled stats conversations =
      contribute (labelsAt stats.userStats.user stats.states conversations
        ((sliceStarts 0 stats.userStats.dataRuns).zip stats.userStats.dataRuns)) _ [] _ :=
    labelDataRuns_eq
  rw [hpasses, labelsAt, hlabels, Option.map_some, contribute, Option.bind_some,
    if_pos (length_activeAt_le hnodup)]
  rfl

/-- **Both programs fit together.** The file of a user with a label for each counter is read
back; every run has its slices, with the user's messages in minutes that count them; and all of
the user's messages are labelled. -/
theorem extract_process_fit {user : UserId} {convs : List Conversation}
    {users : AList fun _ : UserId => List DataRun} {runs : List DataRun} {states : List State}
    (hwf : WellFormed user convs) (hextract : extract convs = some users)
    (hruns : users.lookup user = some runs)
    (hstates : states.length = (runs.map (·.minuteCounters.length)).sum) (rest : Text) :
    parseStatsFile user (logCounters runs ++ stateLine states ++ rest) =
      some ⟨⟨user, runs⟩, states⟩ ∧
    (∀ run ∈ (sliceStarts 0 runs).zip runs, ∃ view,
      viewDataRun states (userConvo user convs) run.1 run.2 = some view ∧
        Trimmed run.2.minuteCounters view.minutes ∧ view.Fits user) ∧
    (processUser user convs (logCounters runs ++ stateLine states ++ rest)).isSome := by
  obtain ⟨parts, hparts, hflatten⟩ := extract_runs hwf.ordered hextract hruns
  have hplaced : ∀ run ∈ runs, ∃ c ∈ convs, ∃ f, RunOf user c f run :=
    hflatten ▸ hwf.exists_runOf hparts
  have hparse : parseStatsFile user (logCounters runs ++ stateLine states ++ rest) =
      some ⟨⟨user, runs⟩, states⟩ := by
    apply parseStatsFile_of_sized user (runs_ne_nil hextract hruns) _ hstates
    intro run hrun
    obtain ⟨c, -, f, hf⟩ := hplaced run hrun
    exact hf.sized
  have hviews : ∀ run ∈ (sliceStarts 0 runs).zip runs, ∃ view,
      viewDataRun states (userConvo user convs) run.1 run.2 = some view ∧
        Trimmed run.2.minuteCounters view.minutes ∧ view.Fits user := by
    rintro ⟨i, run⟩ hrun
    obtain ⟨c, hc, f, hf⟩ := hplaced run (List.of_mem_zip hrun).2
    apply hf.exists_view (hwf.ordered c hc) (hf.lookup_userConvo hwf.hashes hc)
    -- `i` is at most the length of the run before
    simpa [hstates] using
      end_le_of_mem_runStarts (fun i run => Nat.le_add_left run.minuteCounters.length i) hrun
  refine ⟨hparse, hviews, ?_⟩
  rw [processUser, hparse]
  apply statsToLabeled_isSome
  · intro run hrun
    obtain ⟨view, hview, -, hfits⟩ := hviews run hrun
    exact runLabels_isSome hview hfits
  · -- the runs are apart, so the count does not run out
    apply activeAt_nodup length_runStarts.ge
    exact hflatten ▸ hwf.pairwise_apart hparts states

/-- Messages of user 7 with an answer of user 8, and one more after four hours. -/
def chatMessages : List Message :=
  [⟨0, 7⟩, ⟨30000000000, 8⟩, ⟨60000000000, 7⟩, ⟨14400000000000, 7⟩]

theorem length_chatMessages_le : chatMessages.length ≤ UInt32.size := by decide

/-- The same messages in two conversations. -/
def chats : List Conversation :=
  [⟨1, 14400000000000, 2, chatMessages, length_chatMessages_le⟩,
    ⟨2, 14400000000000, 2, chatMessages, length_chatMessages_le⟩]

/-- The runs of user 7: two in each conversation. -/
def chatRuns : List DataRun :=
  [⟨1, 0, List.replicate 60 0 ++ [1, 1] ++ List.replicate 60 0⟩,
    ⟨1, 3, List.replicate 60 0 ++ [1]⟩,
    ⟨2, 0, List.replicate 60 0 ++ [1, 1] ++ List.replicate 60 0⟩,
    ⟨2, 3, List.replicate 60 0 ++ [1]⟩]

theorem extract_process_fit_chats :
    (extract chats).bind (·.lookup 7) = some chatRuns ∧
      (processUser 7 chats
        (logCounters chatRuns ++ stateLine (List.replicate 366 .active) ++ [])).isSome := by
  have hruns : (extract chats).bind (·.lookup 7) = some chatRuns := by decide +kernel
  obtain ⟨users, husers, hlookup⟩ := Option.bind_eq_some_iff.mp hruns
  have hwf : WellFormed 7 chats := by
    refine ⟨by decide, ?_, by decide⟩
    intro c hc
    rcases List.mem_pair.mp hc with rfl | rfl
    · exact ⟨by decide, by decide⟩
    · exact ⟨by decide, by decide⟩
  exact ⟨hruns, (extract_process_fit hwf husers hlookup (by decide +kernel) []).2.2⟩

end SignalSim.SamExtractor
