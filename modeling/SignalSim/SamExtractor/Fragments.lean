import SignalSim.Foundations.Histogram
import SignalSim.SamExtractor.Extract

/-!
# Fragments of a user's messages

What `process_conversation` computes for one user, without counters: the user's messages are cut
into fragments, each of which becomes a run whose counters are a histogram of the fragment's
minutes.

## Main definitions

* `Fragment`, `Fragments` — stretches of messages; the finished ones and the current one
* `Fragments.Represents` — the state of the code holds the counters of the fragments

## Main results

* `fragments_eq_some` — the fragments of a user have the user's messages, and are apart from each
  other
-/

namespace SignalSim.SamExtractor

/-- A message of the user: where it is in the conversation, and when it was sent. -/
structure Stamp where
  index : ℕ
  date : ℤ

/-- A stretch of messages of a user, with at least one. -/
structure Fragment where
  head : Stamp
  tail : List Stamp

namespace Fragment

variable (f : Fragment) (s : Stamp)

def stamps : List Stamp := f.head :: f.tail

/-- The last message. -/
def last : Stamp := f.stamps.getLast (List.cons_ne_nil _ _)

/-- One more than the last minute with a message. -/
def size : ℕ := minutesAfter f.head.date f.last.date + 1

/-- The minutes of the messages. -/
def minutes : List ℕ := f.stamps.map fun s => minutesAfter f.head.date s.date

/-- The messages in each minute, as the code counts them. -/
def body : List UInt16 := histogram UInt16.ofNat f.size f.minutes

/-- The counters up to the last message. -/
def counters : List UInt16 := List.replicate 60 0 ++ f.body

/-- The run of the fragment, with `n` zeros behind the last message. -/
def toRun (hash : Int32) (n : ℕ) : DataRun :=
  ⟨hash, f.head.index, f.counters ++ List.replicate n 0⟩

def push : Fragment := ⟨f.head, f.tail ++ [s]⟩

/-- The messages are in the order of their dates. -/
def Sorted : Prop := f.stamps.Pairwise fun s t => s.date ≤ t.date

variable {f s}

@[simp] theorem stamps_push : (f.push s).stamps = f.stamps ++ [s] := rfl

@[simp] theorem head_push : (f.push s).head = f.head := rfl

@[simp] theorem last_push : (f.push s).last = s := by
  simp [last]

theorem minutes_push :
    (f.push s).minutes = f.minutes ++ [minutesAfter f.head.date s.date] := by
  simp [minutes]

@[simp] theorem length_body : f.body.length = f.size := length_histogram

@[simp] theorem length_counters : f.counters.length = 60 + f.size := by
  rw [counters, List.length_append, List.length_replicate, length_body]

theorem head_mem : f.head ∈ f.stamps := List.mem_cons_self

theorem last_mem : f.last ∈ f.stamps := List.getLast_mem _

theorem Sorted.head_le (h : f.Sorted) (hs : s ∈ f.stamps) : f.head.date ≤ s.date := by
  rcases List.mem_cons.mp hs with rfl | hs
  · exact le_rfl
  · exact (List.pairwise_cons.mp h).1 s hs

theorem Sorted.le_last (h : f.Sorted) (hs : s ∈ f.stamps) : s.date ≤ f.last.date :=
  h.rel_getLast_of_rel_getLast_getLast hs le_rfl

/-- Every message is in one of the minutes counted. -/
theorem Sorted.lt_size (h : f.Sorted) (hs : s ∈ f.stamps) :
    minutesAfter f.head.date s.date < f.size :=
  Nat.lt_succ_of_le (minutesAfter_mono (h.le_last hs))

/-- The minute of a later message as the code computes it, from an hour before the first. -/
theorem messageMinute_eq (hle : f.head.date ≤ s.date) (hfirst : minTime ≤ f.head.date - hour)
    (hdate : s.date ≤ maxTime + hour) :
    asUsize (wholeMinutes (s.date - (f.head.date - hour))) =
      60 + minutesAfter f.head.date s.date := by
  have hstart : f.head.date - hour ≤ s.date := Int.le_trans (Int.sub_le_self _ (by decide)) hle
  rw [asUsize_wholeMinutes hstart hfirst hdate, minutesAfter_sub_hour hle]

end Fragment

/-- The finished fragments of a user and the current one. -/
structure Fragments where
  closed : List Fragment
  current : Fragment

namespace Fragments

variable (fs : Fragments) (s : Stamp)

/-- All fragments, in order. -/
def all : List Fragment := fs.closed ++ [fs.current]

/-- All messages. -/
def stamps : List Stamp := fs.all.flatMap Fragment.stamps

/-- The next message of the user. It starts a new fragment if it comes more than 120 minutes
after the last minute of the current one. -/
def add : Fragments :=
  if fs.current.size + 120 < minutesAfter fs.current.head.date s.date then ⟨fs.all, ⟨s, []⟩⟩
  else ⟨fs.closed, fs.current.push s⟩

/-- The runs of the fragments, with `n` zeros at the end of the last one. -/
def toRuns (hash : Int32) (n : ℕ) : List DataRun :=
  fs.closed.map (fun f => f.toRun hash 60) ++ [fs.current.toRun hash n]

/-- The state of the code for a user holds the counters of the fragments. -/
structure Represents (hash : Int32) (stats : ProcStats) (fs : Fragments) : Prop where
  closedRuns : stats.closedRuns = fs.closed.map fun f => f.toRun hash 60
  dataRun : stats.dataRun = fs.current.toRun hash 0
  start : stats.start = fs.current.head.date - hour
  last : stats.last = fs.current.last.date
  minTime_le : minTime ≤ fs.current.head.date - hour

variable {fs s}

@[simp] theorem stamps_add : (fs.add s).stamps = fs.stamps ++ [s] := by
  unfold add
  split
  · simp [stamps, all, Fragment.stamps]
  · simp [stamps, all]

theorem add_of_lt (h : fs.current.size + 120 < minutesAfter fs.current.head.date s.date) :
    fs.add s = ⟨fs.all, ⟨s, []⟩⟩ := if_pos h

theorem add_of_not_lt
    (h : ¬ fs.current.size + 120 < minutesAfter fs.current.head.date s.date) :
    fs.add s = ⟨fs.closed, fs.current.push s⟩ := if_neg h

/-! ### The messages of a user in order -/

/-- Every message of the second fragment comes more than two hours after the last minute of the
first. -/
def Separated (f g : Fragment) : Prop :=
  ∀ s ∈ g.stamps, f.size + 120 < minutesAfter f.head.date s.date

theorem mem_stamps : s ∈ fs.stamps ↔ ∃ f ∈ fs.all, s ∈ f.stamps := List.mem_flatMap

theorem current_mem : fs.current ∈ fs.all := List.mem_append_right _ (List.mem_singleton_self _)

/-- Two fragments of one user are the same, or one is before the other. -/
theorem eq_or_before {R : Fragment → Fragment → Prop} (h : fs.all.Pairwise R)
    {f g : Fragment} (hf : f ∈ fs.all) (hg : g ∈ fs.all) : f = g ∨ R f g ∨ R g f := by
  obtain ⟨i, hi, rfl⟩ := List.getElem_of_mem hf
  obtain ⟨j, hj, rfl⟩ := List.getElem_of_mem hg
  rcases Nat.lt_trichotomy i j with hij | rfl | hji
  · exact .inr (.inl (List.pairwise_iff_getElem.mp h i j hi hj hij))
  · exact .inl rfl
  · exact .inr (.inr (List.pairwise_iff_getElem.mp h j i hj hi hji))

theorem sorted_of_mem {f : Fragment} (h : fs.stamps.Pairwise fun s t => s.date ≤ t.date)
    (hf : f ∈ fs.all) : f.Sorted := by
  rw [stamps, List.flatMap_def] at h
  exact h.sublist (List.sublist_flatten_of_mem (List.mem_map_of_mem hf))

theorem length_le_of_mem {f : Fragment} (hf : f ∈ fs.all) :
    f.stamps.length ≤ fs.stamps.length := by
  rw [stamps, List.flatMap_def]
  exact (List.sublist_flatten_of_mem (List.mem_map_of_mem hf)).length_le

/-- The fragments stay apart from each other. -/
theorem separated_add (h : fs.all.Pairwise Separated) (hle : ∀ t ∈ fs.stamps, t.date ≤ s.date) :
    (fs.add s).all.Pairwise Separated := by
  rw [all, List.pairwise_append] at h
  obtain ⟨hclosed, -, hcurrent⟩ := h
  -- the new message is after all others, in particular after the last of the current fragment
  have hlast : fs.current.last.date ≤ s.date :=
    hle _ (mem_stamps.mpr ⟨fs.current, current_mem, Fragment.last_mem⟩)
  -- a later message is further away from the finished fragments
  have hnew : ∀ f ∈ fs.closed, f.size + 120 < minutesAfter f.head.date s.date := by
    intro f hf
    have hfar := hcurrent f hf fs.current (List.mem_singleton_self _) _ Fragment.last_mem
    exact Nat.lt_of_lt_of_le hfar (minutesAfter_mono hlast)
  by_cases hlt : fs.current.size + 120 < minutesAfter fs.current.head.date s.date
  · rw [add_of_lt hlt, all, all, List.pairwise_append, List.pairwise_append]
    refine ⟨⟨hclosed, List.pairwise_singleton _ _, hcurrent⟩, List.pairwise_singleton _ _, ?_⟩
    intro f hf g hg t ht
    obtain rfl := List.mem_singleton.mp hg
    obtain rfl := List.mem_singleton.mp ht
    rcases List.mem_append.mp hf with hf | hf
    · exact hnew f hf
    · obtain rfl := List.mem_singleton.mp hf
      exact hlt
  · rw [add_of_not_lt hlt, all, List.pairwise_append]
    refine ⟨hclosed, List.pairwise_singleton _ _, ?_⟩
    intro f hf g hg t ht
    obtain rfl := List.mem_singleton.mp hg
    rw [Fragment.stamps_push] at ht
    rcases List.mem_append.mp ht with ht | ht
    · exact hcurrent f hf fs.current (List.mem_singleton_self _) t ht
    · obtain rfl := List.mem_singleton.mp ht
      exact hnew f hf

/-- A message of a user who may not have sent one before. -/
def addTo : Option Fragments → Stamp → Option Fragments
  | none, s => some ⟨[], ⟨s, []⟩⟩
  | some fs, s => some (fs.add s)

end Fragments

/-- The messages of a user, the first message having index `i`. -/
def stampsOf (user : UserId) (i : ℕ) : List Message → List Stamp
  | [] => []
  | m :: ms => if m.user = user then ⟨i, m.date⟩ :: stampsOf user (i + 1) ms
    else stampsOf user (i + 1) ms

/-- The fragments of a user in a conversation. -/
def fragments (user : UserId) (messages : List Message) : Option Fragments :=
  (stampsOf user 0 messages).foldl Fragments.addTo none

section

variable {user : UserId} {ms : List Message} {i : ℕ} {s : Stamp}

theorem mem_stampsOf :
    s ∈ stampsOf user i ms ↔
      ∃ j m, ms[j]? = some m ∧ s.index = i + j ∧ m.user = user ∧ s.date = m.date := by
  -- `i` is the index of the first message of the list
  induction ms generalizing i with
  | nil => simp [stampsOf]
  | cons m ms ih =>
    unfold stampsOf
    constructor
    · intro hs
      split at hs
      case isTrue hm =>
        rcases List.mem_cons.mp hs with rfl | hs
        · exact ⟨0, m, rfl, rfl, hm, rfl⟩
        · obtain ⟨j, m', hj, hi, hrest⟩ := ih.mp hs
          exact ⟨j + 1, m', hj, by omega, hrest⟩
      case isFalse hm =>
        obtain ⟨j, m', hj, hi, hrest⟩ := ih.mp hs
        exact ⟨j + 1, m', hj, by omega, hrest⟩
    · rintro ⟨j, m', hj, hi, hu, hd⟩
      cases j with
      | zero =>
        obtain rfl := Option.some_inj.mp hj
        obtain ⟨index, date⟩ := s
        obtain rfl : index = i := hi
        obtain rfl : date = m.date := hd
        rw [if_pos hu]
        exact List.mem_cons_self
      | succ j =>
        have hs : s ∈ stampsOf user (i + 1) ms := ih.mpr ⟨j, m', hj, by omega, hu, hd⟩
        split
        · exact List.mem_cons_of_mem _ hs
        · exact hs

theorem length_stampsOf :
    (stampsOf user i ms).length = (ms.filter (·.user = user)).length := by
  induction ms generalizing i with
  | nil => rfl
  | cons m ms ih =>
    unfold stampsOf
    split
    case isTrue h =>
      rw [List.filter_cons_of_pos (by simpa using h), List.length_cons, ih, List.length_cons]
    case isFalse h =>
      rw [List.filter_cons_of_neg (by simpa using h), ih]

theorem stampsOf_pairwise_index :
    (stampsOf user i ms).Pairwise fun s t => s.index < t.index := by
  induction ms generalizing i with
  | nil => exact .nil
  | cons m ms ih =>
    unfold stampsOf
    split
    · refine List.pairwise_cons.mpr ⟨?_, ih⟩
      intro s hs
      obtain ⟨j, m', -, hi, -, -⟩ := mem_stampsOf.mp hs
      simp only
      omega
    · exact ih

theorem stampsOf_pairwise_date (h : ms.Pairwise fun m m' => m.date ≤ m'.date) :
    (stampsOf user i ms).Pairwise fun s t => s.date ≤ t.date := by
  induction ms generalizing i with
  | nil => exact .nil
  | cons m ms ih =>
    obtain ⟨hm, hms⟩ := List.pairwise_cons.mp h
    unfold stampsOf
    split
    · refine List.pairwise_cons.mpr ⟨?_, ih hms⟩
      intro s hs
      obtain ⟨j, m', hj, -, -, hd⟩ := mem_stampsOf.mp hs
      rw [hd]
      exact hm m' (List.mem_of_getElem? hj)
    · exact ih hms

end

namespace Fragments

/-- The messages in fragments, if any. -/
def stamps? (fo : Option Fragments) : List Stamp := fo.elim [] stamps

theorem stamps?_addTo {fo : Option Fragments} {s : Stamp} :
    stamps? (addTo fo s) = stamps? fo ++ [s] := by
  cases fo with
  | none => rfl
  | some fs => exact stamps_add

/-- No message is lost or moved, and the fragments stay apart from each other. -/
theorem foldl_addTo {ss : List Stamp} {fo : Option Fragments} {fs : Fragments}
    (hsorted : (stamps? fo ++ ss).Pairwise fun s t => s.date ≤ t.date)
    (hsep : ∀ fs, fo = some fs → fs.all.Pairwise Separated)
    (h : ss.foldl addTo fo = some fs) :
    fs.stamps = stamps? fo ++ ss ∧ fs.all.Pairwise Separated := by
  -- the messages done so far are those in `fo`; each new one is at the end of them
  induction ss generalizing fo with
  | nil =>
    rw [List.foldl_nil] at h
    subst h
    exact ⟨(List.append_nil _).symm, hsep fs rfl⟩
  | cons s ss ih =>
    rw [List.append_cons, ← stamps?_addTo] at hsorted
    rw [List.append_cons, ← stamps?_addTo]
    refine ih hsorted ?_ h
    intro gs hgs
    cases fo with
    | none =>
      obtain rfl := Option.some_inj.mp hgs
      exact List.pairwise_singleton _ _
    | some fs₀ =>
      obtain rfl := Option.some_inj.mp hgs
      apply separated_add (hsep fs₀ rfl)
      intro t ht
      rw [stamps?_addTo] at hsorted
      exact (List.pairwise_append.mp (List.pairwise_append.mp hsorted).1).2.2 t ht s
        (List.mem_singleton_self s)

end Fragments

/-- The fragments have the user's messages in order, and are apart from each other. -/
structure FragmentsOf (user : UserId) (ms : List Message) (fs : Fragments) : Prop where
  stamps_eq : fs.stamps = stampsOf user 0 ms
  index_lt : fs.stamps.Pairwise fun s t => s.index < t.index
  date_le : fs.stamps.Pairwise fun s t => s.date ≤ t.date
  separated : fs.all.Pairwise Fragments.Separated

section

variable {user : UserId} {ms : List Message} {fs : Fragments} {f : Fragment} {s : Stamp}

theorem fragments_eq_some (hsorted : ms.Pairwise fun m m' => m.date ≤ m'.date)
    (h : fragments user ms = some fs) : FragmentsOf user ms fs := by
  have hdate : (Fragments.stamps? none ++ stampsOf user 0 ms).Pairwise
      fun s t => s.date ≤ t.date := stampsOf_pairwise_date hsorted
  have hfs : fs.stamps = stampsOf user 0 ms ∧ fs.all.Pairwise Fragments.Separated :=
    Fragments.foldl_addTo hdate nofun h
  obtain ⟨hstamps, hseparated⟩ := hfs
  exact ⟨hstamps, hstamps ▸ stampsOf_pairwise_index, hstamps ▸ hdate, hseparated⟩

namespace FragmentsOf

/-- A stamp is that of one of the user's messages. -/
theorem exists_message (h : FragmentsOf user ms fs) (hs : s ∈ fs.stamps) :
    ∃ m, ms[s.index]? = some m ∧ m.user = user ∧ m.date = s.date := by
  rw [h.stamps_eq] at hs
  obtain ⟨j, m, hj, hi, hu, hd⟩ := mem_stampsOf.mp hs
  rw [Nat.zero_add] at hi
  exact ⟨m, hi ▸ hj, hu, hd.symm⟩

/-- The messages of a fragment are in order. -/
theorem sorted (h : FragmentsOf user ms fs) (hf : f ∈ fs.all) : f.Sorted :=
  Fragments.sorted_of_mem h.date_le hf

/-- A fragment has no more messages than the user. -/
theorem length_le (h : FragmentsOf user ms fs) (hf : f ∈ fs.all) :
    f.stamps.length ≤ (ms.filter (·.user = user)).length := by
  rw [← length_stampsOf, ← h.stamps_eq]
  exact Fragments.length_le_of_mem hf

end FragmentsOf

end

end SignalSim.SamExtractor
