import SignalSim.Foundations.Transition
import SignalSim.SamExtractor.Placement

/-!
# The loop over the messages, user by user

`process_conversation` goes through the messages of all users in one loop, and keeps an entry for
each user. A message changes nothing but the entry of its user, so the loop is made up of one loop
for each user, over the messages of that user.

## Main definitions

* `loop` — the loop of the code, one message a step
* `userLoop` — the loop of one user
* `NonnegCast` — no negative number of minutes is cast for a message
* `Seen.Placed` — the entry of a user holds the counters of the stretches

## Main results

* `run_userLoop` — the loop of the code goes through those of the users
* `exists_run_loop` — and panics only where one of them does
* `along_loop_iff` — they cast the same numbers of minutes
* `exists_loop` — messages that are not before the first one of their stretch are counted
-/

namespace SignalSim.SamExtractor

open Fragments (cutTo AllInOrder)

/-! ### The loop of the code -/

/-- The entry of a user who has not sent a message before. -/
def ProcStats.openAt (hash : Int32) (s : Stamp) : ProcStats :=
  ⟨s.date - hour, s.date, [], .openAt hash s.index⟩

/-- The entries of the users, and the index of the next message. -/
abbrev Loop := (AList fun _ : UserId => ProcStats) × ℕ

/-- The entry that counts the next message. -/
def Loop.entry (hash : Int32) (l : Loop) (message : Message) : ProcStats :=
  (l.1.lookup message.user).getD (.openAt hash ⟨l.2, message.date⟩)

/-- One pass of the loop. -/
def Loop.step (hash : Int32) (l : Loop) (message : Message) : Option Loop := do
  let _ ← addTime message.date (-hour)
  let stats ← (l.entry hash message).add hash l.2 message
  return (l.1.insert message.user stats, l.2 + 1)

def loop (hash : Int32) : System Loop Message := ⟨Loop.step hash⟩

/-- The number of minutes that is cast for the next message is not negative. -/
def Loop.NonnegCast (hash : Int32) (l : Loop) (message : Message) : Prop :=
  0 ≤ wholeMinutes (message.date - (l.entry hash message).start)

/-! ### The loop of a user -/

/-- The entry of a user and the messages that it counts. -/
structure Seen where
  stats : Option ProcStats
  stamps : List Stamp

namespace Seen

/-- The entry that counts the next message. -/
def entry (hash : Int32) (u : Seen) (s : Stamp) : ProcStats := u.stats.getD (.openAt hash s)

def step (hash : Int32) (u : Seen) (s : Stamp) : Option Seen :=
  ((u.entry hash s).add hash s.index ⟨s.date, 0⟩).map fun stats => ⟨some stats, u.stamps ++ [s]⟩

/-- The number of minutes that is cast for the next message is not negative. -/
def NonnegCast (hash : Int32) (u : Seen) (s : Stamp) : Prop :=
  0 ≤ wholeMinutes (s.date - (u.entry hash s).start)

end Seen

def userLoop (hash : Int32) : System Seen Stamp := ⟨Seen.step hash⟩

section

variable {hash : Int32} {l l' : Loop} {user : UserId} {m : Message} {ms : List Message} {u : Seen}
  {i : ℕ} {users : AList fun _ : UserId => ProcStats} {stamps : List Stamp}

/-- The loop as the code runs it. -/
theorem run_loop : ((loop hash).run (users, i) ms).map (·.1) =
    processMessages hash users i ms := by
  induction ms generalizing users i with
  | nil => rfl
  | cons m ms ih =>
    have hstep : (loop hash).step (users, i) m = (addTime m.date (-hour)).bind fun _ =>
        ((Loop.entry hash (users, i) m).add hash i m).bind fun stats =>
          some (users.insert m.user stats, i + 1) := rfl
    rw [System.run_cons, hstep, processMessages]
    cases hstart : addTime m.date (-hour) with
    | none => rfl
    | some start =>
      obtain rfl := (addTime_eq_some.mp hstart).2
      have hentry : Loop.entry hash (users, i) m =
        (users.lookup m.user).getD ⟨m.date + -hour, m.date, [], .openAt hash i⟩ := rfl
      simp only [Option.bind_some, Option.bind_eq_bind, ← hentry]
      cases (Loop.entry hash (users, i) m).add hash i m with
      | none => rfl
      | some stats => exact ih

theorem Loop.step_eq_some : l.step hash m = some l' ↔
    InRange m.date ∧ ∃ stats, (l.entry hash m).add hash l.2 m = some stats ∧
      l' = (l.1.insert m.user stats, l.2 + 1) := by
  constructor
  · intro h
    obtain ⟨start, hstart, h⟩ := Option.bind_eq_some_iff.mp h
    obtain ⟨stats, hstats, h⟩ := Option.bind_eq_some_iff.mp h
    exact ⟨(addTime_eq_some.mp hstart).1, stats, hstats, (Option.some_inj.mp h).symm⟩
  · rintro ⟨hrange, stats, hstats, rfl⟩
    rw [step, addTime_eq_some.mpr ⟨hrange, rfl⟩]
    simp only [Option.bind_eq_bind, Option.bind_some, hstats]
    rfl

theorem Seen.step_eq_some {s : Stamp} {v : Seen} : u.step hash s = some v ↔
    ∃ stats, (u.entry hash s).add hash s.index ⟨s.date, 0⟩ = some stats ∧
      v = ⟨some stats, u.stamps ++ [s]⟩ := by
  rw [step, Option.map_eq_some_iff]
  simp only [eq_comm]

/-! ### From one to the other -/

theorem stampsOf_cons_self : stampsOf m.user i (m :: ms) =
    ⟨i, m.date⟩ :: stampsOf m.user (i + 1) ms := if_pos rfl

theorem stampsOf_cons_of_ne (h : m.user ≠ user) :
    stampsOf user i (m :: ms) = stampsOf user (i + 1) ms := if_neg h

/-- A step of the loop is one of the loop of the message's user. -/
theorem step_self {stats : ProcStats} (h : (l.entry hash m).add hash l.2 m = some stats) :
    (userLoop hash).step ⟨l.1.lookup m.user, stamps⟩ ⟨l.2, m.date⟩ =
      some ⟨some stats, stamps ++ [⟨l.2, m.date⟩]⟩ :=
  Seen.step_eq_some.mpr ⟨stats, h, rfl⟩

/-- **Projection.** The loop goes through that of each user. -/
theorem run_userLoop (h : (loop hash).run l ms = some l') (user : UserId) (stamps : List Stamp) :
    (userLoop hash).run ⟨l.1.lookup user, stamps⟩ (stampsOf user l.2 ms) =
      some ⟨l'.1.lookup user, stamps ++ stampsOf user l.2 ms⟩ := by
  induction ms generalizing l stamps with
  | nil =>
    obtain rfl := Option.some_inj.mp h
    rw [stampsOf, List.append_nil]
    rfl
  | cons m ms ih =>
    obtain ⟨l₁, hstep, h⟩ := System.run_cons_eq_some.mp h
    obtain ⟨-, stats, hstats, rfl⟩ := Loop.step_eq_some.mp hstep
    by_cases hm : m.user = user
    · subst hm
      rw [stampsOf_cons_self, System.run_cons, step_self hstats, Option.bind_some]
      have hrest := ih h (stamps ++ [⟨l.2, m.date⟩])
      rwa [AList.lookup_insert, ← List.append_cons] at hrest
    · rw [stampsOf_cons_of_ne hm]
      have hrest := ih h stamps
      rwa [AList.lookup_insert_ne (Ne.symm hm)] at hrest

theorem inRange_of_run_loop (h : (loop hash).run l ms = some l') : ∀ m ∈ ms, InRange m.date := by
  induction ms generalizing l with
  | nil => exact nofun
  | cons m ms ih =>
    obtain ⟨l₁, hstep, h⟩ := System.run_cons_eq_some.mp h
    exact List.forall_mem_cons.mpr ⟨(Loop.step_eq_some.mp hstep).1, ih h⟩

/-- The loop does not panic if those of the users do not. -/
theorem exists_run_loop (stamps : UserId → List Stamp) (hrange : ∀ m ∈ ms, InRange m.date)
    (h : ∀ user, ∃ u, (userLoop hash).run ⟨l.1.lookup user, stamps user⟩ (stampsOf user l.2 ms) =
      some u) :
    ∃ l', (loop hash).run l ms = some l' := by
  induction ms generalizing l stamps with
  | nil => exact ⟨l, rfl⟩
  | cons m ms ih =>
    obtain ⟨hm, hms⟩ := List.forall_mem_cons.mp hrange
    obtain ⟨u, hu⟩ := h m.user
    rw [stampsOf_cons_self] at hu
    obtain ⟨v, hv, -⟩ := System.run_cons_eq_some.mp hu
    obtain ⟨stats, hstats, rfl⟩ := Seen.step_eq_some.mp hv
    have hstep : (loop hash).step l m = some (l.1.insert m.user stats, l.2 + 1) :=
      Loop.step_eq_some.mpr ⟨hm, stats, hstats, rfl⟩
    rw [System.run_cons, hstep, Option.bind_some]
    apply ih (Function.update stamps m.user (stamps m.user ++ [⟨l.2, m.date⟩])) hms
    intro user
    obtain ⟨u', hu'⟩ := h user
    refine ⟨u', ?_⟩
    by_cases hne : m.user = user
    · subst hne
      rw [stampsOf_cons_self, System.run_cons, hv, Option.bind_some] at hu'
      rwa [AList.lookup_insert, Function.update_self]
    · rw [stampsOf_cons_of_ne hne] at hu'
      rwa [AList.lookup_insert_ne (Ne.symm hne), Function.update_of_ne (Ne.symm hne)]

/-- The loop casts no negative number of minutes if those of the users cast none. -/
theorem along_loop_iff (stamps : UserId → List Stamp) (h : (loop hash).run l ms = some l') :
    (loop hash).Along (Loop.NonnegCast hash) l ms ↔
      ∀ user, (userLoop hash).Along (Seen.NonnegCast hash) ⟨l.1.lookup user, stamps user⟩
        (stampsOf user l.2 ms) := by
  induction ms generalizing l stamps with
  | nil => exact ⟨fun _ _ => trivial, fun _ => trivial⟩
  | cons m ms ih =>
    obtain ⟨l₁, hstep, h⟩ := System.run_cons_eq_some.mp h
    obtain ⟨-, stats, hstats, rfl⟩ := Loop.step_eq_some.mp hstep
    have hrest := ih (Function.update stamps m.user (stamps m.user ++ [⟨l.2, m.date⟩])) h
    -- the message is one of its user's, and the others do not see it
    have huser (user : UserId) : (userLoop hash).Along (Seen.NonnegCast hash)
          ⟨l.1.lookup user, stamps user⟩ (stampsOf user l.2 (m :: ms)) ↔
        (m.user = user → l.NonnegCast hash m) ∧
          (userLoop hash).Along (Seen.NonnegCast hash)
            ⟨(l.1.insert m.user stats).lookup user,
              Function.update stamps m.user (stamps m.user ++ [⟨l.2, m.date⟩]) user⟩
            (stampsOf user (l.2 + 1) ms) := by
      by_cases hm : m.user = user
      · subst hm
        rw [stampsOf_cons_self, System.along_cons (step_self hstats), AList.lookup_insert,
          Function.update_self]
        exact and_congr_left fun _ => ⟨fun hcast _ => hcast, fun hcast => hcast rfl⟩
      · rw [stampsOf_cons_of_ne hm, AList.lookup_insert_ne (Ne.symm hm),
          Function.update_of_ne (Ne.symm hm)]
        exact ⟨fun hrest => ⟨fun heq => absurd heq hm, hrest⟩, fun hboth => hboth.2⟩
    rw [System.along_cons hstep, hrest, forall_congr' huser, forall_and]
    simp

end

/-! ### Stretches -/

namespace Seen

variable {hash : Int32} {u v : Seen} {s : Stamp} {ss : List Stamp}

/-- The user's loop begins with nothing. -/
def init : Seen := ⟨none, []⟩

/-- The message is not before the first one of the current run. -/
def Later (u : Seen) (s : Stamp) : Prop := ∀ stats ∈ u.stats, stats.start + hour ≤ s.date

/-- The entry of the user holds the counters of the stretches of the messages that it counts. -/
def Placed (hash : Int32) (u : Seen) : Prop :=
  Option.Rel (Fragments.Placed hash) u.stats (u.stamps.foldl cutTo none)

theorem placed_init : init.Placed hash := .none

/-- A user's first message is counted. -/
theorem add_first_placed (hash : Int32) (hrange : InRange s.date) : ∃ stats,
    (ProcStats.openAt hash s).add hash s.index ⟨s.date, 0⟩ = some stats ∧
      Fragments.Placed hash stats ⟨[], ⟨s, []⟩⟩ := by
  -- the run starts an hour before its first message, which is then in minute 60
  have hminute : asUsize (wholeMinutes (s.date - (s.date - hour))) = 60 := by
    rw [Int.sub_sub_self]
    rfl
  have hlength : (DataRun.openAt hash s.index).minuteCounters.length = 60 := List.length_replicate
  have hcount : ((DataRun.openAt hash s.index).countMinute 60).isSome :=
    countMinute_isSome (by decide)
  obtain ⟨run, hrun⟩ := Option.isSome_iff_exists.mp hcount
  have hfits : (⟨s, []⟩ : Fragment).reach + 120 ≤ maxCounters := by
    rw [Fragment.reach_singleton]
    decide
  simp only [ProcStats.add, ProcStats.openAt, hminute, hlength]
  rw [if_neg (by decide), hrun]
  exact ⟨_, rfl, rfl, Fragments.eq_placedRun_of_countMinute hrun, rfl, rfl, hrange.1, hfits⟩

theorem foldl_concat {stamps : List Stamp} :
    (stamps ++ [s]).foldl cutTo none = cutTo (stamps.foldl cutTo none) s := by
  rw [List.foldl_append]
  rfl

/-- The first message of the current stretch is an hour after the start of the run. -/
theorem later_iff (hu : u.Placed hash) :
    u.Later s ↔ ∀ fs ∈ u.stamps.foldl cutTo none, fs.current.head.date ≤ s.date := by
  obtain ⟨so, stamps⟩ := u
  simp only [Placed, Later] at hu ⊢
  generalize stamps.foldl cutTo none = fo at hu ⊢
  cases hu with
  | none => simp
  | some hplaced =>
    simp only [Option.mem_def, Option.some_inj, forall_eq', hplaced.start, Int.sub_add_cancel]

/-- **Step.** A message that is not before the first one is counted. -/
theorem exists_step (hu : u.Placed hash) (hlater : u.Later s) (hrange : InRange s.date) :
    ∃ v, u.step hash s = some v ∧ v.Placed hash ∧ v.stamps = u.stamps ++ [s] := by
  rw [later_iff hu] at hlater
  have hadd : ∃ stats, (u.entry hash s).add hash s.index ⟨s.date, 0⟩ = some stats ∧
      Option.Rel (Fragments.Placed hash) (some stats) (cutTo (u.stamps.foldl cutTo none) s) := by
    obtain ⟨so, stamps⟩ := u
    simp only [Placed, entry] at hu hlater ⊢
    generalize stamps.foldl cutTo none = fo at hu hlater ⊢
    cases hu with
    | none =>
      obtain ⟨stats, hadd, hplaced⟩ := add_first_placed hash hrange
      exact ⟨stats, hadd, .some hplaced⟩
    | some hplaced =>
      obtain ⟨stats, hadd, hplaced⟩ := Fragments.add_placed hplaced (hlater _ rfl) hrange
      exact ⟨stats, hadd, .some hplaced⟩
  obtain ⟨stats, hstats, hrel⟩ := hadd
  refine ⟨⟨some stats, u.stamps ++ [s]⟩, step_eq_some.mpr ⟨stats, hstats, rfl⟩, ?_, rfl⟩
  rw [← foldl_concat] at hrel
  exact hrel

/-- A message that is not before the first one has a minute after that. -/
theorem nonnegCast_of_later (hlater : u.Later s) : u.NonnegCast hash s := by
  have hhour : 0 < hour := by decide
  have hminute := minute_pos
  rw [NonnegCast, wholeMinutes_nonneg_iff, entry]
  obtain ⟨so, stamps⟩ := u
  cases so with
  | none =>
    simp only [Option.getD_none, ProcStats.openAt]
    omega
  | some stats =>
    have hle := hlater stats rfl
    rw [Option.getD_some]
    omega

/-- **Run.** A loop that has met no message before the first one of its run has counted stretches,
none of them with a message before its first one. -/
theorem placed_run (hu : u.Placed hash) (horder : AllInOrder (u.stamps.foldl cutTo none))
    (hlater : (userLoop hash).Along Later u ss) (hrange : ∀ s ∈ ss, InRange s.date)
    (hrun : (userLoop hash).run u ss = some v) :
    v.Placed hash ∧ AllInOrder (v.stamps.foldl cutTo none) := by
  induction ss generalizing u with
  | nil =>
    obtain rfl := Option.some_inj.mp hrun
    exact ⟨hu, horder⟩
  | cons s ss ih =>
    obtain ⟨hs, hss⟩ := List.forall_mem_cons.mp hrange
    obtain ⟨w, hstep, hrun⟩ := System.run_cons_eq_some.mp hrun
    rw [System.along_cons hstep] at hlater
    obtain ⟨w', hw', hplaced, hstamps⟩ := exists_step hu hlater.1 hs
    obtain rfl : w' = w := Option.some_inj.mp (hw'.symm.trans hstep)
    refine ih hplaced ?_ hlater.2 hss hrun
    rw [hstamps, foldl_concat]
    have hle := (later_iff hu).mp hlater.1
    generalize u.stamps.foldl cutTo none = fo at horder hle
    cases fo with
    | none =>
      intro fs hfs
      obtain rfl := Option.some_inj.mp hfs
      exact List.forall_mem_singleton.mpr Fragment.inOrder_singleton
    | some fs =>
      intro fs' hfs'
      obtain rfl := Option.some_inj.mp hfs'
      exact Fragments.allInOrder_cut (horder fs rfl) (hle fs rfl)

/-- **Run.** The loop of a user whose stretches have no message before the first one gets through,
and casts no negative number. -/
theorem exists_run (hu : u.Placed hash) (horder : AllInOrder ((u.stamps ++ ss).foldl cutTo none))
    (hrange : ∀ s ∈ ss, InRange s.date) :
    ∃ v, (userLoop hash).run u ss = some v ∧ v.Placed hash ∧ v.stamps = u.stamps ++ ss ∧
      (userLoop hash).Along (NonnegCast hash) u ss := by
  induction ss generalizing u with
  | nil => exact ⟨u, rfl, hu, (List.append_nil _).symm, trivial⟩
  | cons s ss ih =>
    obtain ⟨hs, hss⟩ := List.forall_mem_cons.mp hrange
    rw [List.append_cons] at horder
    have hlater : u.Later s := by
      rw [later_iff hu]
      intro fs hfs
      by_contra hlt
      have hnext : AllInOrder ((u.stamps ++ [s]).foldl cutTo none) := by
        rw [List.foldl_append] at horder
        exact Fragments.allInOrder_of_foldl horder
      rw [foldl_concat, Option.mem_def.mp hfs] at hnext
      exact Fragments.not_allInOrder_cut (Int.not_le.mp hlt) (hnext _ rfl)
    obtain ⟨w, hstep, hplaced, hstamps⟩ := exists_step hu hlater hs
    rw [← hstamps] at horder
    obtain ⟨v, hrun, hv, hvs, hcast⟩ := ih hplaced horder hss
    refine ⟨v, ?_, hv, ?_, ?_⟩
    · rw [System.run_cons]
      exact (congrArg (Option.bind · _) hstep).trans hrun
    · rw [hvs, hstamps, ← List.append_cons]
    · exact (System.along_cons hstep).mpr ⟨nonnegCast_of_later hlater, hcast⟩

end Seen

/-! ### Conversations -/

section

variable {c : Conversation} {user : UserId} {users : AList fun _ : UserId => ProcStats}

/-- The loop of a user in a conversation that is gone through. -/
theorem exists_seen (husers : processMessages c.hash ∅ 0 c.messages = some users) (user : UserId) :
    (userLoop c.hash).run Seen.init (stampsOf user 0 c.messages) =
      some ⟨users.lookup user, stampsOf user 0 c.messages⟩ := by
  rw [← run_loop] at husers
  obtain ⟨⟨users', i⟩, hrun, rfl⟩ := Option.map_eq_some_iff.mp husers
  have hproject := run_userLoop hrun user []
  rwa [AList.lookup_empty] at hproject

/-- The code has gone an hour back from every message. -/
theorem inRange_of_processMessages (husers : processMessages c.hash ∅ 0 c.messages = some users) :
    ∀ m ∈ c.messages, InRange m.date := by
  rw [← run_loop] at husers
  obtain ⟨l, hrun, -⟩ := Option.map_eq_some_iff.mp husers
  exact inRange_of_run_loop hrun

theorem inRange_of_mem_stampsOf (hrange : ∀ m ∈ c.messages, InRange m.date) :
    ∀ s ∈ stampsOf user 0 c.messages, InRange s.date := by
  intro s hs
  obtain ⟨j, m, hm, -, -, hdate⟩ := mem_stampsOf.mp hs
  rw [hdate]
  exact hrange m (List.mem_of_getElem? hm)

/-- **Loop.** The loop over messages none of which is before the first one of its stretch gets
through, and counts the stretches of each user. -/
theorem exists_loop (hrange : ∀ m ∈ c.messages, InRange m.date)
    (horder : ∀ user, AllInOrder (cuts user c.messages)) :
    ∃ l, (loop c.hash).run (∅, 0) c.messages = some l ∧
      (loop c.hash).Along (Loop.NonnegCast c.hash) (∅, 0) c.messages ∧
      ∀ user, Option.Rel (Fragments.Placed c.hash) (l.1.lookup user) (cuts user c.messages) := by
  have huser (user : UserId) : ∃ u, (userLoop c.hash).run Seen.init (stampsOf user 0 c.messages) =
      some u ∧ u.Placed c.hash ∧ (userLoop c.hash).Along (Seen.NonnegCast c.hash) Seen.init
        (stampsOf user 0 c.messages) := by
    obtain ⟨u, hrun, hplaced, -, hcast⟩ := Seen.exists_run Seen.placed_init (horder user)
      (inRange_of_mem_stampsOf hrange)
    exact ⟨u, hrun, hplaced, hcast⟩
  obtain ⟨l, hl⟩ : ∃ l, (loop c.hash).run (∅, 0) c.messages = some l := by
    refine exists_run_loop (fun _ => []) hrange fun user => ?_
    obtain ⟨u, hrun, -⟩ := huser user
    rw [AList.lookup_empty]
    exact ⟨u, hrun⟩
  refine ⟨l, hl, (along_loop_iff (fun _ => []) hl).mpr fun user => ?_, fun user => ?_⟩
  · obtain ⟨u, -, -, hcast⟩ := huser user
    rw [AList.lookup_empty]
    exact hcast
  · obtain ⟨u, hrun, hplaced, -⟩ := huser user
    have husers : processMessages c.hash ∅ 0 c.messages = some l.1 := by
      rw [← run_loop, hl, Option.map_some]
    obtain rfl := Option.some_inj.mp (hrun.symm.trans (exists_seen husers user))
    exact hplaced

end

end SignalSim.SamExtractor
