import Mathlib.Data.List.AList
import Mathlib.Algebra.Order.Ring.Int
import SignalSim.Foundations.Text

/-!
# Extracting minute counters from conversations

`lib.rs` and `extract.rs` of the extractor. Each user of a conversation gets a list of runs:
histograms of the user's messages per minute, cut where the user was silent for two hours and
padded with an hour of zeros on both ends. The runs of a user from all conversations go into one
file, as four lines of comma-separated numbers.

Dates and durations are nanoseconds. A function that can panic returns `none` if it does; the
counters wrap around. A hash map is an association list without duplicate keys.

## Main definitions

* `Conversation`, `DataRun`, `UserStats` — the data
* `processConversation` — the runs of all users of a conversation
* `extract` — the runs of all users of all conversations
* `logCounters` — the file of a user
-/

namespace SignalSim.SamExtractor

/-! ### Times -/

/-- `Duration::MINUTE`, in nanoseconds. -/
def minute : ℤ := 60000000000

/-- `Duration::HOUR`. -/
def hour : ℤ := 60 * minute

/-- The earliest `OffsetDateTime`, in nanoseconds since the epoch: the year -9999. -/
def minTime : ℤ := -377705116800000000000

/-- The latest `OffsetDateTime`: the year 9999. -/
def maxTime : ℤ := 253402300799999999999

/-- A date plus a duration; panics if there is no such date. -/
def addTime (t d : ℤ) : Option ℤ :=
  if minTime ≤ t + d ∧ t + d ≤ maxTime then some (t + d) else none

/-- `whole_minutes()`, which rounds towards zero. -/
def wholeMinutes (d : ℤ) : ℤ := d.tdiv minute

/-- The cast of an `i64` to `usize`. -/
def asUsize (x : ℤ) : ℕ := (x % UInt64.size).toNat

theorem addTime_eq_some {t d u : ℤ} :
    addTime t d = some u ↔ (minTime ≤ t + d ∧ t + d ≤ maxTime) ∧ t + d = u := by
  rw [addTime, Option.ite_none_right_eq_some, Option.some_inj]

/-- The dates from which the code can go an hour back. -/
def InRange (date : ℤ) : Prop := minTime ≤ date - hour ∧ date - hour ≤ maxTime

/-- The whole minutes from one date to a later one. -/
def minutesAfter (first date : ℤ) : ℕ := ((date - first) / minute).toNat

section

variable {first date later d : ℤ} {n : ℕ}

theorem minute_pos : 0 < minute := by decide

theorem wholeMinutes_sub (h : first ≤ date) :
    wholeMinutes (date - first) = minutesAfter first date := by
  have hd : 0 ≤ date - first := Int.sub_nonneg_of_le h
  rw [wholeMinutes, minutesAfter, Int.tdiv_eq_ediv_of_nonneg hd,
    Int.toNat_of_nonneg (Int.ediv_nonneg hd minute_pos.le)]

/-- Less than a minute back is no minute. -/
theorem wholeMinutes_nonneg_iff : 0 ≤ wholeMinutes d ↔ -minute < d := by
  rw [wholeMinutes]
  rcases Int.le_total 0 d with hd | hd
  · have hpos := minute_pos
    exact ⟨fun _ => by omega, fun _ => Int.tdiv_nonneg hd hpos.le⟩
  · have hneg : 0 ≤ -d := Int.neg_nonneg_of_nonpos hd
    have hlt : -d / minute < 1 ↔ -d < 1 * minute := Int.ediv_lt_iff_lt_mul minute_pos
    rw [← Int.neg_neg d, Int.neg_tdiv, Int.tdiv_eq_ediv_of_nonneg hneg]
    omega

theorem wholeMinutes_lt_iff (hn : 0 < n) : wholeMinutes d < n ↔ d < n * minute := by
  rw [wholeMinutes]
  rcases Int.le_total 0 d with hd | hd
  · rw [Int.tdiv_eq_ediv_of_nonneg hd, Int.ediv_lt_iff_lt_mul minute_pos]
  · have hneg : 0 ≤ -d := Int.neg_nonneg_of_nonpos hd
    have hdiv := Int.ediv_nonneg hneg minute_pos.le
    have hmul : 0 < n * minute := Int.mul_pos (Int.natCast_pos.mpr hn) minute_pos
    rw [← Int.neg_neg d, Int.neg_tdiv, Int.tdiv_eq_ediv_of_nonneg hneg]
    omega

/-- A date is less than `n` minutes away if it is before that time. -/
theorem minutesAfter_lt_iff (h : first ≤ date) :
    minutesAfter first date < n ↔ date < first + n * minute := by
  rw [← Int.ofNat_lt, ← wholeMinutes_sub h, wholeMinutes,
    Int.tdiv_eq_ediv_of_nonneg (Int.sub_nonneg_of_le h), Int.ediv_lt_iff_lt_mul minute_pos]
  omega

theorem le_minutesAfter_iff (h : first ≤ date) :
    n ≤ minutesAfter first date ↔ first + n * minute ≤ date := by
  rw [← Nat.not_lt, minutesAfter_lt_iff h, Int.not_lt]

@[simp] theorem minutesAfter_self : minutesAfter date date = 0 := by
  simp [minutesAfter]

theorem minutesAfter_mono (h : date ≤ later) : minutesAfter first date ≤ minutesAfter first later :=
  Int.toNat_le_toNat (Int.ediv_le_ediv minute_pos (Int.sub_le_sub_right h first))

/-- An hour earlier is 60 minutes more. -/
theorem minutesAfter_sub_hour (h : first ≤ date) :
    minutesAfter (first - hour) date = 60 + minutesAfter first date := by
  have hd : 0 ≤ (date - first) / minute := Int.ediv_nonneg (Int.sub_nonneg_of_le h) minute_pos.le
  have hsplit : date - (first - hour) = date - first + 60 * minute := by
    rw [hour]
    omega
  rw [minutesAfter, hsplit, Int.add_mul_ediv_right _ _ minute_pos.ne', minutesAfter]
  omega

theorem asUsize_natCast (h : n < UInt64.size) : asUsize n = n := by
  rw [asUsize, Int.emod_eq_of_lt (Int.natCast_nonneg n) (Int.ofNat_lt.mpr h), Int.toNat_natCast]

/-- Dates that can be moved an hour back are far less than `2 ^ 64` minutes apart. -/
theorem minutesAfter_lt_size (hfirst : minTime ≤ first) (hdate : date ≤ maxTime + hour) :
    minutesAfter first date + 121 < UInt64.size := by
  have hspan : date - first ≤ maxTime + hour - minTime := Int.sub_le_sub hdate hfirst
  have hle := Int.toNat_le_toNat (Int.ediv_le_ediv minute_pos hspan)
  exact Nat.lt_of_le_of_lt (Nat.add_le_add_right hle 121) (by decide)

/-- The minute of a message as the code computes it. -/
theorem asUsize_wholeMinutes (h : first ≤ date) (hfirst : minTime ≤ first)
    (hdate : date ≤ maxTime + hour) :
    asUsize (wholeMinutes (date - first)) = minutesAfter first date := by
  rw [wholeMinutes_sub h]
  exact asUsize_natCast (Nat.lt_of_add_right_lt (minutesAfter_lt_size hfirst hdate))

end

/-! ### Data -/

abbrev UserId := Int32

structure Message where
  date : ℤ
  user : UserId
  deriving DecidableEq

/-- The messages come from a map with keys of 32 bits, in the order of the keys. -/
structure Conversation where
  hash : Int32
  dateLastMessage : ℤ
  /-- A number with a fraction in the file, cut off and cast. -/
  userCount : UInt64
  messages : List Message
  length_le : messages.length ≤ UInt32.size

/-- A histogram of messages per minute, separated by an hour of zeros on both ends, with data
that identifies the run. -/
structure DataRun where
  conversationId : Int32
  firstMessage : ℕ
  minuteCounters : List UInt16
  deriving DecidableEq

/-- All of the runs associated with the user. -/
structure UserStats where
  user : UserId
  dataRuns : List DataRun
  deriving DecidableEq

/-- The most counters that a vector can have, `isize::MAX` bytes of them. -/
def maxCounters : ℕ := 4611686018427387903

/-- `counters.append(&mut vec![0; n])`, which panics if the capacity overflows. -/
def appendZeros (counters : List UInt16) (n : ℕ) : Option (List UInt16) :=
  if counters.length + n ≤ maxCounters then some (counters ++ List.replicate n 0) else none

/-! ### `process_conversation` -/

/-- What is known of a user. The last of the `data_runs`, which is being filled, is apart. -/
structure ProcStats where
  start : ℤ
  last : ℤ
  closedRuns : List DataRun
  dataRun : DataRun

/-- A run that starts with the given message. -/
def DataRun.openAt (hash : Int32) (firstMessage : ℕ) : DataRun :=
  ⟨hash, firstMessage, List.replicate 60 0⟩

/-- 0-fill the counters up to a minute. -/
def fillTo (counters : List UInt16) (messageMinute : ℕ) : Option (List UInt16) :=
  if counters.length ≤ messageMinute then
    appendZeros counters (1 + messageMinute - counters.length)
  else some counters

/-- Count a message in its minute. -/
def DataRun.countMinute (run : DataRun) (messageMinute : ℕ) : Option DataRun := do
  let counters ← fillTo run.minuteCounters messageMinute
  return { run with minuteCounters := counters.modify messageMinute (· + 1) }

/-- Append zeros to the end of a run. -/
def DataRun.pad (run : DataRun) (n : ℕ) : Option DataRun := do
  let counters ← appendZeros run.minuteCounters n
  return { run with minuteCounters := counters }

theorem appendZeros_eq_some {counters counters' : List UInt16} {n : ℕ}
    (h : appendZeros counters n = some counters') : counters' = counters ++ List.replicate n 0 := by
  obtain ⟨-, h⟩ := Option.ite_none_right_eq_some.mp h
  exact (Option.some_inj.mp h).symm

theorem DataRun.pad_eq_some {run run' : DataRun} {n : ℕ} (h : run.pad n = some run') :
    run' = { run with minuteCounters := run.minuteCounters ++ List.replicate n 0 } := by
  obtain ⟨counters, hc, hrun⟩ := Option.bind_eq_some_iff.mp h
  obtain rfl := Option.some_inj.mp hrun
  rw [appendZeros_eq_some hc]

theorem DataRun.countMinute_eq_some {run run' : DataRun} {m : ℕ}
    (h : run.countMinute m = some run') :
    run' = { run with
      minuteCounters :=
        (run.minuteCounters ++ List.replicate (1 + m - run.minuteCounters.length) 0).modify m
          (· + 1) } := by
  obtain ⟨counters, hc, hrun⟩ := Option.bind_eq_some_iff.mp h
  obtain rfl := Option.some_inj.mp hrun
  unfold fillTo at hc
  split at hc
  · rw [appendZeros_eq_some hc]
  · -- nothing to fill
    have hlen : 1 + m - run.minuteCounters.length = 0 := by omega
    rw [hlen, List.replicate_zero, List.append_nil, Option.some_inj.mp hc]

/-- There is room for the minutes between any two dates. -/
theorem minutesAfter_le_maxCounters {first date : ℤ} (hfirst : minTime ≤ first)
    (hdate : date ≤ maxTime + hour) : minutesAfter first date + 200 ≤ maxCounters := by
  have hspan : date - first ≤ maxTime + hour - minTime := Int.sub_le_sub hdate hfirst
  have hle := Int.toNat_le_toNat (Int.ediv_le_ediv minute_pos hspan)
  exact Nat.le_trans (Nat.add_le_add_right hle 200) (by decide)

theorem pad_isSome {run : DataRun} {n : ℕ} (h : run.minuteCounters.length + n ≤ maxCounters) :
    (run.pad n).isSome := by
  rw [DataRun.pad, appendZeros, if_pos h]
  rfl

theorem countMinute_isSome {run : DataRun} {j : ℕ} (h : 1 + j ≤ maxCounters) :
    (run.countMinute j).isSome := by
  unfold DataRun.countMinute fillTo
  split
  case isTrue hle =>
    rw [appendZeros, if_pos (by omega)]
    rfl
  case isFalse => rfl

/-- A message of the user at index `i`. -/
def ProcStats.add (stats : ProcStats) (hash : Int32) (i : ℕ) (message : Message) :
    Option ProcStats :=
  let messageMinute := asUsize (wholeMinutes (message.date - stats.start))
  if stats.dataRun.minuteCounters.length + 120 < messageMinute then do
    -- an hour of no messages ends the last run, and an hour before the message starts a new one
    let closed ← stats.dataRun.pad 60
    let start ← addTime message.date (-hour)
    let run ← (DataRun.openAt hash i).countMinute 60
    return ⟨start, message.date, stats.closedRuns ++ [closed], run⟩
  else do
    let run ← stats.dataRun.countMinute messageMinute
    return { stats with last := message.date, dataRun := run }

/-- The loop over the messages, from index `i` on. -/
def processMessages (hash : Int32) (users : AList fun _ : UserId => ProcStats) (i : ℕ) :
    List Message → Option (AList fun _ : UserId => ProcStats)
  | [] => some users
  | message :: messages => do
    -- the argument of `or_insert` is evaluated for every message
    let start ← addTime message.date (-hour)
    let stats := (users.lookup message.user).getD ⟨start, message.date, [], .openAt hash i⟩
    -- a new entry is filled by the same code as an old one: its first minute is 60
    let stats ← stats.add hash i message
    processMessages hash (users.insert message.user stats) (i + 1) messages

/-- 0-fill another hour or up to the end of the conversation. -/
def ProcStats.finish (stats : ProcStats) (dateLastMessage : ℤ) : Option (List DataRun) := do
  let limit ← addTime stats.last hour
  -- the end of the conversation may come before the hour is over
  let toFill := min limit dateLastMessage - stats.last
  let lastRun ← stats.dataRun.pad (asUsize (wholeMinutes toFill))
  return stats.closedRuns ++ [lastRun]

/-- The runs of a user who has sent a message. -/
def finishUser (dateLastMessage : ℤ) (user : Σ _ : UserId, ProcStats) : Option UserStats := do
  let dataRuns ← user.2.finish dateLastMessage
  return ⟨user.1, dataRuns⟩

/-- The largest capacity of the map from users to their `ProcStats`. Its table has a power of two
of buckets, of which it leaves an eighth free, with 64 bytes in each and `isize::MAX` at most. -/
def maxEntries : ℕ := 7 * 2 ^ 53

/-- `HashMap::with_capacity`, which panics if the capacity overflows. -/
def withCapacity (capacity : UInt64) : Option (AList fun _ : UserId => ProcStats) :=
  if capacity.toNat ≤ maxEntries then some ∅ else none

def processConversation (conversation : Conversation) : Option (List UserStats) := do
  let users ← withCapacity conversation.userCount
  -- every user of the conversation gets an entry with the user's first message
  let users ← processMessages conversation.hash users 0 conversation.messages
  users.entries.mapM (finishUser conversation.dateLastMessage)

theorem processConversation_eq_some {c : Conversation} {all : List UserStats} :
    processConversation c = some all ↔ c.userCount.toNat ≤ maxEntries ∧
      ∃ users, processMessages c.hash ∅ 0 c.messages = some users ∧
        users.entries.mapM (finishUser c.dateLastMessage) = some all := by
  simp only [processConversation, Option.bind_eq_bind, Option.bind_eq_some_iff, withCapacity,
    Option.ite_none_right_eq_some, Option.some_inj]
  constructor
  · rintro ⟨_, ⟨hcount, rfl⟩, hrest⟩
    exact ⟨hcount, hrest⟩
  · rintro ⟨hcount, hrest⟩
    exact ⟨_, ⟨hcount, rfl⟩, hrest⟩

/-! ### The program -/

/-- Append the runs to those of the user so far. -/
def appendRuns (users : AList fun _ : UserId => List DataRun) (stats : UserStats) :
    AList fun _ : UserId => List DataRun :=
  users.insert stats.user ((users.lookup stats.user).getD [] ++ stats.dataRuns)

/-- The runs of each user, in the order of the conversations. -/
def collectUsers (allStats : List UserStats) : AList fun _ : UserId => List DataRun :=
  allStats.foldl appendRuns ∅

/-- The groups of each size, `vec![0; 256]`; a larger size is out of bounds. -/
def groupSizeHistogram (conversations : List Conversation) : Option (List ℕ) :=
  if conversations.all (·.userCount.toNat < 256) then
    some ((List.range 256).map fun size => conversations.countP (·.userCount.toNat = size))
  else none

def extract (conversations : List Conversation) :
    Option (AList fun _ : UserId => List DataRun) := do
  -- only printed
  let _histogram ← groupSizeHistogram conversations
  let allStats ← conversations.mapM processConversation
  return collectUsers allStats.flatten

theorem extract_eq_some {conversations : List Conversation}
    {users : AList fun _ : UserId => List DataRun} (h : extract conversations = some users) :
    ∃ allStats, conversations.mapM processConversation = some allStats ∧
      collectUsers allStats.flatten = users := by
  obtain ⟨histogram, -, h⟩ := Option.bind_eq_some_iff.mp h
  obtain ⟨allStats, hall, h⟩ := Option.bind_eq_some_iff.mp h
  exact ⟨allStats, hall, Option.some_inj.mp h⟩

/-- `format_list`. -/
def formatList (items : List Text) : Text := Text.line (Text.commaSeparated items)

/-- What `log_counters` writes to the file of a user. -/
def logCounters (dataRuns : List DataRun) : Text :=
  formatList ((dataRuns.flatMap (·.minuteCounters)).map fun c => Text.ofNat c.toNat) ++
    formatList (dataRuns.map fun r => Text.ofNat r.minuteCounters.length) ++
    formatList (dataRuns.map fun r => Text.ofInt r.conversationId.toInt) ++
    formatList (dataRuns.map fun r => Text.ofNat r.firstMessage)

end SignalSim.SamExtractor
