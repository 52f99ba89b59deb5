import Mathlib.Algebra.Group.Nat.Defs
import Mathlib.Data.List.ReduceOption
import SignalSim.Foundations.Entry
import SignalSim.Foundations.Floating
import SignalSim.Foundations.Text

/-!
# Statistics of the logs

What `mgentools` takes from the log files of the clients: `process_log` reads one file into the two
tables of the messages sent and of the running values, and then writes a statistic for every entry
of the second table; `core` reads one file after the other. Times, fractions and means are
floating-point numbers, of whatever arithmetic; the counters are machine integers that wrap around.

The files are open and their records split; a record that is not one of the expected form is
`none`. After a failure the output files are left without their ends, and here without anything.

## Main definitions

* `Record.action` — what a record reports
* `processRecord`, `processLog`, `core`
-/

namespace SignalSim.Mgentools

section

variable {F : Type} [Floating F]

/-- `TIMEOUT`, in seconds. -/
def timeout : F := (30 : ℕ)

end

/-- A record from the log file. -/
structure Record (F : Type) where
  time : F
  user : Text
  group : Text
  actionData : List Text
  deriving DecidableEq

/-- A conversation of a user: the user and the group. -/
abbrev Member := Text × Text

/-- The running values of a user and a group. -/
structure RunningValue (F : Type) where
  sentCount : UInt32
  sentTimeout : UInt32
  incomingReceiptCount : UInt32
  outgoingReceiptCount : UInt32
  receiptTimeout : UInt32
  runningRttMean : F
  deriving DecidableEq

/-- When a user starts sending messages back to a group. -/
abbrev BootstrapTable (F : Type) := AList fun _ : Member => F

/-- The elements written to the output files. -/
structure Serializers (F : Type) where
  rttAll : List F
  rttTimeout : List F
  rttMean : List F
  sentCount : List UInt32
  timeoutBySend : List F
  timeoutByReceive : List F

/-- Nothing is written yet. -/
def Serializers.empty {F : Type} : Serializers F := ⟨[], [], [], [], [], []⟩

/-- How reading the logs can stop. -/
inductive Stop
  /-- A record has fewer fields than its action needs. -/
  | index
  /-- The number of a message cannot be parsed. -/
  | parse
  /-- The bootstrap table has no time for the sender of a receipt. -/
  | key
  /-- There are timeouts without receipts. -/
  | assertion
  deriving DecidableEq

/-! ### Records -/

/-- What a record reports. -/
inductive Action
  | send (id : ℕ)
  | receipt (sender : Text) (id : ℕ)
  | other
  deriving DecidableEq

/-- An element of the action's fields. -/
def index (data : List Text) (i : ℕ) : Except Stop Text :=
  data[i]?.elim (.error .index) .ok

/-- The number of a message. -/
def parseId (t : Text) : Except Stop ℕ :=
  (Text.parseNat (2 ^ 32) t).elim (.error .parse) .ok

variable {F : Type}

/-- What the fields of a record say. -/
def Record.action (r : Record F) : Except Stop Action := do
  let verb ← index r.actionData 0
  if verb = "send".toList then
    let id ← parseId (← index r.actionData 4)
    return .send id
  else if verb = "receive".toList then
    if (← index r.actionData 4) ≠ "receipt".toList then return .other
    let sender ← index r.actionData 3
    let id ← parseId (← index r.actionData 5)
    return .receipt sender id
  else
    return .other

/-- The conversation a record is about. -/
def Record.member (r : Record F) : Member := (r.user, r.group)

/-! ### Running values -/

namespace RunningValue

variable [Floating F]

def zero : RunningValue F := ⟨0, 0, 0, 0, 0, 0⟩

/-- The value inserted for the first message of a conversation. -/
def first : RunningValue F := ⟨1, 0, 0, 0, 0, 0⟩

/-- One more message. -/
def send (v : RunningValue F) : RunningValue F := { v with sentCount := v.sentCount + 1 }

/-- One more receipt for a message of the conversation. -/
def incoming (rtt : F) (v : RunningValue F) : RunningValue F :=
  let count := v.incomingReceiptCount + 1
  { v with
    incomingReceiptCount := count
    sentTimeout := if timeout < rtt then v.sentTimeout + 1 else v.sentTimeout
    runningRttMean := v.runningRttMean + (rtt - v.runningRttMean) / (count.toNat : F) }

/-- One more receipt from the conversation. -/
def outgoing (rtt : F) (v : RunningValue F) : RunningValue F :=
  { v with
    outgoingReceiptCount := v.outgoingReceiptCount + 1
    receiptTimeout := if timeout < rtt then v.receiptTimeout + 1 else v.receiptTimeout }

end RunningValue

/-! ### Reading a file -/

/-- The two tables of `process_log`, and what it has written. -/
structure LogState (F : Type) where
  sentTimes : AList fun _ : Member × ℕ => F
  runningValues : AList fun _ : Member => RunningValue F
  serializers : Serializers F

namespace LogState

def values (s : LogState F) : List (RunningValue F) := s.runningValues.entries.map (·.2)

variable [Floating F]

/-- A message is sent. -/
def send (member : Member) (id : ℕ) (time : F) (s : LogState F) : LogState F :=
  { s with
    sentTimes := s.sentTimes.insert (member, id) time
    runningValues :=
      Entry.orInsert member .first (Entry.andModify member .send s.runningValues) }

/-- A receipt of the sender arrives after a time `rtt`. -/
def receipt (member sender : Member) (rtt : F) (s : LogState F) : LogState F :=
  { s with
    runningValues :=
      Entry.andModify sender (.outgoing rtt)
        (Entry.orInsert sender .zero (Entry.andModify member (.incoming rtt) s.runningValues))
    serializers :=
      { s.serializers with
        rttAll := s.serializers.rttAll ++ [rtt]
        rttTimeout := s.serializers.rttTimeout ++ if rtt ≤ timeout then [rtt] else [] } }

end LogState

section Process

variable [Floating F] (filterTime : F) (table : BootstrapTable F)

/-- One record that is not bad. -/
def processRecord (s : LogState F) (r : Record F) : Except Stop (LogState F) := do
  if r.time ≤ filterTime then return s
  match ← r.action with
  | .send id => return s.send r.member id r.time
  | .receipt sender id =>
    let bootstrapTime ← (table.lookup (sender, r.group)).elim (.error .key) .ok
    match s.sentTimes.lookup (r.member, id) with
    | none => return s
    | some sentTime =>
      -- the message was sent while the recipient was still bootstrapping
      if bootstrapTime > sentTime then return s
      return s.receipt r.member (sender, r.group) (r.time - sentTime)
  | .other => return s

/-- The loop over the results of the reader, which skips what is bad. -/
def readLog (s : LogState F) (results : List (Option (Record F))) :
    Except Stop (LogState F) :=
  results.reduceOption.foldlM (processRecord filterTime table) s

/-- The fraction of timeouts, if there are receipts; without them the two must be equal. -/
def fraction (timeouts receipts : UInt32) : Except Stop (List F) :=
  if receipts ≠ 0 then .ok [(timeouts.toNat : F) / (receipts.toNat : F)]
  else if timeouts = receipts then .ok []
  else .error .assertion

/-- What is written for an entry. -/
def writeValue (s : Serializers F) (v : RunningValue F) : Except Stop (Serializers F) := do
  let bySend ← fraction v.sentTimeout v.incomingReceiptCount
  let byReceive ← fraction v.receiptTimeout v.outgoingReceiptCount
  return { s with
    rttMean := s.rttMean ++ [v.runningRttMean]
    sentCount := s.sentCount ++ [v.sentCount]
    timeoutBySend := s.timeoutBySend ++ bySend
    timeoutByReceive := s.timeoutByReceive ++ byReceive }

/-- `process_log`. -/
def processLog (serializers : Serializers F) (results : List (Option (Record F))) :
    Except Stop (Serializers F) := do
  let s ← readLog filterTime table ⟨∅, ∅, serializers⟩ results
  s.values.foldlM writeValue s.serializers

/-- The files of `core` one after the other. -/
def core (logs : List (List (Option (Record F)))) : Except Stop (Serializers F) :=
  logs.foldlM (processLog filterTime table) .empty

end Process

end SignalSim.Mgentools
