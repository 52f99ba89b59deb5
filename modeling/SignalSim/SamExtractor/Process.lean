import SignalSim.SamExtractor.Extract

/-!
# Labelling messages with states

The part of `process.rs` that reads the file of a user, to which the hidden Markov model has added
a line with one state for each counter, and labels the messages of the user's conversations.

A function that can panic returns `none` if it does. `received_messages` panics where it would
be less than zero.

## Main definitions

* `parseStatsFile` — the runs and the states of a user
* `determineState`, `differentRun`, `isTransition` — how a message is labelled
* `labelDataRun` — the pass of the outer loop of `stats_to_labeled` for one run
* `statsToLabeled` — the labelled messages and the count of messages received while idle
-/

namespace SignalSim.SamExtractor

/-! ### Data -/

inductive Direction
  | sent
  | received
  deriving DecidableEq

inductive State
  | idle
  | active
  deriving DecidableEq

structure LabeledMessage where
  state : State
  /-- True iff the last sent message is from an ongoing Active state. -/
  continuing : Bool
  lastMessage : Direction
  /-- True iff the last message is not from an ongoing Active state. -/
  idleSent : Bool
  iit : ℤ
  sentIit : Option ℤ
  deriving DecidableEq

/-- The runs of a user, with the state guesses. -/
structure Stats where
  userStats : UserStats
  states : List State

/-- `&xs[i..j]`. -/
def slice {α : Type*} (xs : List α) (i j : ℕ) : Option (List α) :=
  if i ≤ j ∧ j ≤ xs.length then some ((xs.take j).drop i) else none

/-! ### The file -/

def parseState (s : Text) : State := if s = ['0'] then .idle else .active

/-- The loop over `lens`, with the counters from `index` on still to be taken. -/
def parseDataRuns (concatMinuteCounters : List UInt16) (index : ℕ) :
    List Text → List Text → List Text → Option (List DataRun)
  | [], _, _ => some []
  -- `next().unwrap()` for every length: the other lists may be longer but not shorter
  | _ :: _, [], _ => none
  | _ :: _, _ :: _, [] => none
  | len :: lens, convo :: convos, first :: firstMessages => do
    let len ← Text.parseNat UInt64.size len
    let minuteCounters ← slice concatMinuteCounters index (index + len)
    let conversationId ← Text.parseInt 2147483648 convo
    let firstMessage ← Text.parseNat UInt64.size first
    let dataRuns ← parseDataRuns concatMinuteCounters (index + len) lens convos firstMessages
    return ⟨.ofInt conversationId, firstMessage, minuteCounters⟩ :: dataRuns

def parseStatsFile (user : UserId) (data : Text) : Option Stats :=
  match Text.lines data with
  | counters :: lens :: convos :: firstMessages :: states :: _ => do
    let counters ← (Text.fields counters).mapM (Text.parseNat UInt16.size)
    let dataRuns ← parseDataRuns (counters.map UInt16.ofNat) 0 (Text.fields lens)
      (Text.fields convos) (Text.fields firstMessages)
    return ⟨⟨user, dataRuns⟩, (Text.fields states).map parseState⟩
  | _ => none

/-! ### States -/

/-- A loop over minutes that ends at the first one that is idle or has a message. -/
def scanMinutes {α : Type} (atIdle atMessage atEnd : α) (counters : List UInt16)
    (states : List State) : List ℕ → Option α
  | [] => some atEnd
  | i :: is => do
    let state ← states[i]?
    if state = .idle then return atIdle
    let counter ← counters[i]?
    if 0 < counter then return atMessage
    scanMinutes atIdle atMessage atEnd counters states is

/-- The loop over the minutes before a message: whether it returns Idle. -/
def idleBefore : List UInt16 → List State → List ℕ → Option Bool := scanMinutes true false false

/-- The loop over the minutes after a message, and what is returned behind it. -/
def stateAfter : List UInt16 → List State → List ℕ → Option State :=
  scanMinutes .idle .active .idle

/-- Returns Idle iff the message at the index is labeled by the HMM data as Idle, or if all
other sent messages are separated by at least one idle period. -/
def determineState (counters : List UInt16) (states : List State) (idx : ℕ) : Option State := do
  let state ← states[idx]?
  if state = .idle then return .idle
  let counter ← counters[idx]?
  if 1 < counter then return .active
  let idle ← idleBefore counters states (List.range idx).reverse
  if idle then return .idle
  stateAfter counters states (List.range' (idx + 1) (states.length - (idx + 1)))

/-- Returns True iff the two messages are NOT part of the same Active state. -/
def differentRun (states : List State) (idx1 idx2 : ℕ) : Option Bool := do
  let between ← slice states idx1 idx2
  return between.any (· = .idle)

/-- Returns True iff the last message is not part of an ongoing Active state. -/
def isTransition (states : List State) (idx : ℕ) (lastMsgMinute : ℤ) : Option Bool := do
  let state ← states[idx]?
  -- whole minutes round towards zero: a message up to a minute before the run is in minute 0
  if state = .idle ∨ lastMsgMinute < 0 then return true
  differentRun states (asUsize lastMsgMinute) idx

/-! ### `stats_to_labeled` -/

/-- What `stats_to_labeled` knows of a run when it comes to the messages: the counters without
the leading and trailing zeros, with their states, and the messages of the conversation. -/
structure RunView where
  minutes : List UInt16
  states : List State
  messages : List Message
  firstMessage : ℕ
  firstMsgDate : ℤ
  finalMsgDate : ℤ

/-- What the loop over the messages of a run changes. -/
structure LabelLoop where
  labeledMessages : List LabeledMessage
  receivedMessages : ℕ
  prevSentTime : Option ℤ
  prevSentMinuteIdx : Option ℕ

/-- The counters without the fake leading and trailing 0s. -/
def trimZeros (minuteCounters : List UInt16) : Option (List UInt16) :=
  -- `split_at(60)`
  if minuteCounters.length < 60 then none
  else
    let zeros := minuteCounters.take 60
    let minutes := minuteCounters.drop 60
    -- `assert_eq!(zeros, [0; 60])`
    if zeros ≠ List.replicate 60 0 then none
    else do
      -- there is no position to unwrap if all counters are zero
      let position ← minutes.reverse.findIdx? (0 < ·)
      let trailing := minutes.drop (minutes.length - position)
      -- the second assertion takes its zeros from an array of 60
      let expected ← slice (List.replicate 60 0) 0 trailing.length
      if trailing ≠ expected then none
      else some (minutes.take (minutes.length - position))

/-- The part of the pass for a run before the messages, with the labels of the run from `i`
on. -/
def viewDataRun (states : List State) (conversations : AList fun _ : Int32 => Conversation)
    (i : ℕ) (dataRun : DataRun) : Option RunView := do
  let minutes ← trimZeros dataRun.minuteCounters
  let lower := i + 60
  let upper := lower + minutes.length
  let states ← slice states lower upper
  let conversation ← conversations.lookup dataRun.conversationId
  let firstMsg ← conversation.messages[dataRun.firstMessage]?
  let finalMsgDate ← addTime firstMsg.date (states.length * minute)
  return {
    minutes, states
    messages := conversation.messages
    firstMessage := dataRun.firstMessage
    firstMsgDate := firstMsg.date
    finalMsgDate }

/-- Whether the message is part of the same Active state as the last one the user sent. -/
def isContinuing (states : List State) (prevSentMinuteIdx : Option ℕ) (minuteIdx : ℕ) :
    Option Bool :=
  match prevSentMinuteIdx with
  | some idx2 => (differentRun states idx2 minuteIdx).map (!·)
  | none => some false

/-- `minute_idx`. -/
def RunView.minuteIdx (view : RunView) (msg : Message) : ℕ :=
  asUsize (wholeMinutes (msg.date - view.firstMsgDate))

/-- The label of a message sent by the user, the one before it being `lastMsg`. -/
def labelSent (view : RunView) (prevSentTime : Option ℤ) (prevSentMinuteIdx : Option ℕ)
    (lastMsg msg : Message) : Option LabeledMessage := do
  let minuteIdx := view.minuteIdx msg
  let state ← determineState view.minutes view.states minuteIdx
  let lastMessage := if lastMsg.user = msg.user then .sent else .received
  let lastMsgMinute := wholeMinutes (lastMsg.date - view.firstMsgDate)
  let transition ← isTransition view.states minuteIdx lastMsgMinute
  let iit := msg.date - lastMsg.date
  let continuing ← isContinuing view.states prevSentMinuteIdx minuteIdx
  let sentIit := prevSentTime.map fun date => msg.date - date
  return { state, continuing, lastMessage, idleSent := transition, iit, sentIit }

/-- A message received by the user counts out of the idle ones if its minute is Active. -/
def countReceived (view : RunView) (msg : Message) (loop : LabelLoop) : Option LabelLoop :=
  if view.states[view.minuteIdx msg]? = some .active then
    -- the subtraction would be below zero
    if loop.receivedMessages = 0 then none
    else some { loop with receivedMessages := loop.receivedMessages - 1 }
  else some loop

/-- The message at index `msgI` of the conversation. -/
def labelMessage (user : UserId) (view : RunView) (msgI : ℕ) (msg : Message)
    (loop : LabelLoop) : Option LabelLoop :=
  if msg.user = user then do
    let lastMsg ← view.messages[msgI - 1]?
    let labeledMessage ← labelSent view loop.prevSentTime loop.prevSentMinuteIdx lastMsg msg
    return ⟨loop.labeledMessages ++ [labeledMessage], loop.receivedMessages, some msg.date,
      some (view.minuteIdx msg)⟩
  else countReceived view msg loop

/-- The loop over the indices of the messages of a run. -/
def labelMessages (user : UserId) (view : RunView) : List ℕ → LabelLoop → Option LabelLoop
  | [], loop => some loop
  | msgI :: is, loop =>
    -- the first message of a conversation has none before it and is skipped
    if msgI = 0 then labelMessages user view is loop
    else do
      let msg ← view.messages[msgI]?
      -- the first message after the end of the run ends the loop, whoever sent it
      if view.finalMsgDate < msg.date then return loop
      let next ← labelMessage user view msgI msg loop
      labelMessages user view is next

/-- `data_run.first_message..conversation.messages.len()`. -/
def RunView.indices (view : RunView) : List ℕ :=
  List.range' view.firstMessage (view.messages.length - view.firstMessage)

/-- One pass of the loop over the runs. -/
def labelDataRun (user : UserId) (states : List State)
    (conversations : AList fun _ : Int32 => Conversation) (i : ℕ) (dataRun : DataRun)
    (labeledMessages : List LabeledMessage) (receivedMessages : ℕ) :
    Option (List LabeledMessage × ℕ) := do
  let view ← viewDataRun states conversations i dataRun
  let loop ← labelMessages user view view.indices ⟨labeledMessages, receivedMessages, none, none⟩
  return (loop.labeledMessages, loop.receivedMessages)

/-- `next_i`. -/
def nextI (dataRun : DataRun) : ℕ := dataRun.minuteCounters.length

/-- The loop over the runs. -/
def labelDataRuns (user : UserId) (states : List State)
    (conversations : AList fun _ : Int32 => Conversation) (i : ℕ) :
    List DataRun → List LabeledMessage → ℕ → Option (List LabeledMessage × ℕ)
  | [], labeledMessages, receivedMessages => some (labeledMessages, receivedMessages)
  | dataRun :: dataRuns, labeledMessages, receivedMessages => do
    let (labeledMessages, receivedMessages) ←
      labelDataRun user states conversations i dataRun labeledMessages receivedMessages
    -- `i = next_i`, which does not add the length to `i`
    labelDataRuns user states conversations (nextI dataRun) dataRuns labeledMessages
      receivedMessages

/-- How many messages others have sent. -/
def countOthers (user : UserId) (conversations : AList fun _ : Int32 => Conversation) : ℕ :=
  (conversations.entries.flatMap fun c => c.2.messages.filter fun m => m.user ≠ user).length

/-- The labelled messages, and how many messages the user received while idle. -/
def statsToLabeled (stats : Stats) (conversations : AList fun _ : Int32 => Conversation) :
    Option (List LabeledMessage × ℕ) :=
  let user := stats.userStats.user
  let receivedMessages := countOthers user conversations
  labelDataRuns user stats.states conversations 0 stats.userStats.dataRuns [] receivedMessages

/-! ### The program -/

/-- A conversation is inserted for every user who has sent a message in it. -/
def addConvo (user : UserId) (convos : AList fun _ : Int32 => Conversation) (c : Conversation) :
    AList fun _ : Int32 => Conversation :=
  if c.messages.any (·.user = user) then convos.insert c.hash c else convos

/-- The conversations in which the user has sent a message, by their hashes. -/
def userConvo (user : UserId) (conversations : List Conversation) :
    AList fun _ : Int32 => Conversation :=
  conversations.foldl (addConvo user) ∅

/-- What is made of the file of a user. -/
def processUser (user : UserId) (conversations : List Conversation) (data : Text) :
    Option (List LabeledMessage × ℕ) := do
  let stats ← parseStatsFile user data
  statsToLabeled stats (userConvo user conversations)

end SignalSim.SamExtractor
