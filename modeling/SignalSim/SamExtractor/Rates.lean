import Mathlib.Algebra.Order.Field.Basic
import Mathlib.Algebra.Order.Field.Rat
import SignalSim.SamExtractor.Fit

/-!
# The fitted distributions

What `process.rs` makes of the labelled messages of a user, and when the generator of messages can
use it. What is fitted depends on the labels alone, and each label on the run of its message.

## Main definitions

* `Fitted` — what is written for a user
* `fit` — what is made of the labelled messages
* `processFile` — what is made of the file of a user
* `RunView.label` — the label of a message of a run

## Main results

* `labelDataRun_labels` — the pass for a run adds the labels of the messages sent in it
* `rProb_le_one_iff` — when the rate of transitions on receiving is a probability
-/

namespace SignalSim.SamExtractor

/-! ### Fitting -/

/-- `Duration::SECOND`. -/
def second : ℤ := 1000000000

/-- `whole_seconds()`, which rounds towards zero. -/
def wholeSeconds (d : ℤ) : ℤ := d.tdiv second

/-- `HOUR_AS_SECONDS`. -/
def hourAsSeconds : ℤ := 60 * 60

/-- IITs between a transition message and the previous sent message. -/
def idleIits (messages : List LabeledMessage) : List ℤ :=
  messages.filterMap fun m => if m.idleSent then m.sentIit.map wholeSeconds else none

/-- What the loop of `active_iits` changes. -/
structure ActiveLoop where
  maxIit : ℤ
  active : Bool
  ret : List ℤ

def ActiveLoop.next (loop : ActiveLoop) (message : LabeledMessage) : ActiveLoop :=
  if message.continuing then { loop with maxIit := max loop.maxIit message.iit, active := true }
  else if loop.active then
    ⟨0, false, if loop.maxIit ≠ 0 then loop.ret ++ [wholeSeconds loop.maxIit] else loop.ret⟩
  else loop

/-- The maximal IIT of each stretch of sent Active messages that another message ends. -/
def activeIits (messages : List LabeledMessage) : List ℤ :=
  (messages.foldl ActiveLoop.next ⟨0, false, []⟩).ret

/-- `sent_sent_iits` and `received_sent_iits`: IITs between an active message sent or received and
the given active message. -/
def iitsAfter (direction : Direction) (messages : List LabeledMessage) : List ℤ :=
  messages.filterMap fun m =>
    if m.idleSent = false ∧ m.lastMessage = direction then some (wholeSeconds m.iit) else none

def sentSentIits : List LabeledMessage → List ℤ := iitsAfter .sent

def receivedSentIits : List LabeledMessage → List ℤ := iitsAfter .received

/-- The fraction of idle sent messages with active transitions, if it is finite. -/
def sendTransitionFrac (messages : List LabeledMessage) : Option ℚ :=
  let idleSent := messages.countP fun m => m.idleSent
  let transition := messages.countP fun m => m.idleSent && m.state = .active
  if idleSent = 0 then none else some (transition / idleSent)

def LabeledMessage.isReceiveTransition (m : LabeledMessage) : Bool :=
  !m.idleSent && !m.continuing && m.state = .active

/-- The count of idle received messages with active transitions. -/
def receiveTransitionCount (messages : List LabeledMessage) : ℕ :=
  messages.countP (·.isReceiveTransition)

/-- The rate of active transitions on receiving. -/
def rProb (rCount idleReceived : ℕ) : ℚ :=
  if idleReceived ≠ 0 ∧ rCount ≠ idleReceived then rCount / idleReceived else 1

/-- What is written for a user. -/
structure Fitted where
  idleDist : List ℤ
  activeDist : List ℤ
  aSDist : List ℤ
  aRDist : List ℤ
  sProb : ℚ
  rProb : ℚ
  deriving DecidableEq

/-- A distribution, or a default if there is no data. -/
def orDefault (dist : List ℤ) (default : ℤ) : List ℤ := if dist ≠ [] then dist else [default]

/-- There is data for one of the distributions. -/
def realData (labeled : List LabeledMessage) (idleReceived : ℕ) : Prop :=
  let rCount := receiveTransitionCount labeled
  idleIits labeled ≠ [] ∨ activeIits labeled ≠ [] ∨ sentSentIits labeled ≠ [] ∨
    receivedSentIits labeled ≠ [] ∨ (∃ s ∈ sendTransitionFrac labeled, s ≠ 0) ∨
    (idleReceived ≠ 0 ∧ rCount ≠ idleReceived) ∧ rCount ≠ 0

instance (labeled : List LabeledMessage) (idleReceived : ℕ) :
    Decidable (realData labeled idleReceived) :=
  inferInstanceAs (Decidable (_ ∨ _))

/-- What is written for a user, if there is data. -/
def fit (labeled : List LabeledMessage) (idleReceived : ℕ) : Option Fitted :=
  if realData labeled idleReceived then
    some {
      idleDist := orDefault (idleIits labeled) hourAsSeconds
      activeDist := orDefault (activeIits labeled) 0
      aSDist := orDefault (sentSentIits labeled) hourAsSeconds
      aRDist := orDefault (receivedSentIits labeled) hourAsSeconds
      sProb := (sendTransitionFrac labeled).getD 0
      rProb := rProb (receiveTransitionCount labeled) idleReceived }
  else none

/-- What is written for a user; `none` is a panic. -/
def processFile (user : UserId) (conversations : List Conversation) (data : Text) :
    Option (Option Fitted) :=
  (processUser user conversations data).map fun out => fit out.1 out.2

/-! ### The labels of a run -/

/-- The last message that the user sent in a run before the one at an index. The first message of a
conversation does not count. -/
def RunView.prevSent (view : RunView) (user : UserId) (k : ℕ) : Option Message :=
  (((view.messages.take k).drop (max view.firstMessage 1)).filter (·.user = user)).getLast?

namespace RunView

/-- The label of the message at an index. -/
def label (view : RunView) (user : UserId) (k : ℕ) : Option LabeledMessage := do
  let msg ← view.messages[k]?
  let lastMsg ← view.messages[k - 1]?
  let prev := view.prevSent user k
  labelSent view (prev.map (·.date)) (prev.map view.minuteIdx) lastMsg msg

/-- The message at an index is sent by the user. -/
def isSent (view : RunView) (user : UserId) (k : ℕ) : Bool :=
  (view.messages[k]?).any (·.user = user)

/-- Which of the messages that the pass for a run looks at are labelled. -/
def sent (view : RunView) (user : UserId) (is : List ℕ) : List ℕ :=
  (scanned view is).filter (view.isSent user)

end RunView

section

variable {user : UserId} {view : RunView} {k n : ℕ} {m last : Message} {prev : Option Message}
  {prevTime : Option ℤ} {label : LabeledMessage} {loop out : LabelLoop}

namespace RunView

/-- No message is sent in a run before the first one that counts. -/
theorem prevSent_of_le (h : k ≤ max view.firstMessage 1) : view.prevSent user k = none := by
  have hnil : (view.messages.take k).drop (max view.firstMessage 1) = [] :=
    List.drop_eq_nil_of_le ((List.length_take_le _ _).trans h)
  rw [prevSent, hnil]
  rfl

theorem prevSent_succ (h : max view.firstMessage 1 ≤ k) (hm : view.messages[k]? = some m) :
    view.prevSent user (k + 1) = if m.user = user then some m else view.prevSent user k := by
  obtain ⟨hlt, -⟩ := List.getElem?_eq_some_iff.mp hm
  have hlength : max view.firstMessage 1 ≤ (view.messages.take k).length := by
    rw [List.length_take, Nat.min_eq_left hlt.le]
    exact h
  rw [prevSent, List.take_add_one, hm, Option.toList_some, List.drop_append_of_le_length hlength,
    List.filter_append, List.getLast?_append]
  by_cases hu : m.user = user
  · simp [hu]
  · simp [hu, prevSent]

end RunView

theorem RunView.isSent_iff (hm : view.messages[k]? = some m) :
    view.isSent user k = true ↔ m.user = user := by
  simp [RunView.isSent, hm]

/-- What the label of a message is made of. -/
structure LabelOf (user : UserId) (view : RunView) (k : ℕ) (m last : Message)
    (label : LabeledMessage) : Prop where
  message_eq : view.messages[k]? = some m
  last_eq : view.messages[k - 1]? = some last
  state_eq : determineState view.minutes view.states (view.minuteIdx m) = some label.state
  transition_eq : isTransition view.states (view.minuteIdx m)
    (wholeMinutes (last.date - view.firstMsgDate)) = some label.idleSent
  continuing_eq : isContinuing view.states ((view.prevSent user k).map view.minuteIdx)
    (view.minuteIdx m) = some label.continuing

theorem RunView.label_eq_some (h : view.label user k = some label) :
    ∃ m last, LabelOf user view k m last label := by
  obtain ⟨m, hm, h⟩ := Option.bind_eq_some_iff.mp h
  obtain ⟨last, hlast, h⟩ := Option.bind_eq_some_iff.mp h
  obtain ⟨state, hstate, h⟩ := Option.bind_eq_some_iff.mp h
  obtain ⟨transition, htransition, h⟩ := Option.bind_eq_some_iff.mp h
  obtain ⟨continuing, hcontinuing, h⟩ := Option.bind_eq_some_iff.mp h
  obtain rfl := Option.some_inj.mp h
  exact ⟨m, last, hm, hlast, hstate, htransition, hcontinuing⟩

/-- A received message has no label. -/
theorem eq_of_countReceived {msg : Message} {loop next : LabelLoop}
    (h : countReceived view msg loop = some next) :
    next.labeledMessages = loop.labeledMessages ∧ next.prevSentTime = loop.prevSentTime ∧
      next.prevSentMinuteIdx = loop.prevSentMinuteIdx := by
  unfold countReceived at h
  split at h
  · split at h
    · cases h
    · obtain rfl := Option.some_inj.mp h
      exact ⟨rfl, rfl, rfl⟩
  · obtain rfl := Option.some_inj.mp h
    exact ⟨rfl, rfl, rfl⟩

/-- What the loop knows of the last message that the user sent. -/
structure LabelLoop.Knows (loop : LabelLoop) (prev : Option Message) (view : RunView) : Prop where
  time_eq : loop.prevSentTime = prev.map (·.date)
  minute_eq : loop.prevSentMinuteIdx = prev.map view.minuteIdx

/-- **One run.** The loop over the messages adds the label of each message that the user sent. -/
theorem labelMessages_labels (hfirst : view.firstMessage ≤ k)
    (hprev : loop.Knows (view.prevSent user k) view)
    (h : labelMessages user view (List.range' k n) loop = some out) :
    out.labeledMessages.map some =
      loop.labeledMessages.map some ++
        (view.sent user (List.range' k n)).map (view.label user) := by
  induction n generalizing k loop with
  | zero =>
    obtain rfl := Option.some_inj.mp h
    exact (List.append_nil _).symm
  | succ n ih =>
    rw [List.range'_succ] at h ⊢
    by_cases hk : k = 0
    · subst hk
      -- the first message of the conversation is skipped
      refine ih (Nat.le_add_right_of_le hfirst) ?_ h
      rw [RunView.prevSent_of_le (Nat.zero_le _)] at hprev
      rwa [RunView.prevSent_of_le (le_max_right view.firstMessage 1)]
    have hle : max view.firstMessage 1 ≤ k := max_le hfirst (Nat.one_le_iff_ne_zero.mpr hk)
    cases hm : view.messages[k]? with
    | none =>
      rw [labelMessages_none hk hm] at h
      cases h
    | some m =>
      by_cases hlate : view.finalMsgDate < m.date
      · rw [labelMessages_of_late hk hm hlate] at h
        obtain rfl := Option.some_inj.mp h
        rw [RunView.sent, scanned_of_late hk hm hlate]
        exact (List.append_nil _).symm
      have hdate := Int.not_lt.mp hlate
      rw [labelMessages_cons hk hm hdate] at h
      obtain ⟨next, hnext, h⟩ := Option.bind_eq_some_iff.mp h
      rw [RunView.sent, scanned_cons hk hm hdate]
      by_cases hu : m.user = user
      · -- a sent message is the last one from now on
        rw [labelMessage, if_pos hu] at hnext
        obtain ⟨last, hlast, hnext⟩ := Option.bind_eq_some_iff.mp hnext
        obtain ⟨label, hlabel, hnext⟩ := Option.bind_eq_some_iff.mp hnext
        obtain rfl := Option.some_inj.mp hnext
        rw [hprev.time_eq, hprev.minute_eq] at hlabel
        have hlabelk : view.label user k = some label := by
          rw [RunView.label, hm, Option.bind_eq_bind, Option.bind_some, hlast]
          exact hlabel
        have hrest := ih (Nat.le_succ_of_le hfirst)
          (by rw [RunView.prevSent_succ hle hm, if_pos hu]; exact ⟨rfl, rfl⟩) h
        rw [hrest, List.filter_cons_of_pos ((RunView.isSent_iff hm).mpr hu), List.map_append,
          List.append_assoc]
        simp only [List.map_cons, hlabelk]
        rfl
      · rw [labelMessage, if_neg hu] at hnext
        obtain ⟨hlabeled, htime, hminute⟩ := eq_of_countReceived hnext
        have hrest := ih (Nat.le_succ_of_le hfirst)
          (by
            rw [RunView.prevSent_succ hle hm, if_neg hu]
            exact ⟨htime.trans hprev.time_eq, hminute.trans hprev.minute_eq⟩) h
        rw [hrest, hlabeled, List.filter_cons_of_neg (mt (RunView.isSent_iff hm).mp hu)]
        rfl

end

section

variable {user : UserId} {states : List State}
  {conversations : AList fun _ : Int32 => Conversation} {i r r' : ℕ} {dataRun : DataRun}
  {dataRuns : List DataRun} {ls ls' : List LabeledMessage} {stats : Stats}

/-- The messages that get a label in a run, with what is known of the run. -/
def sentIn (user : UserId) (states : List State)
    (conversations : AList fun _ : Int32 => Conversation) (i : ℕ) (dataRun : DataRun) :
    List (RunView × ℕ) :=
  match viewDataRun states conversations i dataRun with
  | none => []
  | some view => (view.sent user view.indices).map (view, ·)

/-- The pass for a run adds the labels of the messages that the user sent in it. -/
theorem labelDataRun_labels
    (h : labelDataRun user states conversations i dataRun ls r = some (ls', r')) :
    ls'.map some = ls.map some ++
      (sentIn user states conversations i dataRun).map fun p => p.1.label user p.2 := by
  obtain ⟨view, hview, h⟩ := Option.bind_eq_some_iff.mp h
  obtain ⟨out, hout, h⟩ := Option.bind_eq_some_iff.mp h
  obtain ⟨rfl, -⟩ := Prod.mk.inj (Option.some_inj.mp h)
  have hlabels := labelMessages_labels le_rfl
    (by rw [RunView.prevSent_of_le (le_max_left _ _)]; exact ⟨rfl, rfl⟩) hout
  simp only [sentIn, hview, List.map_map]
  exact hlabels

end

/-! ### The rate -/

section

variable {r idle : ℕ} {labeled : List LabeledMessage} {fitted : Fitted}

theorem rProb_nonneg (r idle : ℕ) : 0 ≤ rProb r idle := by
  unfold rProb
  split
  · exact div_nonneg (Nat.cast_nonneg r) (Nat.cast_nonneg idle)
  · exact zero_le_one

theorem rProb_le_one_iff : rProb r idle ≤ 1 ↔ r ≤ idle ∨ idle = 0 := by
  unfold rProb
  split
  case isTrue h =>
    have hpos : (0 : ℚ) < idle := Nat.cast_pos.mpr (Nat.pos_of_ne_zero h.1)
    rw [div_le_one hpos, Nat.cast_le]
    exact (or_iff_left h.1).symm
  case isFalse h =>
    refine iff_of_true le_rfl ?_
    by_contra hnot
    obtain ⟨hlt, hne⟩ := not_or.mp hnot
    exact h ⟨hne, fun heq => hlt heq.le⟩

theorem fit_eq_some (h : fit labeled idle = some fitted) :
    fitted.rProb = rProb (receiveTransitionCount labeled) idle := by
  obtain ⟨-, h⟩ := Option.ite_none_right_eq_some.mp h
  rw [← Option.some_inj.mp h]

/-- A user with a rate above one has data. -/
theorem fit_isSome (h : ¬ rProb (receiveTransitionCount labeled) idle ≤ 1) :
    (fit labeled idle).isSome := by
  obtain ⟨hlt, hne⟩ := not_or.mp (mt rProb_le_one_iff.mpr h)
  have hmore := Nat.lt_of_not_le hlt
  have hdata : realData labeled idle :=
    .inr (.inr (.inr (.inr (.inr ⟨⟨hne, hmore.ne'⟩, Nat.ne_zero_of_lt hmore⟩))))
  rw [fit, if_pos hdata]
  rfl

end

end SignalSim.SamExtractor
