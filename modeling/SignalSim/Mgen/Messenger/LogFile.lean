import SignalSim.Foundations.Text
import SignalSim.Mgen.Messenger.Manage

/-!
# The log file of a messenger

The text of the lines that conversation tasks print, each after the time, and the file that any
number of them fill together: their lines in any order that keeps the order of each. What the
tasks for the connections print is left out. Of a round
that is not over there can be lines too, but none of its action.

## Main definitions

* `TaskLine.fields`, `LogEntry.text` — what `log!` prints
* `Task` — a conversation task and what it has done
* `LogRun` — tasks that print to one file

## Main results

* `StateThread.manage_log` — the lines of a round
* `Task.countP_sendId_log`, `Task.receiptCalls_log` — a message or a receipt is printed for each
  call of the function that does so
-/

namespace SignalSim.Mgen

open SignalSim.Result

/-! ### Lines -/

/-- A line of a conversation task, after the time. -/
inductive TaskLine
  /-- What `mgen-client` prints before it pauses for so many milliseconds. -/
  | waiting (user group : String) (hash : ℕ)
  /-- What it prints after the bootstrap. -/
  | awake (user group : String)
  | state (line : LogLine)
  deriving DecidableEq

/-- `State::NAME`, as text. -/
def StateName.text : StateName → Text
  | .idle => "Idle".toList
  | .active => "Active".toList

/-- The text of a number. -/
def numeral (n : UInt32) : Text := Text.ofNat n.toNat

/-- The arguments of `log!`, separated by commas in the format. -/
def LogLine.fields : LogLine → List Text
  | .idle ourId group => [ourId.toList, group.toList, "Idle".toList]
  | .send ourId group before after size id =>
    [ourId.toList, group.toList, "send".toList, before.text, after.text, numeral size, numeral id]
  | .receive ourId group before after sender size id =>
    [ourId.toList, group.toList, "receive".toList, before.text, after.text, sender.toList,
      numeral size, numeral id]
  | .receipt ourId group state sender id =>
    [ourId.toList, group.toList, "receive".toList, state.text, state.text, sender.toList,
      "receipt".toList, numeral id]

def TaskLine.fields : TaskLine → List Text
  | .waiting user group hash =>
    [user.toList, group.toList, "waiting".toList, Text.ofNat hash]
  | .awake user group => [user.toList, group.toList, "awake".toList]
  | .state line => line.fields

/-- Neither a comma nor a quote nor the end of a line. -/
def PlainText (t : Text) : Prop := ∀ c ∈ t, c ≠ ',' ∧ c ≠ '"' ∧ c ≠ '\n' ∧ c ≠ '\r'

/-- A number with a fraction of nine digits, `%s.%f`. -/
def decimal (seconds nanos : ℕ) : Text :=
  Text.ofNat seconds ++ '.' :: List.leftpad 9 '0' (Text.ofNat nanos)

/-- A line with its time: the date, and the seconds and nanoseconds. -/
structure LogEntry where
  date : Text
  seconds : ℕ
  nanos : ℕ
  line : TaskLine
  plain_date : PlainText date

def LogEntry.fields (e : LogEntry) : List Text :=
  e.date :: decimal e.seconds e.nanos :: e.line.fields

/-- What `log!` prints. -/
def LogEntry.text (e : LogEntry) : Text := Text.line (Text.commaSeparated e.fields)

/-- The names in a line. -/
def LogLine.names : LogLine → List String
  | .idle ourId group => [ourId, group]
  | .send ourId group _ _ _ _ => [ourId, group]
  | .receive ourId group _ _ sender _ _ => [ourId, group, sender]
  | .receipt ourId group _ sender _ => [ourId, group, sender]

def TaskLine.names : TaskLine → List String
  | .waiting user group _ | .awake user group => [user, group]
  | .state line => line.names

variable {n : UInt32} {seconds nanos : ℕ}

/-- Whether a text is plain can be computed. -/
theorem plainText_of_all {t : Text}
    (h : (t.all fun c => c != ',' && c != '"' && c != '\n' && c != '\r') = true) :
    PlainText t := by
  intro c hc
  simpa [and_assoc] using List.all_eq_true.mp h c hc

theorem plainText_of_isDigit {t : Text} (h : ∀ c ∈ t, c.isDigit = true ∨ c = '.') :
    PlainText t := by
  intro c hc
  rcases h c hc with hdigit | rfl
  · refine ⟨?_, ?_, ?_, ?_⟩ <;>
    · rintro rfl
      exact absurd hdigit (by decide)
  · decide

theorem plainText_numeral : PlainText (numeral n) :=
  plainText_of_isDigit fun _ hc => .inl (Text.isDigit_of_mem_ofNat hc)

theorem plainText_decimal : PlainText (decimal seconds nanos) := by
  refine plainText_of_isDigit fun c hc => ?_
  rcases List.mem_append.mp hc with hc | hc
  · exact .inl (Text.isDigit_of_mem_ofNat hc)
  · rcases List.mem_cons.mp hc with rfl | hc
    · exact .inr rfl
    · rcases List.mem_append.mp hc with hc | hc
      · rw [List.eq_of_mem_replicate hc]
        exact .inl (by decide)
      · exact .inl (Text.isDigit_of_mem_ofNat hc)

theorem plainText_state (s : StateName) : PlainText s.text := by
  apply plainText_of_all
  cases s <;> decide +kernel

/-- A line with plain names has plain fields. -/
theorem TaskLine.plainText_fields {l : TaskLine} (h : ∀ name ∈ l.names, PlainText name.toList) :
    ∀ f ∈ l.fields, PlainText f := by
  have hword (w : Text) (hw : w ∈ ["waiting".toList, "awake".toList, "Idle".toList, "send".toList,
      "receive".toList, "receipt".toList]) : PlainText w := by
    apply plainText_of_all
    revert w
    decide +kernel
  cases l with
  | waiting user group hash =>
    simp only [names, fields, List.forall_mem_cons] at h ⊢
    exact ⟨h.1, h.2.1, hword _ (by simp),
      plainText_of_isDigit fun _ hc => .inl (Text.isDigit_of_mem_ofNat hc), by simp⟩
  | awake user group =>
    simp only [names, fields, List.forall_mem_cons] at h ⊢
    exact ⟨h.1, h.2.1, hword _ (by simp), by simp⟩
  | state l =>
    cases l with
    | idle ourId group =>
      simp only [names, LogLine.names, fields, LogLine.fields, List.forall_mem_cons] at h ⊢
      exact ⟨h.1, h.2.1, hword _ (by simp), by simp⟩
    | send ourId group before after size id =>
      simp only [names, LogLine.names, fields, LogLine.fields, List.forall_mem_cons] at h ⊢
      exact ⟨h.1, h.2.1, hword _ (by simp), plainText_state _, plainText_state _,
        plainText_numeral, plainText_numeral, by simp⟩
    | receive ourId group before after sender size id =>
      simp only [names, LogLine.names, fields, LogLine.fields, List.forall_mem_cons] at h ⊢
      exact ⟨h.1, h.2.1, hword _ (by simp), plainText_state _, plainText_state _, h.2.2.1,
        plainText_numeral, plainText_numeral, by simp⟩
    | receipt ourId group state sender id =>
      simp only [names, LogLine.names, fields, LogLine.fields, List.forall_mem_cons] at h ⊢
      exact ⟨h.1, h.2.1, hword _ (by simp), plainText_state _, plainText_state _, h.2.2.1,
        hword _ (by simp), plainText_numeral, by simp⟩

theorem LogEntry.plainText_fields {e : LogEntry}
    (h : ∀ name ∈ e.line.names, PlainText name.toList) : ∀ f ∈ e.fields, PlainText f := by
  simp only [fields, List.forall_mem_cons]
  exact ⟨e.plain_date, plainText_decimal, TaskLine.plainText_fields h⟩

/-! ### Rounds -/

namespace StateThread

variable {R M S T : Type} [StreamMap M] [MessageHolder S] [SampledState T]
  {conf : ThreadConfig R M} {t : Moment} {thread thread' : StateThread R} {out : RoundOutput S}

/-- What a round does, and the line it prints for it. -/
inductive ActionLog (conf : ThreadConfig R M) (t : Moment) : ManageAction → List LogLine → Prop
  | send (before after : StateName) (size id : UInt32) : t.wakeup = .timer →
      ActionLog conf t .send [.send conf.ourId conf.group before after size id]
  | receive (msg : MessageHeader) (size : NonZeroU32) (before after : StateName) :
      t.wakeup = .inbound msg → msg.body = .size size → ActionLog conf t (.receive msg)
        [.receive conf.ourId msg.group before after msg.sender size.1 msg.id]
  | receipt (msg : MessageHeader) (state : StateName) :
      t.wakeup = .inbound msg → msg.body = .receipt → ActionLog conf t (.receive msg)
        [.receipt conf.ourId (if conf.p2p then msg.group else conf.group) state msg.sender msg.id]
  | idle : t.wakeup = .timer → ActionLog conf t .idle []

theorem sendAction_log {c : Conversation T} {rng : R} (ht : t.wakeup = .timer)
    (h : sendAction conf t c rng = .ok (out, thread')) : ActionLog conf t out.action out.log := by
  obtain ⟨x, -, h⟩ := bind_eq_ok h
  obtain ⟨puts, -, h⟩ := bind_eq_ok h
  cases h
  exact .send _ _ _ _ ht

theorem receiveAction_log {c : Conversation T} {rng : R} {msg : MessageHeader}
    (ht : t.wakeup = .inbound msg)
    (h : receiveAction conf t msg c (if conf.p2p then none else some conf.group) rng =
      .ok (out, thread')) : ActionLog conf t out.action out.log := by
  unfold receiveAction at h
  split at h
  · rename_i size hbody
    obtain ⟨stream, -, h⟩ := bind_eq_ok h
    obtain ⟨m, -, h⟩ := bind_eq_ok h
    obtain ⟨put, -, h⟩ := bind_eq_ok h
    cases h
    exact .receive msg size _ _ ht hbody
  · rename_i hbody
    have hgroup : (if conf.p2p = true then none else some conf.group).getD msg.group =
        if conf.p2p then msg.group else conf.group := by
      cases conf.p2p <;> rfl
    rw [hgroup] at h
    cases h
    exact .receipt msg _ ht hbody

/-- The lines of a round: the one of an idle conversation first, then that of the action. -/
theorem manage_log (h : manage conf thread t = .ok (out, thread')) :
    ∃ pre post, (pre = [] ∨ pre = [.idle conf.ourId conf.group]) ∧ out.log = pre ++ post ∧
      ActionLog conf t out.action post := by
  unfold manage at h
  cases hmachine : thread.machine with
  | idle c =>
    simp only [hmachine, manageIdleConversation] at h
    obtain ⟨⟨out', thread''⟩, haction, heq⟩ := map_eq_ok h
    cases heq
    refine ⟨_, out'.log, .inr rfl, rfl, ?_⟩
    cases hwake : t.wakeup with
    | timer =>
      rw [hwake] at haction
      exact sendAction_log hwake haction
    | inbound msg =>
      rw [hwake] at haction
      exact receiveAction_log hwake haction
  | active c =>
    simp only [hmachine, manageActiveConversation] at h
    refine ⟨[], out.log, .inl rfl, rfl, ?_⟩
    cases hwake : t.wakeup with
    | timer =>
      rw [hwake] at h
      by_cases hd : c.delay < c.state.wait
      · simp only [Conversation.sleep, if_pos hd] at h
        exact sendAction_log hwake h
      · simp only [Conversation.sleep, if_neg hd] at h
        cases h
        exact .idle hwake
    | inbound msg =>
      rw [hwake] at h
      exact receiveAction_log hwake h

/-- Every round of a run is one. -/
theorem manageAll_rounds {moments : List Moment} {outs : List (RoundOutput S)}
    (h : manageAll conf thread moments = .ok (outs, thread')) :
    List.Forall₂ (fun t out => ∃ th th' : StateThread R, manage conf th t = .ok (out, th'))
      moments outs := by
  induction moments generalizing thread outs with
  | nil =>
    cases h
    exact .nil
  | cons t moments ih =>
    obtain ⟨⟨out, th⟩, hround, h⟩ := bind_eq_ok h
    obtain ⟨⟨outs', th'⟩, hrest, h⟩ := bind_eq_ok h
    cases h
    exact .cons ⟨thread, th, hround⟩ (ih hrest)

end StateThread

/-! ### Calls -/

/-- The number of the message, in a line of `send_action`. -/
def LogLine.sendId : LogLine → Option UInt32
  | .send _ _ _ _ _ id => some id
  | _ => none

/-- What a line says that the branch for receipts of `receive_action` got: for whom, from whom,
and the number of the message. -/
structure ReceiptCall where
  ourId : String
  group : String
  sender : String
  id : UInt32
  deriving DecidableEq

def LogLine.receiptCall : LogLine → Option ReceiptCall
  | .receipt ourId group _ sender id => some ⟨ourId, group, sender, id⟩
  | _ => none

def TaskLine.sendId : TaskLine → Option UInt32
  | .waiting .. | .awake .. => none
  | .state l => l.sendId

def TaskLine.receiptCall : TaskLine → Option ReceiptCall
  | .waiting .. | .awake .. => none
  | .state l => l.receiptCall

/-- Whose line it is. -/
def LogLine.member : LogLine → String × String
  | .idle ourId group => (ourId, group)
  | .send ourId group _ _ _ _ => (ourId, group)
  | .receive ourId group _ _ _ _ _ => (ourId, group)
  | .receipt ourId group _ _ _ => (ourId, group)

def TaskLine.member : TaskLine → String × String
  | .waiting user group _ | .awake user group => (user, group)
  | .state l => l.member

/-- The branch for receipts, if a round took it. The group is the message's among peers and the
conversation's among clients. -/
def RoundOutput.receiptCall {R M S : Type} (conf : ThreadConfig R M) (out : RoundOutput S) :
    Option ReceiptCall :=
  match out.action with
  | .receive msg =>
    if msg.body = .receipt then
      some ⟨conf.ourId, if conf.p2p then msg.group else conf.group, msg.sender, msg.id⟩
    else none
  | _ => none

/-! ### Tasks -/

/-- A conversation task of a client or a peer, and the rounds it has gone through. -/
structure Task (R M S : Type) [StreamMap M] [MessageHolder S] where
  conf : ThreadConfig R M
  /-- The pause of a client before its threads start. -/
  hash : ℕ
  thread : StateThread R
  moments : List Moment
  outs : List (RoundOutput S)
  last : StateThread R
  run : StateThread.manageAll conf thread moments = .ok (outs, last)
  /-- The lines of a round that is not over: nothing follows the line of an action. -/
  pending : List LogLine
  sendId_pending : ∀ l ∈ pending, l.sendId = none
  receiptCall_pending : ∀ l ∈ pending, l.receiptCall = none

namespace Task

variable {R M S : Type} [StreamMap M] [MessageHolder S] {task : Task R M S} {l : TaskLine}

/-- Only a client says that it waits and that it is awake. -/
def startLines (task : Task R M S) : List TaskLine :=
  if task.conf.p2p then []
  else [.waiting task.conf.ourId task.conf.group task.hash,
    .awake task.conf.ourId task.conf.group]

/-- The lines of a task. -/
def log (task : Task R M S) : List TaskLine :=
  task.startLines ++ ((task.outs.flatMap (·.log)).map .state ++ task.pending.map .state)

/-- How often the task called `send_action`. -/
def sendCalls (task : Task R M S) : ℕ := task.outs.countP (·.action = .send)

/-- When it took the branch for receipts of `receive_action`. -/
def receiptCalls (task : Task R M S) : List ReceiptCall :=
  task.outs.filterMap (·.receiptCall task.conf)

/-- No name has a comma, a quote or the end of a line. -/
structure PlainNames (task : Task R M S) : Prop where
  ourId : PlainText task.conf.ourId.toList
  group : PlainText task.conf.group.toList
  inbound : ∀ t ∈ task.moments, ∀ msg, t.wakeup = .inbound msg →
    PlainText msg.sender.toList ∧ PlainText msg.group.toList
  pending : ∀ l ∈ task.pending, ∀ name ∈ l.names, PlainText name.toList

/-- What every round prints. -/
theorem rounds (task : Task R M S) : ∀ out ∈ task.outs, ∃ t ∈ task.moments, ∃ pre post,
    (pre = [] ∨ pre = [.idle task.conf.ourId task.conf.group]) ∧ out.log = pre ++ post ∧
      StateThread.ActionLog task.conf t out.action post := by
  intro out hout
  obtain ⟨t, ht, th, th', hround⟩ :=
    exists_of_mem_right (StateThread.manageAll_rounds task.run) hout
  exact ⟨t, ht, StateThread.manage_log hround⟩

/-- The first lines of a client name its conversation and say nothing of messages. -/
theorem mem_startLines (hl : l ∈ task.startLines) :
    l.names = [task.conf.ourId, task.conf.group] ∧
      l.member = (task.conf.ourId, task.conf.group) ∧ l.sendId = none ∧ l.receiptCall = none := by
  unfold startLines at hl
  split at hl
  · cases hl
  · simp only [List.mem_cons, List.not_mem_nil, or_false] at hl
    rcases hl with rfl | rfl <;> exact ⟨rfl, rfl, rfl, rfl⟩

/-- Where a line of a task comes from. -/
theorem mem_log (hl : l ∈ task.log) :
    l ∈ task.startLines ∨
    l = .state (.idle task.conf.ourId task.conf.group) ∨
    (∃ line ∈ task.pending, l = .state line) ∨
    ∃ t ∈ task.moments, ∃ action line, l = .state line ∧
      StateThread.ActionLog task.conf t action [line] := by
  rcases List.mem_append.mp hl with hl | hl
  · exact .inl hl
  rcases List.mem_append.mp hl with hl | hl
  · obtain ⟨line, hline, rfl⟩ := List.mem_map.mp hl
    obtain ⟨out, hout, hline⟩ := List.mem_flatMap.mp hline
    obtain ⟨t, ht, pre, post, hpre, hlog, haction⟩ := task.rounds out hout
    rw [hlog] at hline
    rcases List.mem_append.mp hline with hline | hline
    · rcases hpre with rfl | rfl
      · cases hline
      · exact .inr (.inl (congrArg _ (List.mem_singleton.mp hline)))
    · have hpost : post = [line] := by
        generalize out.action = action at haction
        cases haction <;>
          first
          | exact congrArg (fun x => [x]) (List.mem_singleton.mp hline).symm
          | cases hline
      exact .inr (.inr (.inr ⟨t, ht, out.action, line, rfl, hpost ▸ haction⟩))
  · obtain ⟨line, hline, rfl⟩ := List.mem_map.mp hl
    exact .inr (.inr (.inl ⟨line, hline, rfl⟩))

theorem plainText_log (h : task.PlainNames) (hl : l ∈ task.log) :
    ∀ name ∈ l.names, PlainText name.toList := by
  have hconf : ∀ name ∈ [task.conf.ourId, task.conf.group], PlainText name.toList := by
    simp [h.ourId, h.group]
  rcases mem_log hl with hl | rfl | ⟨line, hline, rfl⟩ | ⟨t, ht, action, line, rfl, haction⟩
  · rwa [(mem_startLines hl).1]
  · exact hconf
  · exact h.pending line hline
  · cases haction with
    | send => exact hconf
    | receive msg size before after hwake =>
      obtain ⟨hsender, hgroup⟩ := h.inbound t ht msg hwake
      simp [TaskLine.names, LogLine.names, h.ourId, hsender, hgroup]
    | receipt msg state hwake =>
      obtain ⟨hsender, hgroup⟩ := h.inbound t ht msg hwake
      cases hp : task.conf.p2p <;>
        simp [TaskLine.names, LogLine.names, h.ourId, h.group, hsender, hgroup]

/-- A task prints messages of its own conversation only. -/
theorem member_of_sendId {id : UInt32} (hl : l ∈ task.log) (hsend : l.sendId = some id) :
    l.member = (task.conf.ourId, task.conf.group) := by
  rcases mem_log hl with hl | rfl | ⟨line, hline, rfl⟩ | ⟨t, ht, action, line, rfl, haction⟩
  · exact (mem_startLines hl).2.1
  · rfl
  · exact absurd hsend (by simp [TaskLine.sendId, task.sendId_pending line hline])
  · cases haction with
    | send => rfl
    | receive => cases hsend
    | receipt => cases hsend

/-- Counting over rounds, if each has one or none. -/
theorem countP_flatMap_of_one {α β : Type} {f : α → List β} {p : β → Bool} {q : α → Bool}
    {xs : List α} (h : ∀ x ∈ xs, (f x).countP p = if q x then 1 else 0) :
    (xs.flatMap f).countP p = xs.countP q := by
  induction xs with
  | nil => rfl
  | cons x xs ih =>
    rw [List.flatMap_cons, List.countP_append, h x List.mem_cons_self, List.countP_cons,
      ih fun y hy => h y (List.mem_cons_of_mem x hy), Nat.add_comm]

/-- A message is printed once for each call of `send_action`. -/
theorem countP_sendId_log : task.log.countP (·.sendId.isSome) = task.sendCalls := by
  have hpending : (task.pending.map TaskLine.state).countP (·.sendId.isSome) = 0 := by
    rw [List.countP_map, List.countP_eq_zero]
    intro line hline
    simp [TaskLine.sendId, task.sendId_pending line hline]
  have hstart : task.startLines.countP (·.sendId.isSome) = 0 := by
    rw [List.countP_eq_zero]
    intro l hl
    simp [(mem_startLines hl).2.2.1]
  rw [log, List.countP_append, List.countP_append, hpending, hstart, Nat.zero_add, Nat.add_zero,
    List.countP_map, sendCalls]
  refine countP_flatMap_of_one fun out hout => ?_
  obtain ⟨t, -, pre, post, hpre, hlog, haction⟩ := task.rounds out hout
  have hzero : pre.countP ((·.sendId.isSome) ∘ TaskLine.state) = 0 := by
    rcases hpre with rfl | rfl <;> rfl
  rw [hlog, List.countP_append, hzero, Nat.zero_add]
  generalize out.action = action at haction
  cases haction <;> rfl

/-- A receipt is printed once for each time the branch for receipts is taken. -/
theorem receiptCalls_log : task.log.filterMap (·.receiptCall) = task.receiptCalls := by
  have hpending : (task.pending.map TaskLine.state).filterMap (·.receiptCall) = [] := by
    rw [List.filterMap_map, List.filterMap_eq_nil_iff]
    exact task.receiptCall_pending
  have hstart : task.startLines.filterMap (·.receiptCall) = [] := by
    rw [List.filterMap_eq_nil_iff]
    exact fun l hl => (mem_startLines hl).2.2.2
  rw [log, List.filterMap_append, List.filterMap_append, hpending, hstart, List.nil_append,
    List.append_nil, List.filterMap_map, receiptCalls, List.filterMap_flatMap,
    List.filterMap_eq_flatMap_toList]
  refine List.flatMap_congr fun out hout => ?_
  obtain ⟨t, -, pre, post, hpre, hlog, haction⟩ := task.rounds out hout
  have hnil : pre.filterMap ((·.receiptCall) ∘ TaskLine.state) = [] := by
    rcases hpre with rfl | rfl <;> rfl
  rw [hlog, List.filterMap_append, hnil, List.nil_append, RoundOutput.receiptCall]
  generalize out.action = action at haction
  cases haction with
  | send => rfl
  | receive msg size before after hwake hbody =>
    simp [hbody, TaskLine.receiptCall, LogLine.receiptCall]
  | receipt msg state hwake hbody => simp [hbody, TaskLine.receiptCall, LogLine.receiptCall]
  | idle => rfl

end Task

/-! ### The file -/

/-- Tasks that print to one file, and the file: each line with the task it is from. -/
structure LogRun (ι R M S : Type) [DecidableEq ι] [StreamMap M] [MessageHolder S] where
  task : ι → Task R M S
  file : List (ι × LogEntry)
  lines (k : ι) : (file.filter fun e => e.1 = k).map (·.2.line) = (task k).log

namespace LogRun

variable {ι R M S : Type} [DecidableEq ι] [StreamMap M] [MessageHolder S]
  {run : LogRun ι R M S} {e : ι × LogEntry}

/-- The text of the file. -/
def text (run : LogRun ι R M S) : Text := run.file.flatMap fun e => e.2.text

theorem line_mem_log (he : e ∈ run.file) : e.2.line ∈ (run.task e.1).log := by
  rw [← run.lines e.1]
  exact List.mem_map_of_mem (List.mem_filter.mpr ⟨he, decide_eq_true rfl⟩)

/-- How many lines of a task in the file say something. -/
theorem countP_file {p : TaskLine → Bool} {k : ι} :
    run.file.countP (fun e => decide (e.1 = k) && p e.2.line) = (run.task k).log.countP p := by
  rw [← run.lines k, List.countP_map, List.countP_filter]
  simp only [Function.comp_def, Bool.and_comm]

end LogRun

end SignalSim.Mgen
