import Mathlib.Algebra.BigOperators.Group.Finset.Basic
import Mathlib.Data.Fintype.Basic
import SignalSim.Mgen.Messenger.LogFile
import SignalSim.Mgentools.Accounting

/-!
# Reading the log of a messenger

The analyser and the messenger are different programs that agree on a log by the position of the
fields. A reader splits a text of lines without quotes at the ends of lines and at the commas; what
it makes of the file that any number of conversation tasks have printed to is a record for each
line, which reports what the line was printed for.

## Main definitions

* `LogReader` — a reader of comma-separated values, and of numbers
* `ReadBack` — what `process_log` takes from a file is what the tasks did

## Main results

* `LogReader.read_text` — the records of a file
* `readLog_readBack`
-/

namespace SignalSim.Mgentools

open Mgen (LogLine TaskLine LogEntry LogRun ReceiptCall PlainText plainText_of_all StreamMap
  MessageHolder decimal numeral)

/-! ### The reader -/

variable {F : Type}

/-- A row as a `Record`: four fields, and the rest of at least one. -/
def deserialize (parseFloat : Text → Option F) : List Text → Option (Record F)
  | _hrTime :: time :: user :: group :: action :: data =>
    (parseFloat time).map fun t => ⟨t, user, group, action :: data⟩
  | _ => none

/-- A reader without headers for rows of any lengths, and what it makes of the times in a log. -/
structure LogReader (F : Type) where
  read : Text → List (Option (Record F))
  parseFloat : Text → Option F
  value : ℕ → ℕ → F
  parseFloat_decimal (seconds nanos : ℕ) :
    parseFloat (decimal seconds nanos) = some (value seconds nanos)
  /-- Without quotes, a field is what is between commas and a row is a line. -/
  read_rows (rows : List (List Text)) :
    (∀ row ∈ rows, 1 < row.length ∧ ∀ f ∈ row, PlainText f) →
      read (rows.flatMap fun row => Text.line (Text.commaSeparated row)) =
        rows.map (deserialize parseFloat)

/-- A user and a group, as text. -/
def toMember (m : String × String) : Member := (m.1.toList, m.2.toList)

theorem toMember_inj {m m' : String × String} : toMember m = toMember m' ↔ m = m' := by
  simp [toMember, Prod.ext_iff, String.toList_inj]

/-- What a line was printed for. -/
def lineAction : TaskLine → Action
  | .state (.send _ _ _ _ _ id) => .send id.toNat
  | .state (.receipt _ _ _ sender id) => .receipt sender.toList id.toNat
  | _ => .other

/-- The record of a line. -/
def LogReader.record (reader : LogReader F) (e : LogEntry) : Record F :=
  ⟨reader.value e.seconds e.nanos, e.line.member.1.toList, e.line.member.2.toList,
    e.line.fields.drop 2⟩

variable {reader : LogReader F} {e : LogEntry} {n : UInt32} {filterTime : F}

@[simp] theorem member_record : (reader.record e).member = toMember e.line.member := rfl

theorem deserialize_fields :
    deserialize reader.parseFloat e.fields = some (reader.record e) := by
  obtain ⟨date, seconds, nanos, line, -⟩ := e
  cases line with
  | waiting | awake =>
    simp [LogEntry.fields, TaskLine.fields, deserialize, reader.parseFloat_decimal,
      LogReader.record, TaskLine.member]
  | state line =>
    cases line <;>
      simp [LogEntry.fields, TaskLine.fields, LogLine.fields, deserialize,
        reader.parseFloat_decimal, LogReader.record, TaskLine.member, LogLine.member]

theorem one_lt_length_fields : 1 < e.fields.length := by
  simp [LogEntry.fields]

/-- A number is read back. -/
theorem parseId_numeral : parseId (numeral n) = .ok n.toNat := by
  rw [parseId, numeral, Text.parseNat_ofNat n.toNat_lt]
  rfl

/-- A size is not the word for a receipt. -/
theorem numeral_ne_receipt : numeral n ≠ "receipt".toList := by
  intro h
  have hdigit : ('r').isDigit = true := by
    refine Text.isDigit_of_mem_ofNat (n := n.toNat) ?_
    rw [← numeral, h]
    decide
  exact absurd hdigit (by decide)

theorem index_of_getElem? {data : List Text} {i : ℕ} {t : Text} (h : data[i]? = some t) :
    index data i = .ok t := by
  rw [index, h]
  rfl

theorem action_of_send {r : Record F} {id : ℕ} {t : Text}
    (hverb : r.actionData[0]? = some "send".toList) (hid : r.actionData[4]? = some t)
    (ht : parseId t = .ok id) : r.action = .ok (.send id) := by
  rw [Record.action, index_of_getElem? hverb, Result.ok_bind, if_pos rfl, index_of_getElem? hid,
    Result.ok_bind, ht]
  rfl

theorem action_of_receipt {r : Record F} {id : ℕ} {t sender : Text}
    (hverb : r.actionData[0]? = some "receive".toList)
    (hkind : r.actionData[4]? = some "receipt".toList) (hsender : r.actionData[3]? = some sender)
    (hid : r.actionData[5]? = some t) (ht : parseId t = .ok id) :
    r.action = .ok (.receipt sender id) := by
  rw [Record.action, index_of_getElem? hverb, Result.ok_bind, if_neg (by decide), if_pos rfl,
    index_of_getElem? hkind, Result.ok_bind, if_neg (not_not.mpr rfl), index_of_getElem? hsender,
    Result.ok_bind, index_of_getElem? hid, Result.ok_bind, ht]
  rfl

theorem action_of_receive {r : Record F} {kind : Text}
    (hverb : r.actionData[0]? = some "receive".toList)
    (hkind : r.actionData[4]? = some kind) (hne : kind ≠ "receipt".toList) :
    r.action = .ok .other := by
  rw [Record.action, index_of_getElem? hverb, Result.ok_bind, if_neg (by decide), if_pos rfl,
    index_of_getElem? hkind, Result.ok_bind, if_pos hne]
  rfl

/-- The lines with the same verb or the same number of fields are told apart. -/
theorem action_record : (reader.record e).action = .ok (lineAction e.line) := by
  obtain ⟨date, seconds, nanos, line, -⟩ := e
  cases line with
  | waiting | awake => rfl
  | state line =>
    cases line with
    | idle ourId group => rfl
    | send ourId group before after size id => exact action_of_send rfl rfl parseId_numeral
    | receive ourId group before after sender size id =>
      exact action_of_receive rfl rfl numeral_ne_receipt
    | receipt ourId group state sender id =>
      exact action_of_receipt rfl rfl rfl rfl parseId_numeral

/-! ### The records of a file -/

variable {ι R M S : Type} [DecidableEq ι] [StreamMap M] [MessageHolder S]
  {run : LogRun ι R M S} {table : BootstrapTable F} {serializers : Serializers F} {s : LogState F}

/-- The records of some lines. -/
def LogReader.records (reader : LogReader F) (file : List (ι × LogEntry)) : List (Record F) :=
  file.map fun e => reader.record e.2

/-- A record for each line, and none of them bad. -/
theorem LogReader.read_text (reader : LogReader F) (hnames : ∀ k, (run.task k).PlainNames) :
    reader.read run.text = (reader.records run.file).map some := by
  have hrows := reader.read_rows (run.file.map fun e => e.2.fields) fun row hrow => by
    obtain ⟨e, he, rfl⟩ := List.mem_map.mp hrow
    exact ⟨one_lt_length_fields, LogEntry.plainText_fields
      (Mgen.Task.plainText_log (hnames e.1) (LogRun.line_mem_log he))⟩
  rw [List.flatMap_map, List.map_map] at hrows
  rw [LogReader.records, List.map_map]
  refine hrows.trans (List.map_congr_left fun e _ => ?_)
  exact deserialize_fields

theorem reduceOption_map_some {rs : List (Record F)} : (rs.map some).reduceOption = rs := by
  rw [List.reduceOption, List.filterMap_map]
  exact List.filterMap_some

variable [Floating F]

/-- A receipt that a record reports: for whom, from whom, and the number of the message. -/
def reportedReceipt (filterTime : F) (r : Record F) : Option (Member × Text × ℕ) :=
  match report filterTime r with
  | .receipt sender id => some (r.member, sender, id)
  | _ => none

/-- A call of the branch for receipts, in the words of the log. -/
def receiptText (c : ReceiptCall) : Member × Text × ℕ :=
  (toMember (c.ourId, c.group), c.sender.toList, c.id.toNat)

/-- The last line of a message. -/
def lastSend (file : List (ι × LogEntry)) (m : String × String) (id : UInt32) :
    Option (ι × LogEntry) :=
  (file.filter fun e => e.2.line.member = m ∧ e.2.line.sendId = some id).getLast?

/-- What `process_log` takes from a file is what the tasks did: it counts the messages they sent,
sees the receipts they got, and finds the message that a receipt is for. -/
structure ReadBack (reader : LogReader F) (filterTime : F) (table : BootstrapTable F)
    (serializers : Serializers F) [Fintype ι] (run : LogRun ι R M S) (s : LogState F) :
    Prop where
  sentCount (m : String × String) :
    (s.runningValues.lookup (toMember m)).elim 0 (·.sentCount) =
      UInt32.ofNat (∑ k with ((run.task k).conf.ourId, (run.task k).conf.group) = m,
        (run.task k).sendCalls)
  receipts (k : ι) :
    (reader.records (run.file.filter fun e => e.1 = k)).filterMap (reportedReceipt filterTime) =
      (run.task k).receiptCalls.map receiptText
  matched {before after : List (ι × LogEntry)} {e : ι × LogEntry} {c : ReceiptCall} :
    run.file = before ++ e :: after → e.2.line.receiptCall = some c →
      ∃ s₁, readLog filterTime table ⟨∅, ∅, serializers⟩ ((reader.records before).map some) =
          .ok s₁ ∧
        s₁.sentTimes.lookup (toMember (c.ourId, c.group), c.id.toNat) =
          (lastSend before (c.ourId, c.group) c.id).map fun e =>
            reader.value e.2.seconds e.2.nanos

section Records

variable {file before after : List (ι × LogEntry)} {m : String × String} {id : UInt32}

/-- The record of a line reports what the line was printed for. -/
theorem report_record (h : ¬ reader.value e.seconds e.nanos ≤ filterTime) :
    report filterTime (reader.record e) = lineAction e.line := by
  have htime : ¬ (reader.record e).time ≤ filterTime := h
  rw [report, if_neg htime, action_record]

theorem lineAction_of_sendId {l : TaskLine} : (∃ id, l.sendId = some id ∧
    lineAction l = .send id.toNat) ∨ l.sendId = none ∧ ∀ id, lineAction l ≠ .send id := by
  cases l with
  | waiting | awake => exact .inr ⟨rfl, by simp [lineAction]⟩
  | state l =>
    cases l with
    | send ourId group before after size id => exact .inl ⟨id, rfl, rfl⟩
    | idle => exact .inr ⟨rfl, by simp [lineAction]⟩
    | receive => exact .inr ⟨rfl, by simp [lineAction]⟩
    | receipt => exact .inr ⟨rfl, by simp [lineAction]⟩

omit [DecidableEq ι] in
/-- The messages of a conversation are the lines for them. -/
theorem sendsOf_records (h : ∀ e ∈ file, ¬ reader.value e.2.seconds e.2.nanos ≤ filterTime) :
    sendsOf filterTime (reader.records file) (toMember m) =
      (file.filter fun e => e.2.line.member = m).filterMap fun e =>
        e.2.line.sendId.map fun id => (id.toNat, reader.value e.2.seconds e.2.nanos) := by
  rw [sendsOf, LogReader.records, List.filterMap_map, List.filterMap_filter]
  refine List.filterMap_congr fun e he => ?_
  rw [Function.comp_apply, report_record (h e he)]
  rcases lineAction_of_sendId (l := e.2.line) with ⟨id, hid, haction⟩ | ⟨hnone, haction⟩
  · rw [haction, hid]
    simp only [member_record, toMember_inj, decide_eq_true_eq]
    rfl
  · rw [hnone, Option.map_none, ite_self]
    cases hline : lineAction e.2.line with
    | send id => exact absurd hline (haction id)
    | receipt => rfl
    | other => rfl

omit [DecidableEq ι] in
/-- The time of a message is that of its last line. -/
theorem sentTime_records (h : ∀ e ∈ file, ¬ reader.value e.2.seconds e.2.nanos ≤ filterTime) :
    sentTime filterTime (reader.records file) (toMember m) id.toNat =
      (lastSend file m id).map fun e => reader.value e.2.seconds e.2.nanos := by
  have hlines : ((sendsOf filterTime (reader.records file) (toMember m)).filter
      fun s => s.1 = id.toNat) = (file.filter fun e => e.2.line.member = m ∧
        e.2.line.sendId = some id).map fun e =>
          (id.toNat, reader.value e.2.seconds e.2.nanos) := by
    rw [sendsOf_records h]
    clear h
    induction file with
    | nil => rfl
    | cons e file ih =>
      by_cases hm : e.2.line.member = m
      · cases hid : e.2.line.sendId with
        | none => simpa [hm, hid] using ih
        | some id' =>
          by_cases heq : id' = id
          · simpa [hm, hid, heq] using ih
          · have hne : id'.toNat ≠ id.toNat := fun h => heq (UInt32.toNat_inj.mp h)
            simpa [hm, hid, heq, hne] using ih
      · simpa [hm] using ih
  rw [sentTime, hlines, lastSend, List.getLast?_map, Option.map_map]
  rfl

theorem reportedReceipt_record (h : ¬ reader.value e.seconds e.nanos ≤ filterTime) :
    reportedReceipt filterTime (reader.record e) = e.line.receiptCall.map receiptText := by
  rw [reportedReceipt, report_record h]
  obtain ⟨date, seconds, nanos, line, -⟩ := e
  cases line with
  | waiting | awake => rfl
  | state l => cases l <;> rfl

end Records

/-- The messages in the file are those of the tasks for the conversation. -/
theorem length_sendsOf_records [Fintype ι] {m : String × String}
    (h : ∀ e ∈ run.file, ¬ reader.value e.2.seconds e.2.nanos ≤ filterTime) :
    (sendsOf filterTime (reader.records run.file) (toMember m)).length =
      ∑ k with ((run.task k).conf.ourId, (run.task k).conf.group) = m,
        (run.task k).sendCalls := by
  have hlength : (sendsOf filterTime (reader.records run.file) (toMember m)).length =
      (run.file.filter fun e => e.2.line.member = m ∧ e.2.line.sendId.isSome).length := by
    rw [sendsOf_records h, List.length_filterMap_eq_countP, List.countP_filter,
      List.countP_eq_length_filter]
    congr 2
    funext e
    cases e.2.line.sendId <;> simp
  have hmember (e : ι × LogEntry) (he : e ∈ run.file) (hsend : e.2.line.sendId.isSome = true) :
      e.2.line.member = ((run.task e.1).conf.ourId, (run.task e.1).conf.group) := by
    obtain ⟨id, hid⟩ := Option.isSome_iff_exists.mp hsend
    exact Mgen.Task.member_of_sendId (LogRun.line_mem_log he) hid
  rw [hlength, ← sum_countP Prod.fst (Finset.nodup_toList Finset.univ) fun e _ =>
    Finset.mem_toList.mpr (Finset.mem_univ _), Finset.sum_map_toList, Finset.sum_filter]
  refine Finset.sum_congr rfl fun k _ => ?_
  rw [List.countP_filter]
  by_cases hm : ((run.task k).conf.ourId, (run.task k).conf.group) = m
  · rw [if_pos hm, ← Mgen.Task.countP_sendId_log, ← LogRun.countP_file]
    refine List.countP_congr fun e he => ?_
    simp only [Bool.and_eq_true, decide_eq_true_eq]
    constructor
    · rintro ⟨hk, -, hsend⟩
      exact ⟨hk, hsend⟩
    · rintro ⟨rfl, hsend⟩
      exact ⟨rfl, (hmember e he hsend).trans hm, hsend⟩
  · rw [if_neg hm, List.countP_eq_zero]
    intro e he hmatch
    simp only [Bool.and_eq_true, decide_eq_true_eq] at hmatch
    obtain ⟨rfl, hm', hsend⟩ := hmatch
    exact hm ((hmember e he hsend).symm.trans hm')

/-- A prefix of a log that can be read can be read. -/
theorem readLog_prefix {init : LogState F} {results results' : List (Option (Record F))}
    (h : readLog filterTime table init (results ++ results') = .ok s) :
    ∃ s₁, readLog filterTime table init results = .ok s₁ := by
  rw [readLog, List.reduceOption_append, List.foldlM_append] at h
  obtain ⟨s₁, hs₁, -⟩ := Result.bind_eq_ok h
  exact ⟨s₁, hs₁⟩

theorem readBack_of_reads [Fintype ι]
    (hfilter : ∀ e ∈ run.file, ¬ reader.value e.2.seconds e.2.nanos ≤ filterTime)
    (hs : readLog filterTime table ⟨∅, ∅, serializers⟩ ((reader.records run.file).map some) =
      .ok s) : ReadBack reader filterTime table serializers run s := by
  have hreads := readLog_reads hs
  rw [reduceOption_map_some] at hreads
  constructor
  case sentCount =>
    intro m
    rw [hreads.runningValues, entryOf, RunningValue.entry, ← length_sendsOf_records hfilter]
    split
    · rfl
    · rename_i hempty
      simp only [ne_eq, not_or, not_not] at hempty
      rw [hempty.1]
      rfl
  case receipts =>
    intro k
    rw [← Mgen.Task.receiptCalls_log, ← run.lines k, LogReader.records, List.filterMap_map,
      List.filterMap_map, List.map_filterMap]
    refine List.filterMap_congr fun e he => ?_
    exact reportedReceipt_record (hfilter e (List.mem_of_mem_filter he))
  case matched =>
    intro before after e c hfile hc
    rw [hfile, LogReader.records, List.map_append, List.map_append] at hs
    obtain ⟨s₁, hs₁⟩ := readLog_prefix hs
    have hreads₁ := readLog_reads hs₁
    refine ⟨s₁, hs₁, ?_⟩
    rw [reduceOption_map_some] at hreads₁
    rw [hreads₁.sentTimes]
    refine sentTime_records fun e' he' => hfilter e' ?_
    rw [hfile]
    exact List.mem_append_left _ he'

theorem wellFormed_record
    (hfilter : ∀ e ∈ run.file, ¬ reader.value e.2.seconds e.2.nanos ≤ filterTime)
    (htable : ∀ k, ∀ c ∈ (run.task k).receiptCalls, (c.sender.toList, c.group.toList) ∈ table) :
    ∀ r ∈ reader.records run.file, WellFormed filterTime table r := by
  intro r hr
  obtain ⟨e, he, rfl⟩ := List.mem_map.mp hr
  refine ⟨fun _ => ⟨_, action_record⟩, fun {sender id} hreport => ?_⟩
  have hreported := reportedReceipt_record (hfilter e he)
  rw [reportedReceipt, hreport] at hreported
  obtain ⟨c, hc, htext⟩ := Option.map_eq_some_iff.mp hreported.symm
  have hcalls : c ∈ (run.task e.1).receiptCalls := by
    rw [← Mgen.Task.receiptCalls_log]
    exact List.mem_filterMap.mpr ⟨_, LogRun.line_mem_log he, hc⟩
  have hmem := htable e.1 c hcalls
  rw [receiptText, member_record] at htext
  obtain ⟨hmember, hsender⟩ := Prod.ext_iff.mp htext
  have hgroup : c.group.toList = (reader.record e.2).group := congrArg Prod.snd hmember
  have hname : c.sender.toList = sender := congrArg Prod.fst hsender
  rwa [hgroup, hname] at hmem

/-! ### A reader -/

/-- Digits with a point between them. -/
def parseDecimal (t : Text) : Option ℚ :=
  match t.splitOn '.' with
  | [whole, part] => do
    let n ← Text.parseDigits whole
    let k ← Text.parseDigits part
    return n + k / 10 ^ part.length
  | _ => none

theorem exists_parseDecimal (seconds nanos : ℕ) :
    ∃ x, parseDecimal (decimal seconds nanos) = some x := by
  have hdot {n : ℕ} : '.' ∉ Text.ofNat n := fun h =>
    absurd (Text.isDigit_of_mem_ofNat h) (by decide)
  have hpad : ∀ c ∈ List.leftpad 9 '0' (Text.ofNat nanos), c.isDigit = true := by
    intro c hc
    rcases List.mem_append.mp hc with hc | hc
    · rw [List.eq_of_mem_replicate hc]
      decide
    · exact Text.isDigit_of_mem_ofNat hc
  have hne : List.leftpad 9 '0' (Text.ofNat nanos) ≠ [] :=
    List.append_ne_nil_of_right_ne_nil _ Text.ofNat_ne_nil
  have hpart : Text.parseDigits (List.leftpad 9 '0' (Text.ofNat nanos)) =
      some (Nat.ofDigitChars 10 (List.leftpad 9 '0' (Text.ofNat nanos)) 0) :=
    if_pos ⟨hne, List.all_eq_true.mpr hpad⟩
  have hsplit : (decimal seconds nanos).splitOn '.' =
      [Text.ofNat seconds, List.leftpad 9 '0' (Text.ofNat nanos)] := by
    have hpoint : decimal seconds nanos = ['.'].intercalate
        [Text.ofNat seconds, List.leftpad 9 '0' (Text.ofNat nanos)] := by
      simp [decimal, List.intercalate_cons_cons]
    rw [hpoint]
    refine List.splitOn_intercalate '.' ?_ (List.cons_ne_nil _ _)
    simp only [List.forall_mem_cons]
    exact ⟨hdot, fun h => absurd (hpad _ h) (by decide), by simp⟩
  rw [parseDecimal, hsplit]
  simp only [Text.parseDigits_ofNat, hpart]
  exact ⟨_, rfl⟩

theorem lines_rows {rows : List (List Text)}
    (h : ∀ row ∈ rows, 1 < row.length ∧ ∀ f ∈ row, PlainText f) :
    (Text.lines (rows.flatMap fun row => Text.line (Text.commaSeparated row))).map Text.fields =
      rows := by
  induction rows with
  | nil => rfl
  | cons row rows ih =>
    obtain ⟨hlength, hplain⟩ := h row List.mem_cons_self
    have hinline : Text.Inline (Text.commaSeparated row) := by
      intro c hc
      rcases Text.mem_commaSeparated hc with rfl | ⟨f, hf, hc⟩
      · decide
      · exact (hplain f hf c hc).2.2
    have hne : row ≠ [] := List.ne_nil_of_length_pos (Nat.zero_lt_of_lt hlength)
    rw [List.flatMap_cons, Text.lines_line hinline, List.map_cons,
      Text.fields_commaSeparated hne fun f hf hcomma => (hplain f hf _ hcomma).1 rfl,
      ih fun row' hrow' => h row' (List.mem_cons_of_mem row hrow')]

/-- A reader for texts without quotes. -/
def plainReader : LogReader ℚ where
  read t := ((Text.lines t).map Text.fields).map (deserialize parseDecimal)
  parseFloat := parseDecimal
  value seconds nanos := (parseDecimal (decimal seconds nanos)).getD 0
  parseFloat_decimal seconds nanos := by
    obtain ⟨x, hx⟩ := exists_parseDecimal seconds nanos
    rw [hx, Option.getD_some]
  read_rows rows h := by rw [lines_rows h]

/-! ### An example -/

/-- A client that is always idle. -/
def exampleClient : Mgen.ThreadConfig Unit Mgen.StateToWriter where
  p2p := false
  ourId := "A"
  group := "g"
  dists := ⟨fun _ => (⟨1, Mgen.one_le_maxBlocksInBody⟩, ()), fun _ => (1, ()), fun _ => (1, ()),
    fun _ => (1, ()), fun _ => (1, ()), fun _ => (false, ()), fun _ => (false, ())⟩
  streams := ⟨0⟩

/-- It sends a message and gets a receipt for it. -/
def exampleMoments : List Mgen.Moment :=
  [⟨.timer, 5, 5, 5, fun _ => true⟩,
    ⟨.inbound ⟨"B", "A", 0, .receipt⟩, 6, 6, 6, fun _ => true⟩]

def exampleLines : List TaskLine :=
  [.waiting "A" "g" 9563, .awake "A" "g", .state (.idle "A" "g"),
    .state (.send "A" "g" .idle .idle 1 0), .state (.idle "A" "g"),
    .state (.receipt "A" "g" .idle "B" 0)]

def exampleEntry (l : TaskLine) : Unit × LogEntry :=
  ((), ⟨"2000-01-01 00:00:01".toList, 1, 0, l, plainText_of_all (by decide +kernel)⟩)

theorem exists_exampleTask : ∃ task : Mgen.Task Unit Mgen.StateToWriter
    (Mgen.Box Mgen.SerializedMessage), task.PlainNames ∧ task.log = exampleLines ∧
      task.receiptCalls = [⟨"A", "g", "B", 0⟩] := by
  let thread := Mgen.StateThread.start exampleClient.dists 0 ()
  have hlog : (Mgen.StateThread.manageAll (S := Mgen.Box Mgen.SerializedMessage) exampleClient
      thread exampleMoments).map (fun p => (p.1.flatMap (·.log),
        p.1.filterMap (·.receiptCall exampleClient))) =
      .ok ([.idle "A" "g", .send "A" "g" .idle .idle 1 0, .idle "A" "g",
        .receipt "A" "g" .idle "B" 0], [⟨"A", "g", "B", 0⟩]) := rfl
  obtain ⟨⟨outs, last⟩, hrun, heq⟩ := Result.map_eq_ok hlog
  obtain ⟨houts, hcalls⟩ := Prod.mk.inj heq
  let task : Mgen.Task Unit Mgen.StateToWriter (Mgen.Box Mgen.SerializedMessage) :=
    ⟨exampleClient, 9563, thread, exampleMoments, outs, last, hrun, [], by simp, by simp⟩
  have hlines : task.log = exampleLines := by
    change [TaskLine.waiting "A" "g" 9563, .awake "A" "g"] ++
      ((outs.flatMap (·.log)).map .state ++ []) = _
    rw [houts, List.append_nil]
    rfl
  have hplain (name : String) (h : name ∈ ["A", "B", "g"]) : PlainText name.toList := by
    apply plainText_of_all
    revert name
    decide +kernel
  refine ⟨task, ⟨hplain "A" (by decide), hplain "g" (by decide), ?_, by simp [task]⟩, hlines,
    hcalls⟩
  intro t ht msg hwake
  rcases List.mem_cons.mp ht with rfl | ht
  · cases hwake
  · obtain rfl := List.mem_singleton.mp ht
    cases hwake
    exact ⟨hplain "B" (by decide), hplain "A" (by decide)⟩

/-- **The analyser reads what the messenger logs.** The file of any number of tasks is read to its
end if the bootstrap table knows the senders of the receipts, and then what `process_log` has taken
from it is what the tasks did. -/
theorem readLog_readBack [Fintype ι] (table : BootstrapTable F) (serializers : Serializers F)
    (reader : LogReader F) (run : LogRun ι R M S) (hnames : ∀ k, (run.task k).PlainNames)
    (hfilter : ∀ e ∈ run.file, ¬ reader.value e.2.seconds e.2.nanos ≤ filterTime) :
    ((∀ k, ∀ c ∈ (run.task k).receiptCalls, (c.sender.toList, c.group.toList) ∈ table) →
      ∃ s, readLog filterTime table ⟨∅, ∅, serializers⟩ (reader.read run.text) = .ok s) ∧
    ∀ s, readLog filterTime table ⟨∅, ∅, serializers⟩ (reader.read run.text) = .ok s →
      Reads filterTime table serializers (reader.records run.file) s ∧
        ReadBack reader filterTime table serializers run s := by
  rw [reader.read_text hnames]
  constructor
  · intro htable
    apply exists_readLog_eq_ok
    rw [reduceOption_map_some]
    exact wellFormed_record hfilter htable
  · intro s hs
    have hreads := readLog_reads hs
    rw [reduceOption_map_some] at hreads
    exact ⟨hreads, readBack_of_reads hfilter hs⟩

/-- The example. -/
theorem readLog_readBack_example : ∃ (run : LogRun Unit Unit Mgen.StateToWriter
    (Mgen.Box Mgen.SerializedMessage)) (s : LogState ℚ),
    run.file.map (·.2.line) = exampleLines ∧
    readLog (-1) (AList.singleton (['B'], ['g']) 0) ⟨∅, ∅, .empty⟩ (plainReader.read run.text) =
      .ok s ∧
    ReadBack plainReader (-1) (AList.singleton (['B'], ['g']) 0) .empty run s := by
  obtain ⟨task, hnames, hlog, hcalls⟩ := exists_exampleTask
  let run : LogRun Unit Unit Mgen.StateToWriter (Mgen.Box Mgen.SerializedMessage) :=
    ⟨fun _ => task, exampleLines.map exampleEntry, fun _ => hlog.symm⟩
  have hfilter : ∀ e ∈ run.file, ¬ plainReader.value e.2.seconds e.2.nanos ≤ -1 := by
    intro e he
    obtain ⟨l, -, rfl⟩ := List.mem_map.mp he
    have hvalue : ¬ plainReader.value 1 0 ≤ -1 := by decide +kernel
    exact hvalue
  obtain ⟨hread, hback⟩ := readLog_readBack (AList.singleton (['B'], ['g']) 0) .empty plainReader
    run (fun _ => hnames) hfilter
  obtain ⟨s, hs⟩ := hread fun _ c hc => by
    change c ∈ task.receiptCalls at hc
    rw [hcalls] at hc
    obtain rfl := List.mem_singleton.mp hc
    decide
  exact ⟨run, s, rfl, hs, (hback s hs).2⟩

end SignalSim.Mgentools
