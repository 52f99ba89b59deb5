import Mathlib.Data.List.Induction
import SignalSim.Foundations.Histogram
import SignalSim.Foundations.Result
import SignalSim.Foundations.RunningMean
import SignalSim.Mgentools.ProcessLog

/-!
# The receipts of a log

What a log says, without tables: the messages every conversation sends, and the receipts that
count, each with the message it is for. After a log is read, the two tables hold exactly this: a
message's number has the time it was last sent, and a conversation has an entry if it sends a
message or a receipt that counts, with as many of both as there are.

## Main definitions

* `report` — what a record says if it is looked at
* `sendsOf`, `receipts` — the messages and the receipts of a log
* `Reads` — the tables of `process_log` hold what a log says

## Main results

* `readLog_reads` — reading a log
* `processLog_eq_ok` — what is written for it
-/

namespace SignalSim.Mgentools

variable {F : Type} [Floating F]

/-- What a record says after the filter time. -/
def report (filterTime : F) (r : Record F) : Action :=
  if r.time ≤ filterTime then .other
  else match r.action with
    | .ok a => a
    | .error _ => .other

/-- The messages of a conversation: their numbers and times. -/
def sendsOf (filterTime : F) (rs : List (Record F)) (m : Member) : List (ℕ × F) :=
  rs.filterMap fun r => match report filterTime r with
    | .send id => if r.member = m then some (id, r.time) else none
    | _ => none

/-- When a message was last sent. -/
def sentTime (filterTime : F) (rs : List (Record F)) (m : Member) (id : ℕ) : Option F :=
  (((sendsOf filterTime rs m).filter fun s => s.1 = id).getLast?).map (·.2)

/-- A receipt and the message it is for. -/
structure Receipt (F : Type) where
  /-- Who sent the message. -/
  member : Member
  id : ℕ
  /-- Who sent the receipt. -/
  sender : Member
  sent : F
  received : F
  deriving DecidableEq

/-- The round-trip time. -/
def Receipt.rtt (c : Receipt F) : F := c.received - c.sent

/-- The receipt a record reports after the records `before`, if it counts. -/
def counted (filterTime : F) (table : BootstrapTable F) (before : List (Record F))
    (r : Record F) : Option (Receipt F) :=
  match report filterTime r with
  | .receipt sender id => do
    let bootstrapTime ← table.lookup (sender, r.group)
    let sent ← sentTime filterTime before r.member id
    if bootstrapTime > sent then none else some ⟨r.member, id, (sender, r.group), sent, r.time⟩
  | _ => none

/-- The receipts that count among records after others. -/
def receiptsAfter (filterTime : F) (table : BootstrapTable F) (before : List (Record F)) :
    List (Record F) → List (Receipt F)
  | [] => []
  | r :: rs => (counted filterTime table before r).toList ++
      receiptsAfter filterTime table (before ++ [r]) rs

/-- The receipts of a log that count. -/
def receipts (filterTime : F) (table : BootstrapTable F) (rs : List (Record F)) :
    List (Receipt F) :=
  receiptsAfter filterTime table [] rs

/-- The round-trip times of the receipts in which a conversation has a role. -/
def rttsOf (role : Receipt F → Member) (cs : List (Receipt F)) (m : Member) : List F :=
  (cs.filter fun c => role c = m).map (·.rtt)

/-- The round-trip times of the receipts for a conversation's messages. -/
abbrev incomingOf (cs : List (Receipt F)) (m : Member) : List F := rttsOf Receipt.member cs m

/-- The round-trip times of the receipts that a conversation sent. -/
abbrev outgoingOf (cs : List (Receipt F)) (m : Member) : List F := rttsOf Receipt.sender cs m

/-- How many round-trip times are beyond the timeout. -/
def lateCount (xs : List F) : ℕ := xs.countP fun x => timeout < x

/-- The number that a counter shows. -/
def shown (n : ℕ) : F := (UInt32.ofNat n).toNat

/-- The running values after some messages and receipts. -/
def RunningValue.of (sends : ℕ) (incoming outgoing : List F) : RunningValue F where
  sentCount := .ofNat sends
  sentTimeout := .ofNat (lateCount incoming)
  incomingReceiptCount := .ofNat incoming.length
  outgoingReceiptCount := .ofNat outgoing.length
  receiptTimeout := .ofNat (lateCount outgoing)
  runningRttMean := runningMean shown incoming

namespace RunningValue

variable {n : ℕ} {xs ys : List F} {x : F}

theorem zero_eq : (zero : RunningValue F) = of 0 [] [] := rfl

theorem lateCount_concat :
    UInt32.ofNat (lateCount (xs ++ [x])) =
      if timeout < x then .ofNat (lateCount xs) + 1 else .ofNat (lateCount xs) := by
  rw [lateCount, List.countP_append, List.countP_singleton]
  by_cases hx : timeout < x
  · simp [hx, lateCount, UInt32.ofNat_add]
  · simp [hx, lateCount]

@[simp] theorem send_of : (of n xs ys).send = of (n + 1) xs ys := by
  simp [send, of, UInt32.ofNat_add]

@[simp] theorem incoming_of : (of n xs ys).incoming x = of n (xs ++ [x]) ys := by
  simp only [incoming, of, lateCount_concat, runningMean_concat, shown, List.length_append,
    List.length_singleton, UInt32.ofNat_add, UInt32.ofNat_one]

@[simp] theorem outgoing_of : (of n xs ys).outgoing x = of n xs (ys ++ [x]) := by
  simp only [outgoing, of, lateCount_concat, List.length_append, List.length_singleton,
    UInt32.ofNat_add, UInt32.ofNat_one]

/-- The entry of a conversation: there is one as soon as it sends a message or a receipt. -/
def entry (sends : ℕ) (incoming outgoing : List F) : Option (RunningValue F) :=
  if sends ≠ 0 ∨ outgoing ≠ [] then some (of sends incoming outgoing) else none

theorem entry_send (h : n = 0 → xs = []) :
    some (((entry n xs ys).map send).getD first) = entry (n + 1) xs ys := by
  have hsucc : entry (n + 1) xs ys = some (of (n + 1) xs ys) := if_pos (.inl n.succ_ne_zero)
  rw [hsucc, entry]
  split
  · rw [Option.map_some, Option.getD_some, send_of]
  · rename_i hempty
    simp only [ne_eq, not_or, not_not] at hempty
    rw [hempty.1, hempty.2, h hempty.1]
    rfl

theorem entry_incoming : (entry n xs ys).map (incoming x) = entry n (xs ++ [x]) ys := by
  unfold entry
  split
  · rw [Option.map_some, incoming_of]
  · rfl

theorem entry_outgoing (h : n = 0 → xs = []) :
    some (outgoing x ((entry n xs ys).getD zero)) = entry n xs (ys ++ [x]) := by
  have hconcat : entry n xs (ys ++ [x]) = some (of n xs (ys ++ [x])) := if_pos (.inr (by simp))
  rw [hconcat, entry]
  split
  · rw [Option.getD_some, outgoing_of]
  · rename_i hempty
    simp only [ne_eq, not_or, not_not] at hempty
    rw [hempty.1, hempty.2, h hempty.1, Option.getD_none, zero_eq, outgoing_of]

end RunningValue

variable {filterTime : F} {table : BootstrapTable F} {before rs : List (Record F)} {r : Record F}
  {m : Member} {id : ℕ} {c : Receipt F} {cs : List (Receipt F)} {role : Receipt F → Member}

/-! ### What a record says -/

theorem action_of_report {a : Action} (h : report filterTime r = a) (ha : a ≠ .other) :
    ¬ r.time ≤ filterTime ∧ r.action = .ok a := by
  unfold report at h
  split at h
  · exact absurd h.symm ha
  · rename_i htime
    refine ⟨htime, ?_⟩
    cases haction : r.action with
    | error e =>
      rw [haction] at h
      exact absurd h.symm ha
    | ok a' =>
      rw [haction] at h
      exact congrArg Except.ok h

theorem index_eq_ok {data : List Text} {i : ℕ} {t : Text} (h : index data i = .ok t) :
    data[i]? = some t := by
  unfold index at h
  cases hi : data[i]? with
  | none =>
    rw [hi] at h
    cases h
  | some t' =>
    rw [hi] at h
    exact congrArg some (Except.ok.inj h)

omit [Floating F] in
/-- A message is reported by the verb of messages. -/
theorem verb_of_send (h : r.action = .ok (.send id)) :
    r.actionData[0]? = some "send".toList := by
  obtain ⟨verb, hverb, h⟩ := Result.bind_eq_ok h
  rw [index_eq_ok hverb]
  split at h
  · rename_i heq
    rw [heq]
  · split at h
    · obtain ⟨kind, -, h⟩ := Result.bind_eq_ok h
      split at h
      · cases h
      · obtain ⟨sender, -, h⟩ := Result.bind_eq_ok h
        obtain ⟨numeral, -, h⟩ := Result.bind_eq_ok h
        obtain ⟨id', -, h⟩ := Result.bind_eq_ok h
        cases h
    · cases h

/-! ### One more record -/

theorem sendsOf_concat_of_send (h : report filterTime r = .send id) :
    sendsOf filterTime (rs ++ [r]) m =
      sendsOf filterTime rs m ++ if r.member = m then [(id, r.time)] else [] := by
  rw [sendsOf, List.filterMap_append, sendsOf, List.filterMap_cons, h]
  by_cases hm : r.member = m <;> simp [hm]

theorem sendsOf_concat (h : ∀ id, report filterTime r ≠ .send id) :
    sendsOf filterTime (rs ++ [r]) m = sendsOf filterTime rs m := by
  rw [sendsOf, List.filterMap_append, sendsOf, List.filterMap_cons]
  cases hr : report filterTime r with
  | send id => exact absurd hr (h id)
  | receipt sender id => simp
  | other => simp

theorem mem_sendsOf {time : F} : (id, time) ∈ sendsOf filterTime rs m ↔
    ∃ r ∈ rs, report filterTime r = .send id ∧ r.member = m ∧ r.time = time := by
  rw [sendsOf, List.mem_filterMap]
  constructor
  · rintro ⟨r, hr, hsome⟩
    split at hsome
    · rename_i id' hreport
      obtain ⟨hm, hsome⟩ := Option.ite_none_right_eq_some.mp hsome
      cases hsome
      exact ⟨r, hr, hreport, hm, rfl⟩
    · cases hsome
  · rintro ⟨r, hr, hreport, hm, rfl⟩
    refine ⟨r, hr, ?_⟩
    rw [hreport]
    exact if_pos hm

theorem sentTime_concat (h : ∀ id, report filterTime r ≠ .send id) :
    sentTime filterTime (rs ++ [r]) m id = sentTime filterTime rs m id := by
  rw [sentTime, sendsOf_concat h, sentTime]

theorem sentTime_concat_of_send {id' : ℕ} (h : report filterTime r = .send id) :
    sentTime filterTime (rs ++ [r]) m id' =
      if r.member = m ∧ id = id' then some r.time else sentTime filterTime rs m id' := by
  rw [sentTime, sendsOf_concat_of_send h, List.filter_append, sentTime]
  by_cases hm : r.member = m
  · by_cases hid : id = id'
    · simp [hm, hid]
    · simp [hm, hid]
  · simp [hm]

/-- Only messages change what a receipt is for. -/
theorem counted_concat {r' : Record F} (h : ∀ id, report filterTime r ≠ .send id) :
    counted filterTime table (rs ++ [r]) r' = counted filterTime table rs r' := by
  unfold counted
  simp only [sentTime_concat h]

theorem sendsOf_ne_nil_of_sentTime {time : F} (h : sentTime filterTime rs m id = some time) :
    sendsOf filterTime rs m ≠ [] := by
  intro hnil
  rw [sentTime, hnil] at h
  cases h

theorem receiptsAfter_append {rs' : List (Record F)} :
    receiptsAfter filterTime table before (rs ++ rs') =
      receiptsAfter filterTime table before rs ++
        receiptsAfter filterTime table (before ++ rs) rs' := by
  induction rs generalizing before with
  | nil => simp [receiptsAfter]
  | cons r rs ih => simp [receiptsAfter, ih]

theorem receipts_concat : receipts filterTime table (rs ++ [r]) =
    receipts filterTime table rs ++ (counted filterTime table rs r).toList := by
  simp [receipts, receiptsAfter_append, receiptsAfter]

theorem rttsOf_concat : rttsOf role (cs ++ [c]) m =
    rttsOf role cs m ++ if role c = m then [c.rtt] else [] := by
  by_cases hm : role c = m <;> simp [rttsOf, hm]

theorem incomingOf_concat : incomingOf (cs ++ [c]) m =
    incomingOf cs m ++ if c.member = m then [c.rtt] else [] := rttsOf_concat

theorem outgoingOf_concat : outgoingOf (cs ++ [c]) m =
    outgoingOf cs m ++ if c.sender = m then [c.rtt] else [] := rttsOf_concat

theorem length_rttsOf : (rttsOf role cs m).length = cs.countP fun c => role c = m := by
  rw [rttsOf, List.length_map, List.countP_eq_length_filter]

theorem lateCount_rttsOf : lateCount (rttsOf role cs m) =
    (cs.filter fun c => timeout < c.rtt).countP fun c => role c = m := by
  rw [lateCount, rttsOf, List.countP_map, List.countP_filter, List.countP_filter]
  simp only [Function.comp_def, Bool.and_comm]

theorem rttsOf_ne_nil : rttsOf role cs m ≠ [] ↔ ∃ c ∈ cs, role c = m := by
  simp [rttsOf]

/-! ### Receipts and messages -/

theorem counted_eq_some (h : counted filterTime table before r = some c) :
    ∃ sender, report filterTime r = .receipt sender c.id ∧ r.member = c.member ∧
      c.sender = (sender, r.group) ∧ sentTime filterTime before c.member c.id = some c.sent ∧
      c.received = r.time ∧ ∃ start, table.lookup c.sender = some start ∧ ¬ start > c.sent := by
  unfold counted at h
  split at h
  · rename_i sender id hr
    obtain ⟨start, hstart, h⟩ := Option.bind_eq_some_iff.mp h
    obtain ⟨sent, hsent, h⟩ := Option.bind_eq_some_iff.mp h
    obtain ⟨hle, h⟩ := Option.ite_none_left_eq_some.mp h
    cases h
    exact ⟨sender, hr, rfl, rfl, hsent, rfl, start, hstart, hle⟩
  · cases h

theorem mem_receipts : c ∈ receipts filterTime table rs ↔
    ∃ before r after, rs = before ++ r :: after ∧ counted filterTime table before r = some c := by
  induction rs using List.reverseRecOn with
  | nil => simp [receipts, receiptsAfter]
  | append_singleton rs r ih =>
    rw [receipts_concat, List.mem_append, ih, Option.mem_toList]
    constructor
    · rintro (⟨before, r', after, rfl, hc⟩ | hc)
      · exact ⟨before, r', after ++ [r], by simp, hc⟩
      · exact ⟨rs, r, [], rfl, hc⟩
    · rintro ⟨before, r', after, heq, hc⟩
      rcases List.eq_nil_or_concat after with rfl | ⟨after, r'', rfl⟩
      · obtain ⟨rfl, hr⟩ := List.append_inj' heq rfl
        cases hr
        exact .inr hc
      · rw [List.concat_eq_append, ← List.cons_append, ← List.append_assoc] at heq
        obtain ⟨rfl, -⟩ := List.append_inj' heq rfl
        exact .inl ⟨before, r', after, rfl, hc⟩

/-- A receipt that counts is for a message of its conversation. -/
theorem sendsOf_ne_nil (h : c ∈ receipts filterTime table rs) :
    sendsOf filterTime rs c.member ≠ [] := by
  obtain ⟨before, r, after, rfl, hc⟩ := mem_receipts.mp h
  obtain ⟨-, -, -, -, hsent, -⟩ := counted_eq_some hc
  rw [sendsOf, List.filterMap_append]
  exact List.append_ne_nil_of_left_ne_nil (sendsOf_ne_nil_of_sentTime hsent) _

/-! ### Reading a log -/

/-- Without a message a conversation has no receipts that count. -/
theorem incomingOf_eq_nil (h : (sendsOf filterTime rs m).length = 0) :
    incomingOf (receipts filterTime table rs) m = [] := by
  by_contra hne
  obtain ⟨c, hc, rfl⟩ := rttsOf_ne_nil.mp hne
  exact sendsOf_ne_nil hc (List.eq_nil_of_length_eq_zero h)

/-- The running values of a conversation in a log. -/
def entryOf (filterTime : F) (table : BootstrapTable F) (rs : List (Record F)) (m : Member) :
    Option (RunningValue F) :=
  RunningValue.entry (sendsOf filterTime rs m).length (incomingOf (receipts filterTime table rs) m)
    (outgoingOf (receipts filterTime table rs) m)

/-- The state of `process_log` after some records, when the files held `serializers` before. -/
structure Reads (filterTime : F) (table : BootstrapTable F) (serializers : Serializers F)
    (rs : List (Record F)) (s : LogState F) : Prop where
  sentTimes (m : Member) (id : ℕ) : s.sentTimes.lookup (m, id) = sentTime filterTime rs m id
  runningValues (m : Member) : s.runningValues.lookup m = entryOf filterTime table rs m
  serializers : s.serializers = { serializers with
    rttAll := serializers.rttAll ++ (receipts filterTime table rs).map (·.rtt)
    rttTimeout := serializers.rttTimeout ++
      ((receipts filterTime table rs).map (·.rtt)).filter (· ≤ timeout) }

/-- What a record does. -/
theorem processRecord_eq_ok {s s' : LogState F}
    (hs : ∀ m id, s.sentTimes.lookup (m, id) = sentTime filterTime rs m id)
    (h : processRecord filterTime table s r = .ok s') :
    (∃ id, report filterTime r = .send id ∧ s' = s.send r.member id r.time) ∨
    (∀ id, report filterTime r ≠ .send id) ∧
      ((∃ c, counted filterTime table rs r = some c ∧ s' = s.receipt c.member c.sender c.rtt) ∨
        counted filterTime table rs r = none ∧ s' = s) := by
  unfold processRecord at h
  split at h
  · rename_i htime
    cases h
    have hother : report filterTime r = .other := if_pos htime
    exact .inr ⟨by simp [hother], .inr ⟨by simp [counted, hother], rfl⟩⟩
  · rename_i htime
    obtain ⟨a, ha, h⟩ := Result.bind_eq_ok h
    have hreport : report filterTime r = a := by rw [report, if_neg htime, ha]
    cases a with
    | send id =>
      cases h
      exact .inl ⟨id, hreport, rfl⟩
    | other =>
      cases h
      exact .inr ⟨by simp [hreport], .inr ⟨by simp [counted, hreport], rfl⟩⟩
    | receipt sender id =>
      refine .inr ⟨by simp [hreport], ?_⟩
      obtain ⟨start, hstart, h⟩ := Result.bind_eq_ok h
      have hlookup : table.lookup (sender, r.group) = some start := by
        cases hl : table.lookup (sender, r.group) with
        | none =>
          rw [hl] at hstart
          cases hstart
        | some _ =>
          rw [hl] at hstart
          cases hstart
          rfl
      rw [hs] at h
      split at h
      · rename_i hnone
        cases h
        exact .inr ⟨by simp [counted, hreport, hlookup, hnone], rfl⟩
      · rename_i sent hsent
        split at h
        · rename_i hlt
          cases h
          exact .inr ⟨by simp [counted, hreport, hlookup, hsent, hlt], rfl⟩
        · rename_i hle
          cases h
          exact .inl ⟨⟨r.member, id, (sender, r.group), sent, r.time⟩,
            by simp [counted, hreport, hlookup, hsent, hle], rfl⟩

namespace Reads

variable {serializers : Serializers F} {s s' : LogState F}

/-- Before the first record. -/
theorem empty : Reads filterTime table serializers [] ⟨∅, ∅, serializers⟩ where
  sentTimes m id := by simp [sentTime, sendsOf]
  runningValues m := rfl
  serializers := by simp [receipts, receiptsAfter]

theorem send (hs : Reads filterTime table serializers rs s)
    (hr : report filterTime r = .send id) :
    Reads filterTime table serializers (rs ++ [r]) (s.send r.member id r.time) := by
  have hcounted : counted filterTime table rs r = none := by simp [counted, hr]
  have hreceipts : receipts filterTime table (rs ++ [r]) = receipts filterTime table rs := by
    rw [receipts_concat, hcounted, Option.toList_none, List.append_nil]
  constructor
  · intro m id'
    rw [sentTime_concat_of_send hr, ← hs.sentTimes]
    by_cases hm : r.member = m ∧ id = id'
    · obtain ⟨rfl, rfl⟩ := hm
      rw [if_pos ⟨rfl, rfl⟩]
      exact AList.lookup_insert _
    · rw [if_neg hm]
      refine AList.lookup_insert_ne fun heq => hm ?_
      cases heq
      exact ⟨rfl, rfl⟩
  · intro m
    rw [LogState.send, Entry.lookup_orInsert, Entry.lookup_andModify, Entry.lookup_andModify,
      if_pos rfl, hs.runningValues, hs.runningValues, entryOf, entryOf, entryOf, hreceipts,
      sendsOf_concat_of_send hr]
    by_cases hm : m = r.member
    · subst hm
      rw [if_pos rfl, if_pos rfl, List.length_append, List.length_singleton]
      exact RunningValue.entry_send incomingOf_eq_nil
    · rw [if_neg hm, if_neg hm, if_neg (Ne.symm hm), List.append_nil]
  · rw [hreceipts]
    exact hs.serializers

theorem receipt (hs : Reads filterTime table serializers rs s)
    (hr : ∀ id, report filterTime r ≠ .send id)
    (hc : counted filterTime table rs r = some c) :
    Reads filterTime table serializers (rs ++ [r]) (s.receipt c.member c.sender c.rtt) := by
  have hreceipts : receipts filterTime table (rs ++ [r]) =
      receipts filterTime table rs ++ [c] := by
    rw [receipts_concat, hc, Option.toList_some]
  constructor
  · intro m id
    rw [sentTime_concat hr]
    exact hs.sentTimes m id
  · intro m
    -- the table after the first change, at any key
    have hincoming (j : Member) :
        (Entry.andModify c.member (.incoming c.rtt) s.runningValues).lookup j =
          RunningValue.entry (sendsOf filterTime (rs ++ [r]) j).length
            (incomingOf (receipts filterTime table (rs ++ [r])) j)
            (outgoingOf (receipts filterTime table rs) j) := by
      rw [Entry.lookup_andModify, hs.runningValues, hs.runningValues, entryOf, entryOf,
        sendsOf_concat hr, hreceipts, incomingOf_concat]
      by_cases hj : j = c.member
      · subst hj
        rw [if_pos rfl, if_pos rfl, RunningValue.entry_incoming]
      · rw [if_neg hj, if_neg (Ne.symm hj), List.append_nil]
    rw [LogState.receipt, Entry.lookup_andModify, Entry.lookup_orInsert, Entry.lookup_orInsert,
      if_pos rfl, hincoming, hincoming, entryOf, hreceipts, outgoingOf_concat, ← hreceipts]
    by_cases hm : m = c.sender
    · subst hm
      rw [if_pos rfl, if_pos rfl, Option.map_some]
      exact RunningValue.entry_outgoing incomingOf_eq_nil
    · rw [if_neg hm, if_neg hm, if_neg (Ne.symm hm), List.append_nil]
  · rw [LogState.receipt, hs.serializers, hreceipts]
    by_cases hle : c.rtt ≤ timeout <;> simp [hle]

theorem other (hs : Reads filterTime table serializers rs s)
    (hr : ∀ id, report filterTime r ≠ .send id) (hc : counted filterTime table rs r = none) :
    Reads filterTime table serializers (rs ++ [r]) s := by
  have hreceipts : receipts filterTime table (rs ++ [r]) = receipts filterTime table rs := by
    rw [receipts_concat, hc, Option.toList_none, List.append_nil]
  constructor
  · intro m id
    rw [sentTime_concat hr]
    exact hs.sentTimes m id
  · intro m
    rw [hs.runningValues, entryOf, entryOf, sendsOf_concat hr, hreceipts]
  · rw [hreceipts]
    exact hs.serializers

/-- One more record. -/
theorem processRecord (hs : Reads filterTime table serializers rs s)
    (h : processRecord filterTime table s r = .ok s') :
    Reads filterTime table serializers (rs ++ [r]) s' := by
  rcases processRecord_eq_ok hs.sentTimes h with
    ⟨id, hr, rfl⟩ | ⟨hr, ⟨c, hc, rfl⟩ | ⟨hc, rfl⟩⟩
  · exact hs.send hr
  · exact hs.receipt hr hc
  · exact hs.other hr hc

/-- More records. -/
theorem foldlM {rs' : List (Record F)} (hs : Reads filterTime table serializers rs s)
    (h : rs'.foldlM (Mgentools.processRecord filterTime table) s = .ok s') :
    Reads filterTime table serializers (rs ++ rs') s' := by
  induction rs' generalizing rs s with
  | nil =>
    cases h
    rwa [List.append_nil]
  | cons r rs' ih =>
    rw [List.foldlM_cons] at h
    obtain ⟨s₁, hs₁, h⟩ := Result.bind_eq_ok h
    have hrest := ih (hs.processRecord hs₁) h
    rwa [List.append_assoc, List.singleton_append] at hrest

end Reads

theorem readLog_reads {serializers : Serializers F} {s : LogState F}
    {results : List (Option (Record F))}
    (h : readLog filterTime table ⟨∅, ∅, serializers⟩ results = .ok s) :
    Reads filterTime table serializers results.reduceOption s :=
  Reads.empty.foldlM h

/-- The running values of a conversation that has an entry. -/
def valueOf (filterTime : F) (table : BootstrapTable F) (rs : List (Record F)) (m : Member) :
    RunningValue F :=
  .of (sendsOf filterTime rs m).length (incomingOf (receipts filterTime table rs) m)
    (outgoingOf (receipts filterTime table rs) m)

namespace Reads

variable {serializers : Serializers F} {s : LogState F}

theorem eq_valueOf (hs : Reads filterTime table serializers rs s) {v : RunningValue F}
    (h : s.runningValues.lookup m = some v) : v = valueOf filterTime table rs m := by
  rw [hs.runningValues, entryOf, RunningValue.entry] at h
  exact (Option.some.inj (Option.ite_none_right_eq_some.mp h).2).symm

/-- Which conversations have an entry. -/
theorem mem_keys (hs : Reads filterTime table serializers rs s) : m ∈ s.runningValues.keys ↔
    sendsOf filterTime rs m ≠ [] ∨ outgoingOf (receipts filterTime table rs) m ≠ [] := by
  rw [← AList.mem_keys, ← AList.lookup_isSome, hs.runningValues, entryOf, RunningValue.entry,
    Option.isSome_ite]
  simp only [ne_eq, List.length_eq_zero_iff]

theorem member_mem_keys (hs : Reads filterTime table serializers rs s)
    (h : c ∈ receipts filterTime table rs) : c.member ∈ s.runningValues.keys :=
  hs.mem_keys.mpr (.inl (sendsOf_ne_nil h))

theorem sender_mem_keys (hs : Reads filterTime table serializers rs s)
    (h : c ∈ receipts filterTime table rs) : c.sender ∈ s.runningValues.keys :=
  hs.mem_keys.mpr (.inr (rttsOf_ne_nil.mpr ⟨c, h, rfl⟩))

/-- What the entries say, key by key. -/
theorem map_entries {γ : Type} (hs : Reads filterTime table serializers rs s)
    (g : Member → RunningValue F → γ) : s.runningValues.entries.map (fun e => g e.1 e.2) =
      s.runningValues.keys.map fun m => g m (valueOf filterTime table rs m) := by
  refine Entry.map_entries fun m v h => ?_
  rw [← hs.eq_valueOf h]

theorem map_values {γ : Type} (hs : Reads filterTime table serializers rs s)
    (g : RunningValue F → γ) : s.values.map g =
      s.runningValues.keys.map fun m => g (valueOf filterTime table rs m) := by
  rw [LogState.values, List.map_map]
  exact hs.map_entries fun _ v => g v

end Reads

/-- A record that stops nothing: after the filter time its fields are what its action needs, and
the table has a time for the sender of a receipt. -/
structure WellFormed (filterTime : F) (table : BootstrapTable F) (r : Record F) : Prop where
  action : ¬ r.time ≤ filterTime → ∃ a, r.action = .ok a
  covered {sender : Text} {id : ℕ} :
    report filterTime r = .receipt sender id → (sender, r.group) ∈ table

theorem WellFormed.processRecord_isOk (hr : WellFormed filterTime table r) (s : LogState F) :
    ∃ s', processRecord filterTime table s r = .ok s' := by
  unfold processRecord
  by_cases htime : r.time ≤ filterTime
  · rw [if_pos htime]
    exact ⟨s, rfl⟩
  · obtain ⟨a, ha⟩ := hr.action htime
    have hreport : report filterTime r = a := by rw [report, if_neg htime, ha]
    rw [if_neg htime, ha]
    cases a with
    | send id => exact ⟨_, rfl⟩
    | other => exact ⟨_, rfl⟩
    | receipt sender id =>
      obtain ⟨start, hstart⟩ := Option.isSome_iff_exists.mp
        (AList.lookup_isSome.mpr (hr.covered hreport))
      simp only [Result.ok_bind, hstart, Option.elim_some]
      cases s.sentTimes.lookup (r.member, id) with
      | none => exact ⟨_, rfl⟩
      | some sent =>
        by_cases hlt : start > sent
        · exact ⟨s, if_pos hlt⟩
        · exact ⟨_, if_neg hlt⟩

theorem exists_readLog_eq_ok {s : LogState F} {results : List (Option (Record F))}
    (h : ∀ r ∈ results.reduceOption, WellFormed filterTime table r) :
    ∃ s', readLog filterTime table s results = .ok s' := by
  unfold readLog
  generalize results.reduceOption = rs at h
  induction rs generalizing s with
  | nil => exact ⟨s, rfl⟩
  | cons r rs ih =>
    obtain ⟨s₁, hs₁⟩ := (h r List.mem_cons_self).processRecord_isOk s
    rw [List.foldlM_cons, hs₁]
    exact ih fun r' hr' => h r' (List.mem_cons_of_mem r hr')

/-! ### What is written -/

/-- The outputs of two logs. -/
def Serializers.append (s t : Serializers F) : Serializers F :=
  ⟨s.rttAll ++ t.rttAll, s.rttTimeout ++ t.rttTimeout, s.rttMean ++ t.rttMean,
    s.sentCount ++ t.sentCount, s.timeoutBySend ++ t.timeoutBySend,
    s.timeoutByReceive ++ t.timeoutByReceive⟩

/-- The assertions hold: timeouts are counted with receipts. -/
structure RunningValue.Settled (v : RunningValue F) : Prop where
  incoming : v.incomingReceiptCount = 0 → v.sentTimeout = 0
  outgoing : v.outgoingReceiptCount = 0 → v.receiptTimeout = 0

/-- What is written of round-trip times and entries. -/
def written (rtts : List F) (vs : List (RunningValue F)) : Serializers F where
  rttAll := rtts
  rttTimeout := rtts.filter (· ≤ timeout)
  rttMean := vs.map (·.runningRttMean)
  sentCount := vs.map (·.sentCount)
  timeoutBySend := (vs.filter fun v => v.incomingReceiptCount ≠ 0).map fun v =>
    (v.sentTimeout.toNat : F) / v.incomingReceiptCount.toNat
  timeoutByReceive := (vs.filter fun v => v.outgoingReceiptCount ≠ 0).map fun v =>
    (v.receiptTimeout.toNat : F) / v.outgoingReceiptCount.toNat

theorem fraction_eq_ok {timeouts n : UInt32} (h : n = 0 → timeouts = 0) :
    fraction timeouts n = .ok (if n ≠ 0 then [(timeouts.toNat : F) / n.toNat] else []) := by
  unfold fraction
  by_cases hn : n = 0
  · rw [if_neg (not_not.mpr hn), if_neg (not_not.mpr hn), if_pos ((h hn).trans hn.symm)]
  · rw [if_pos hn, if_pos hn]

theorem of_fraction_eq_ok {timeouts n : UInt32} {l : List F} (h : fraction timeouts n = .ok l) :
    n = 0 → timeouts = 0 := by
  intro hn
  by_contra hne
  rw [fraction, if_neg (not_not.mpr hn), if_neg fun heq => hne (heq.trans hn)] at h
  cases h

theorem writeValue_of_settled {s : Serializers F} {v : RunningValue F} (hv : v.Settled) :
    writeValue s v = .ok (s.append (written [] [v])) := by
  rw [writeValue, fraction_eq_ok hv.incoming, fraction_eq_ok hv.outgoing]
  by_cases hin : v.incomingReceiptCount = 0 <;> by_cases hout : v.outgoingReceiptCount = 0 <;>
    simp [hin, hout, Serializers.append, written, Result.ok_bind, Result.pure_eq_ok]

theorem settled_of_writeValue {s s' : Serializers F} {v : RunningValue F}
    (h : writeValue s v = .ok s') : v.Settled := by
  obtain ⟨bySend, hsend, h⟩ := Result.bind_eq_ok h
  obtain ⟨byReceive, hreceive, -⟩ := Result.bind_eq_ok h
  exact ⟨of_fraction_eq_ok hsend, of_fraction_eq_ok hreceive⟩

theorem append_written (s : Serializers F) (rtts rtts' : List F) (vs vs' : List (RunningValue F)) :
    (s.append (written rtts vs)).append (written rtts' vs') =
      s.append (written (rtts ++ rtts') (vs ++ vs')) := by
  simp [Serializers.append, written]

theorem append_written_nil (s : Serializers F) : s.append (written [] []) = s := by
  simp [Serializers.append, written]

theorem foldlM_writeValue {s : Serializers F} {vs : List (RunningValue F)}
    (h : ∀ v ∈ vs, v.Settled) : vs.foldlM writeValue s = .ok (s.append (written [] vs)) := by
  induction vs generalizing s with
  | nil => rw [append_written_nil]; rfl
  | cons v vs ih =>
    rw [List.foldlM_cons, writeValue_of_settled (h v List.mem_cons_self)]
    refine (ih fun v' hv' => h v' (List.mem_cons_of_mem v hv')).trans ?_
    rw [append_written]
    rfl

theorem settled_of_foldlM {s s' : Serializers F} {vs : List (RunningValue F)}
    (h : vs.foldlM writeValue s = .ok s') : ∀ v ∈ vs, v.Settled := by
  induction vs generalizing s with
  | nil => exact fun v hv => absurd hv List.not_mem_nil
  | cons v vs ih =>
    rw [List.foldlM_cons] at h
    obtain ⟨s₁, hs₁, h⟩ := Result.bind_eq_ok h
    intro v' hv'
    rcases List.mem_cons.mp hv' with rfl | hv'
    · exact settled_of_writeValue hs₁
    · exact ih h v' hv'

variable {serializers : Serializers F} {s : LogState F} {results : List (Option (Record F))}

/-- What is written for a file that is read. -/
theorem Reads.foldlM_writeValue (hs : Reads filterTime table serializers rs s)
    (hv : ∀ v ∈ s.values, v.Settled) : s.values.foldlM writeValue s.serializers =
      .ok (serializers.append
        (written ((receipts filterTime table rs).map (·.rtt)) s.values)) := by
  have happend : s.serializers =
      serializers.append (written ((receipts filterTime table rs).map (·.rtt)) []) := by
    rw [hs.serializers]
    simp [Serializers.append, written]
  rw [Mgentools.foldlM_writeValue hv, happend, append_written, List.append_nil, List.nil_append]

theorem processLog_of_readLog (h : readLog filterTime table ⟨∅, ∅, serializers⟩ results = .ok s)
    (hv : ∀ v ∈ s.values, v.Settled) : processLog filterTime table serializers results =
      .ok (serializers.append (written
        ((receipts filterTime table results.reduceOption).map (·.rtt)) s.values)) := by
  rw [processLog, h]
  exact (readLog_reads h).foldlM_writeValue hv

theorem processLog_eq_ok {serializers' : Serializers F}
    (h : processLog filterTime table serializers results = .ok serializers') :
    ∃ s, readLog filterTime table ⟨∅, ∅, serializers⟩ results = .ok s ∧
      (∀ v ∈ s.values, v.Settled) ∧
      serializers' = serializers.append (written
        ((receipts filterTime table results.reduceOption).map (·.rtt)) s.values) := by
  obtain ⟨s, hs, h⟩ := Result.bind_eq_ok h
  have hv := settled_of_foldlM h
  rw [(readLog_reads hs).foldlM_writeValue hv] at h
  exact ⟨s, hs, hv, (Except.ok.inj h).symm⟩

end SignalSim.Mgentools
