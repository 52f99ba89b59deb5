import Mathlib.Data.UInt
import Mathlib.Algebra.Order.Field.Rat
import Mathlib.Tactic.Positivity
import SignalSim.Mgentools.Accounting

/-!
# The receipts balance

Every receipt that counts is one round-trip time, one incoming receipt of the conversation whose
message it is for, and one outgoing receipt of its sender's; it is late for all three or for none.
So the sums over the entries agree with the numbers of elements, as long as no counter wraps
around: the counters have 32 bits, and `2 ^ 32` receipts are none.

## Main results

* `processLog_balances` — the numbers agree, the fractions are fractions and the means are means
* `not_balances_exampleLog` — a log with too many receipts
-/

namespace SignalSim.Mgentools

variable {filterTime : ℚ} {table : BootstrapTable ℚ} {serializers : Serializers ℚ}
  {rs : List (Record ℚ)} {results : List (Option (Record ℚ))} {s : LogState ℚ} {m : Member}
  {cs : List (Receipt ℚ)}

/-- What a log's entries and its output have to do with each other. -/
structure Balanced (cs : List (Receipt ℚ)) (s : LogState ℚ) (out : Serializers ℚ) : Prop where
  rttAll : out.rttAll = cs.map (·.rtt)
  incoming : out.rttAll.length = (s.values.map (·.incomingReceiptCount.toNat)).sum
  outgoing : out.rttAll.length = (s.values.map (·.outgoingReceiptCount.toNat)).sum
  sentTimeout :
    out.rttTimeout.length + (s.values.map (·.sentTimeout.toNat)).sum = out.rttAll.length
  receiptTimeout :
    out.rttTimeout.length + (s.values.map (·.receiptTimeout.toNat)).sum = out.rttAll.length
  sentTimeout_le : ∀ v ∈ s.values, v.sentTimeout ≤ v.incomingReceiptCount
  receiptTimeout_le : ∀ v ∈ s.values, v.receiptTimeout ≤ v.outgoingReceiptCount
  timeoutBySend : ∀ x ∈ out.timeoutBySend, 0 ≤ x ∧ x ≤ 1
  timeoutByReceive : ∀ x ∈ out.timeoutByReceive, 0 ≤ x ∧ x ≤ 1
  /-- The mean of a conversation is the mean of the round-trip times counted for it. -/
  mean {m : Member} {v : RunningValue ℚ} : s.runningValues.lookup m = some v →
    v.runningRttMean = (incomingOf cs m).sum / (incomingOf cs m).length

/-- `process_log` succeeds, and its accounting balances. -/
def Balances (filterTime : ℚ) (table : BootstrapTable ℚ) (serializers : Serializers ℚ)
    (results : List (Option (Record ℚ))) : Prop :=
  ∃ s out, readLog filterTime table ⟨∅, ∅, serializers⟩ results = .ok s ∧
    processLog filterTime table serializers results = .ok (serializers.append out) ∧
    Balanced (receipts filterTime table results.reduceOption) s out

/-! ### Counters that do not wrap around -/

/-- The counters of receipts can hold what they count. -/
structure Fits (cs : List (Receipt ℚ)) : Prop where
  incoming (m : Member) : (incomingOf cs m).length < 2 ^ 32
  outgoing (m : Member) : (outgoingOf cs m).length < 2 ^ 32

theorem lateCount_le {xs : List ℚ} : lateCount xs ≤ xs.length := List.countP_le_length

/-- A fraction of timeouts. -/
theorem fraction_mem_unit {k n : UInt32} (h : k ≤ n) :
    0 ≤ (k.toNat : ℚ) / n.toNat ∧ (k.toNat : ℚ) / n.toNat ≤ 1 :=
  ⟨by positivity, div_le_one_of_le₀ (Nat.cast_le.mpr (UInt32.le_iff_toNat_le.mp h)) (by positivity)⟩

namespace Fits

variable (h : Fits (receipts filterTime table rs))

include h

theorem toNat_incomingReceiptCount :
    (valueOf filterTime table rs m).incomingReceiptCount.toNat =
      (incomingOf (receipts filterTime table rs) m).length :=
  UInt32.toNat_ofNat_of_lt' (h.incoming m)

theorem toNat_outgoingReceiptCount :
    (valueOf filterTime table rs m).outgoingReceiptCount.toNat =
      (outgoingOf (receipts filterTime table rs) m).length :=
  UInt32.toNat_ofNat_of_lt' (h.outgoing m)

theorem toNat_sentTimeout : (valueOf filterTime table rs m).sentTimeout.toNat =
    lateCount (incomingOf (receipts filterTime table rs) m) :=
  UInt32.toNat_ofNat_of_lt' (Nat.lt_of_le_of_lt lateCount_le (h.incoming m))

theorem toNat_receiptTimeout : (valueOf filterTime table rs m).receiptTimeout.toNat =
    lateCount (outgoingOf (receipts filterTime table rs) m) :=
  UInt32.toNat_ofNat_of_lt' (Nat.lt_of_le_of_lt lateCount_le (h.outgoing m))

theorem sentTimeout_le : (valueOf filterTime table rs m).sentTimeout ≤
    (valueOf filterTime table rs m).incomingReceiptCount := by
  rw [UInt32.le_iff_toNat_le, h.toNat_sentTimeout, h.toNat_incomingReceiptCount]
  exact lateCount_le

theorem receiptTimeout_le : (valueOf filterTime table rs m).receiptTimeout ≤
    (valueOf filterTime table rs m).outgoingReceiptCount := by
  rw [UInt32.le_iff_toNat_le, h.toNat_receiptTimeout, h.toNat_outgoingReceiptCount]
  exact lateCount_le

theorem settled : (valueOf filterTime table rs m).Settled := by
  constructor
  · intro hzero
    have hle := h.sentTimeout_le (m := m)
    rw [hzero] at hle
    exact UInt32.le_antisymm hle UInt32.zero_le
  · intro hzero
    have hle := h.receiptTimeout_le (m := m)
    rw [hzero] at hle
    exact UInt32.le_antisymm hle UInt32.zero_le

/-- The mean is the mean: the counter shows how many round-trip times there are. -/
theorem runningRttMean : (valueOf filterTime table rs m).runningRttMean =
    (incomingOf (receipts filterTime table rs) m).sum /
      (incomingOf (receipts filterTime table rs) m).length := by
  refine runningMean_eq fun n hn => ?_
  rw [shown, UInt32.toNat_ofNat_of_lt' (Nat.lt_of_le_of_lt hn (h.incoming m))]

end Fits

/-- What is counted under all keys of the entries together. -/
theorem sum_values (hs : Reads filterTime table serializers rs s) {g : RunningValue ℚ → UInt32}
    {role : Receipt ℚ → Member}
    (hg : ∀ m, (g (valueOf filterTime table rs m)).toNat = cs.countP fun c => role c = m)
    (hrole : ∀ c ∈ cs, role c ∈ s.runningValues.keys) :
    (s.values.map fun v => (g v).toNat).sum = cs.length := by
  rw [hs.map_values]
  simp only [hg]
  exact sum_countP _ (AList.keys_nodup _) hrole

theorem length_filter_le_add : ((cs.map (·.rtt)).filter (· ≤ timeout)).length +
    (cs.filter fun c => timeout < c.rtt).length = cs.length := by
  rw [← List.countP_eq_length_filter, ← List.countP_eq_length_filter, List.countP_map,
    List.length_eq_countP_add_countP fun c => decide (c.rtt ≤ timeout)]
  simp only [Function.comp_def, decide_not, ← not_le, Bool.decide_eq_true]

theorem Reads.balanced (hs : Reads filterTime table serializers rs s)
    (h : Fits (receipts filterTime table rs)) : Balanced (receipts filterTime table rs) s
      (written ((receipts filterTime table rs).map (·.rtt)) s.values) := by
  have hvalue {v : RunningValue ℚ} (hv : v ∈ s.values) :
      ∃ m, valueOf filterTime table rs m = v := by
    obtain ⟨⟨m, w⟩, hmem, rfl⟩ := List.mem_map.mp hv
    exact ⟨m, (hs.eq_valueOf (AList.mem_lookup_iff.mpr hmem)).symm⟩
  have hincoming := sum_values hs (g := (·.incomingReceiptCount))
    (fun m => h.toNat_incomingReceiptCount.trans length_rttsOf) fun c hc => hs.member_mem_keys hc
  have houtgoing := sum_values hs (g := (·.outgoingReceiptCount))
    (fun m => h.toNat_outgoingReceiptCount.trans length_rttsOf) fun c hc => hs.sender_mem_keys hc
  have hsent := sum_values hs (g := (·.sentTimeout))
    (fun m => h.toNat_sentTimeout.trans lateCount_rttsOf)
    fun c hc => hs.member_mem_keys (List.mem_of_mem_filter hc)
  have hreceipt := sum_values hs (g := (·.receiptTimeout))
    (fun m => h.toNat_receiptTimeout.trans lateCount_rttsOf)
    fun c hc => hs.sender_mem_keys (List.mem_of_mem_filter hc)
  constructor
  case rttAll => rfl
  case incoming => rw [hincoming, written, List.length_map]
  case outgoing => rw [houtgoing, written, List.length_map]
  case sentTimeout => rw [hsent, written, length_filter_le_add, List.length_map]
  case receiptTimeout => rw [hreceipt, written, length_filter_le_add, List.length_map]
  case sentTimeout_le =>
    intro v hv
    obtain ⟨m, rfl⟩ := hvalue hv
    exact h.sentTimeout_le
  case receiptTimeout_le =>
    intro v hv
    obtain ⟨m, rfl⟩ := hvalue hv
    exact h.receiptTimeout_le
  case timeoutBySend =>
    intro x hx
    obtain ⟨v, hv, rfl⟩ := List.mem_map.mp hx
    obtain ⟨m, rfl⟩ := hvalue (List.mem_of_mem_filter hv)
    exact fraction_mem_unit h.sentTimeout_le
  case timeoutByReceive =>
    intro x hx
    obtain ⟨v, hv, rfl⟩ := List.mem_map.mp hx
    obtain ⟨m, rfl⟩ := hvalue (List.mem_of_mem_filter hv)
    exact fraction_mem_unit h.receiptTimeout_le
  case mean =>
    intro m v hv
    rw [hs.eq_valueOf hv]
    exact h.runningRttMean

theorem Reads.settled (hs : Reads filterTime table serializers rs s)
    (h : Fits (receipts filterTime table rs)) : ∀ v ∈ s.values, v.Settled := by
  intro v hv
  obtain ⟨⟨m, w⟩, hmem, rfl⟩ := List.mem_map.mp hv
  rw [hs.eq_valueOf (AList.mem_lookup_iff.mpr hmem)]
  exact h.settled

/-- There are not as many receipts as it takes. -/
theorem Fits.of_length (h : cs.length < 2 ^ 32) : Fits cs where
  incoming m := by
    rw [length_rttsOf]
    exact Nat.lt_of_le_of_lt List.countP_le_length h
  outgoing m := by
    rw [length_rttsOf]
    exact Nat.lt_of_le_of_lt List.countP_le_length h

/-! ### Too many receipts -/

/-- A message from `A` to `g`. -/
def exampleSend : Record ℚ :=
  ⟨1, ['A'], ['g'], ["send".toList, "Idle".toList, "Idle".toList, ['0'], ['0']]⟩

/-- A receipt for it from `B`. -/
def exampleReceipt : Record ℚ :=
  ⟨2, ['A'], ['g'],
    ["receive".toList, "Idle".toList, "Idle".toList, ['B'], "receipt".toList, ['0']]⟩

def exampleTable : BootstrapTable ℚ := AList.singleton (['B'], ['g']) 0

theorem report_exampleSend : report 0 exampleSend = .send 0 := by decide

theorem report_exampleReceipt : report 0 exampleReceipt = .receipt ['B'] 0 := by decide

theorem wellFormed_exampleSend : WellFormed 0 exampleTable exampleSend where
  action _ := ⟨.send 0, rfl⟩
  covered h := by
    rw [report_exampleSend] at h
    cases h

theorem wellFormed_exampleReceipt : WellFormed 0 exampleTable exampleReceipt where
  action _ := ⟨.receipt ['B'] 0, rfl⟩
  covered h := by
    rw [report_exampleReceipt] at h
    cases h
    decide

/-- The message and `n` receipts for it. -/
def exampleLog (n : ℕ) : List (Option (Record ℚ)) :=
  some exampleSend :: List.replicate n (some exampleReceipt)

theorem reduceOption_exampleLog {n : ℕ} :
    (exampleLog n).reduceOption = exampleSend :: List.replicate n exampleReceipt := by
  rw [exampleLog, List.reduceOption_cons_of_some, List.reduceOption, List.filterMap_replicate]
  rfl

theorem wellFormed_exampleLog {n : ℕ} :
    ∀ r ∈ (exampleLog n).reduceOption, WellFormed 0 exampleTable r := by
  intro r hr
  rw [reduceOption_exampleLog] at hr
  rcases List.mem_cons.mp hr with rfl | hr
  · exact wellFormed_exampleSend
  · rw [List.eq_of_mem_replicate hr]
    exact wellFormed_exampleReceipt

/-- Receipts that repeat are counted every time. -/
theorem receiptsAfter_replicate {before : List (Record ℚ)} {r : Record ℚ} {c : Receipt ℚ} {n : ℕ}
    (hr : ∀ id, report filterTime r ≠ .send id)
    (hc : counted filterTime table before r = some c) :
    receiptsAfter filterTime table before (List.replicate n r) = List.replicate n c := by
  induction n generalizing before with
  | zero => rfl
  | succ n ih =>
    rw [List.replicate_succ, receiptsAfter, hc, ih ((counted_concat hr).trans hc)]
    rfl

theorem receipts_exampleLog {n : ℕ} :
    receipts 0 exampleTable (exampleLog n).reduceOption =
      List.replicate n ⟨(['A'], ['g']), 0, (['B'], ['g']), 1, 2⟩ := by
  rw [reduceOption_exampleLog, receipts, receiptsAfter,
    show counted 0 exampleTable [] exampleSend = none from by decide, List.nil_append,
    Option.toList_none, List.nil_append]
  refine receiptsAfter_replicate (fun id hid => ?_) (by decide)
  rw [report_exampleReceipt] at hid
  cases hid

/-- **The accounting balances.** For a log of well-formed records, some of them bad, whose counters
of receipts do not wrap around. -/
theorem processLog_balances (hlog : ∀ r ∈ results.reduceOption, WellFormed filterTime table r)
    (hfits : Fits (receipts filterTime table results.reduceOption)) :
    Balances filterTime table serializers results := by
  obtain ⟨s, hs⟩ := exists_readLog_eq_ok (s := ⟨∅, ∅, serializers⟩) hlog
  have hreads := readLog_reads hs
  exact ⟨s, _, hs, processLog_of_readLog hs (hreads.settled hfits), hreads.balanced hfits⟩

/-- The example with one receipt. -/
theorem processLog_balances_example : Balances 0 exampleTable .empty (exampleLog 1) :=
  processLog_balances wellFormed_exampleLog
    (.of_length (by rw [receipts_exampleLog, List.length_replicate]; decide))

/-- **Too many receipts.** With `2 ^ 32` receipts the counters show none. -/
theorem not_balances_exampleLog :
    (∀ r ∈ (exampleLog (2 ^ 32)).reduceOption, WellFormed 0 exampleTable r) ∧
      ¬ Balances 0 exampleTable .empty (exampleLog (2 ^ 32)) := by
  refine ⟨wellFormed_exampleLog, ?_⟩
  rintro ⟨s, out, hs, -, hbalanced⟩
  have hzero : (s.values.map (·.incomingReceiptCount.toNat)).sum = 0 := by
    apply List.sum_eq_zero
    intro n hn
    rw [(readLog_reads hs).map_values] at hn
    obtain ⟨m, -, rfl⟩ := List.mem_map.mp hn
    rw [valueOf, RunningValue.of, length_rttsOf, receipts_exampleLog, List.countP_replicate]
    split <;> rfl
  have hlength := hbalanced.incoming
  rw [hzero, hbalanced.rttAll, List.length_map, receipts_exampleLog,
    List.length_replicate] at hlength
  exact absurd hlength (by decide)

end SignalSim.Mgentools
