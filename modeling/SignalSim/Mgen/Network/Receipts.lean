import SignalSim.Mgen.Network.Delivery

/-!
# Receipts match deliveries

In an undisturbed run an author never processes more receipts for a message from a member than
the member has processed the message, which is at most once and only if the author has sent it.

The group field of a receipt is the name of the recipient, so the author of the message is
recovered from there, its group from the connection on which the receipt travels, and its id
from the id of the receipt.

## Main definitions

* `Network.receiptsProcessed`, `Network.timesProcessed`, `Network.timesSent`

## Main results

* `Network.receipts_match` — receipts are at most as many as deliveries, a receipt is not
  answered, and no receiver of the server panics
-/

namespace SignalSim.Mgen

open Function (update update_eq_self)

namespace Network

variable {config : List Handshake} {s t : Network} {a : NetworkAction} {h k : Handshake}

/-- How many receipts from `r` for the message with the given id the author has processed in
the group. -/
def receiptsProcessed (s : Network) (author group r : ID) (id : UInt32) : ℕ :=
  (s.processed ⟨author, group⟩).countP fun m => m.body = .receipt ∧ m.sender = r ∧ m.id = id

/-- How many times `r` has processed the message with the given id of the author in the
group. -/
def timesProcessed (s : Network) (author group r : ID) (id : UInt32) : ℕ :=
  (s.processed ⟨r, group⟩).countP fun m =>
    m.body ≠ .receipt ∧ m.sender = author ∧ m.group = group ∧ m.id = id

/-- How many times the author has sent a message with the given id in the group. -/
def timesSent (s : Network) (author group : ID) (id : UInt32) : ℕ :=
  (s.sent ⟨author, group⟩).countP fun m => m.body ≠ .receipt ∧ m.id = id

/-- A property of the messages of one author holds at most as often of those processed as of
those sent for the conversation. -/
theorem Sound.countP_processed_le (hs : s.Sound config) (k : Handshake) (author : ID)
    (p : MessageHeader → Bool) :
    (s.processed k).countP (fun m => p m && (m.sender = author)) ≤
      (s.sent ⟨author, k.group⟩).countP (fun m => p m && (m.IsFor ⟨author, k.group⟩ k)) := by
  rw [← List.countP_filter, ← List.countP_filter]
  exact (hs.delivered k author).sublist.countP_le

/-- A message that a conversation has processed was sent in its group. -/
theorem Sound.group_of_processed (hs : s.Sound config) {m : MessageHeader}
    (hm : m ∈ s.processed k) (hb : m.body ≠ .receipt) : m.group = k.group := by
  have hfilter : m ∈ (s.processed k).filter (·.sender = m.sender) :=
    List.mem_filter.mpr ⟨hm, by simp⟩
  have hsent := List.mem_of_mem_filter ((hs.delivered k m.sender).subset hfilter)
  exact (hs.account ⟨m.sender, k.group⟩).group m (List.mem_filter.mpr ⟨hsent, by simp [hb]⟩)

theorem Sound.receiptsProcessed_le (hs : s.Sound config) (author group r : ID) (id : UInt32) :
    s.receiptsProcessed author group r id ≤ s.timesProcessed author group r id := by
  calc s.receiptsProcessed author group r id
      = (s.processed ⟨author, group⟩).countP fun m =>
          (m.body = .receipt ∧ m.id = id) && (m.sender = r) := by
        apply List.countP_congr
        intro m _
        simp only [decide_eq_true_eq, Bool.and_eq_true]
        tauto
    _ ≤ (s.sent ⟨r, group⟩).countP fun m =>
          (m.body = .receipt ∧ m.id = id) && (m.IsFor ⟨r, group⟩ ⟨author, group⟩) :=
        hs.countP_processed_le ⟨author, group⟩ r _
    _ = (receipts (s.sent ⟨r, group⟩)).countP fun m => m.group = author ∧ m.id = id := by
        rw [receipts, List.countP_filter]
        apply List.countP_congr
        intro m _
        by_cases hb : m.body = .receipt
        · -- it is for the client that it names
          have hfor : m.IsFor ⟨r, group⟩ ⟨author, group⟩ ↔ m.group = author := by
            simp [MessageHeader.IsFor, hb, eq_comm]
          simp [hb, hfor, and_comm]
        · simp [hb]
    _ ≤ ((authored (s.processed ⟨r, group⟩)).map
          (Handshake.receiptFor ⟨r, group⟩)).countP fun m => m.group = author ∧ m.id = id :=
        (hs.account ⟨r, group⟩).answered.sublist.countP_le
    _ = s.timesProcessed author group r id := by
        rw [List.countP_map, authored, List.countP_filter]
        apply List.countP_congr
        intro m hm
        -- a receipt is for a message of the group, so that its group need not be checked
        change (decide (m.sender = author ∧ m.id = id) && decide (m.body ≠ .receipt)) = true ↔ _
        by_cases hb : m.body = .receipt
        · simp [hb]
        · simp [hb, hs.group_of_processed hm hb]

theorem Sound.timesProcessed_le (hs : s.Sound config) (author group r : ID) (id : UInt32) :
    s.timesProcessed author group r id ≤ s.timesSent author group id := by
  calc s.timesProcessed author group r id
      ≤ (s.processed ⟨r, group⟩).countP fun m =>
          (m.body ≠ .receipt ∧ m.id = id) && (m.sender = author) := by
        apply List.countP_mono_left
        intro m _ hm
        simp only [decide_eq_true_eq, Bool.and_eq_true] at hm ⊢
        tauto
    _ ≤ (s.sent ⟨author, group⟩).countP fun m =>
          (m.body ≠ .receipt ∧ m.id = id) && (m.IsFor ⟨author, group⟩ ⟨r, group⟩) :=
        hs.countP_processed_le ⟨r, group⟩ author _
    _ ≤ s.timesSent author group id := by
        apply List.countP_mono_left
        intro m _ hm
        exact (Bool.and_eq_true_iff.mp hm).1

theorem Sound.timesSent_le (hs : s.Sound config) (author group : ID) (id : UInt32)
    (hlen : (authored (s.sent ⟨author, group⟩)).length < UInt32.size) :
    s.timesSent author group id ≤ 1 := by
  have hle := (hs.account ⟨author, group⟩).countP_authored_le hlen id
  rw [authored, List.countP_filter] at hle
  refine Nat.le_trans (List.countP_mono_left fun m _ hm => ?_) hle
  simpa [and_comm] using hm

/-- A conversation that processes a receipt stays in its state and puts nothing on its
stream. -/
theorem receipt_not_answered {now : Instant} {v : Samples} {m : MessageHeader}
    {q : Fifo MessageHeader} (hq : (s.inbound h).pop? = some (m, q)) (hm : m.body = .receipt)
    (hstep : s.step (.receive h now v) = some t) :
    t.outbound = s.outbound ∧ t.conversation = s.conversation := by
  cases step_cases hstep with
  | receive hh hq' =>
    cases hq.symm.trans hq'
    -- the round puts nothing on the stream and ends where it began
    rw [StateMachine.manage_receipt hm]
    constructor
    · exact update_eq_self ..
    · rw [← update_eq_self h s.conversation, hh]
      rfl

theorem Sound.init : Network.init.Sound config where
  wf := .init
  fanOut := .init
  taken := .init
  configured i h hi := by cases hi
  registered hp := by cases hp
  account h := .start h
  uplink i h hi := by cases hi
  downlink i h hi := by cases hi
  offline h _ := ⟨rfl, rfl⟩

theorem sound_of_run {as : List NetworkAction}
    (hC : networkSystem.Along (Undisturbed config) .init as)
    (hrun : networkSystem.run .init as = some s) : s.Sound config :=
  System.invariant_along (fun _ _ _ hs hC h => sound_step hs hC (step_cases h)) .init hC hrun

/-- **Receipts match deliveries.** In every state that an undisturbed run reaches, in which no
conversation has sent `UInt32.size` messages, the author of a message has processed at most as
many receipts from a member as the member has processed the message; the member has done so at
most as often as it was sent, and it was sent at most once. A receipt is never answered, and no
check of the server has failed. -/
theorem receipts_match {as : List NetworkAction}
    (hC : networkSystem.Along (Undisturbed config) .init as)
    (hrun : networkSystem.run .init as = some s)
    (hlen : ∀ h, (authored (s.sent h)).length < UInt32.size) :
    (∀ author group r id,
      s.receiptsProcessed author group r id ≤ s.timesProcessed author group r id ∧
      s.timesProcessed author group r id ≤ s.timesSent author group id ∧
      s.timesSent author group id ≤ 1) ∧
    (∀ h now v m q t, (s.inbound h).pop? = some (m, q) → m.body = .receipt →
      s.step (.receive h now v) = some t →
      t.outbound = s.outbound ∧ t.conversation = s.conversation) ∧
    ∀ i, s.server.receiver i ≠ .panicked := by
  have hs := sound_of_run hC hrun
  refine ⟨fun author group r id => ⟨?_, ?_, ?_⟩, fun h now v m q t hq hm hstep => ?_,
    hs.fanOut.running⟩
  · exact hs.receiptsProcessed_le author group r id
  · exact hs.timesProcessed_le author group r id
  · exact hs.timesSent_le author group id (hlen ⟨author, group⟩)
  · exact receipt_not_answered hq hm hstep

/-! ### Two clients -/

theorem length_log_settle (s : Network) (h : Handshake) (o : Outcome) (k : Handshake) :
    ((s.settle h o).outbound k).log.length ≤ (s.outbound k).log.length + 1 := by
  cases o with
  | none => exact Nat.le_succ _
  | some r =>
    obtain ⟨o, machine⟩ := r
    by_cases hk : k = h
    · subst hk
      cases o <;> simp [settle, stream]
    · simp [settle, hk]

/-- A step puts at most one message on the stream of a conversation. -/
theorem length_log_step (hstep : Step s a t) (k : Handshake) :
    (t.outbound k).log.length ≤ (s.outbound k).log.length + 1 := by
  cases hstep with
  | @read i h x q m u _ hq _ _ =>
    by_cases hk : k = h
    · subst hk
      simp [readFrom, (Fifo.pop?_eq_some hq).1]
    · simp [readFrom, hk]
  | timer => exact length_log_settle ..
  | receive => exact length_log_settle ..
  | _ => exact Nat.le_succ _

theorem length_log_run {as : List NetworkAction} (hrun : networkSystem.run s as = some t)
    (k : Handshake) : (t.outbound k).log.length ≤ (s.outbound k).log.length + as.length := by
  induction as generalizing s with
  | nil =>
    obtain rfl := Option.some_inj.mp hrun
    exact Nat.le_refl _
  | cons a as ih =>
    obtain ⟨u, hu, hrun⟩ := System.run_cons_eq_some.mp hrun
    have hstep := length_log_step (step_cases hu) k
    have hrest := ih hrun
    rw [List.length_cons]
    omega

/-- A run sends no more messages than it has steps. -/
theorem length_authored_le {as : List NetworkAction} (hrun : networkSystem.run .init as = some s)
    (k : Handshake) : (authored (s.sent k)).length ≤ as.length := by
  have hlog := length_log_run hrun k
  have hsent : (s.sent k).length ≤ (s.outbound k).log.length := List.length_filterMap_le ..
  have hauth : (authored (s.sent k)).length ≤ (s.sent k).length := List.length_filter_le ..
  simp only [Network.init, Fifo.log_empty, List.length_nil, Nat.zero_add] at hlog
  omega

/-- Two clients of a group register and wake up, the first sends a message, the second answers
it with a receipt, and the first gets the receipt. -/
def answered : List NetworkAction :=
  let db := ((∅ : GroupSnds).insert "a" 0).insert "b" 1
  let v : Samples := ⟨⟨1, by decide⟩, 0, 0, 0, 0, false, false⟩
  [.accept, .accept, .handshake 0 ⟨"a", "g"⟩, .handle 0, .handle 0, .handle 0, .handle 0,
    .handshake 1 ⟨"b", "g"⟩, .handle 1, .handle 1, .handle 1, .handle 1, .handle 1, .handle 0,
    .handle 0, .poll 1, .poll 0, .endRegistration, .snapshot 0 db, .snapshot 1 db].map .server ++
  [.awake ⟨"a", "g"⟩ 0 v, .awake ⟨"b", "g"⟩ 0 v, .timer ⟨"a", "g"⟩ 0 v] ++
  [.read 0 ⟨"a", "g", 0, .size ⟨160, by decide⟩⟩, .put 0, .takeSocket 1, .takeMessage 1,
    .written 1].map .server ++
  [.receive ⟨"b", "g"⟩ 0 v] ++
  [.read 1 ⟨"b", "a", 0, .receipt⟩, .put 1, .takeSocket 0, .takeMessage 0, .written 0].map
    .server ++
  [.receive ⟨"a", "g"⟩ 0 v]

theorem receipts_match_answered : ∃ s, networkSystem.run .init answered = some s ∧
    s.receiptsProcessed "a" "g" "b" 0 = 1 ∧ s.timesProcessed "a" "g" "b" 0 = 1 ∧
    s.receiptsProcessed "a" "g" "b" 0 ≤ s.timesProcessed "a" "g" "b" 0 := by
  have hrun : ((networkSystem.run .init answered).map fun s =>
      (s.receiptsProcessed "a" "g" "b" 0, s.timesProcessed "a" "g" "b" 0)) = some (1, 1) := by
    decide +kernel
  obtain ⟨s, hs, hobs⟩ := Option.map_eq_some_iff.mp hrun
  obtain ⟨hrec, htimes⟩ := Prod.mk.inj hobs
  have hC : networkSystem.Along (Undisturbed [⟨"a", "g"⟩, ⟨"b", "g"⟩]) .init answered := by
    decide +kernel
  have hmatch := receipts_match hC hs fun h =>
    Nat.lt_of_le_of_lt (length_authored_le hs h) (by decide)
  exact ⟨s, hs, hrec, htimes, (hmatch.1 "a" "g" "b" 0).1⟩

end Network

end SignalSim.Mgen
