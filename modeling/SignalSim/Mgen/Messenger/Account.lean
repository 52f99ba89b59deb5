import Mathlib.Data.List.Nodup
import SignalSim.Mgen.Messenger.State

/-!
# What a conversation has sent

In client-server mode a conversation has one stream. What it has put there consists of its
messages, numbered from zero, and of one receipt for each message it has processed, which
names the author of that message.

## Main definitions

* `authored`, `receipts` — the messages and the receipts in a list
* `Handshake.receiptFor` — the receipt a member answers a message with
* `Account` — the messages sent by a conversation against those it has processed

## Main results

* `Account.round` — every round keeps the account
* `Account.countP_authored_le` — no id is used twice
-/

namespace SignalSim.Mgen

/-- The messages in a list that are no receipts. -/
def authored (l : List MessageHeader) : List MessageHeader := l.filter (·.body ≠ .receipt)

/-- The receipts in a list. -/
def receipts (l : List MessageHeader) : List MessageHeader := l.filter (·.body = .receipt)

/-- The receipt with which the client of `h` answers a message. -/
def Handshake.receiptFor (h : Handshake) (m : MessageHeader) : MessageHeader :=
  ⟨h.sender, m.sender, m.id, .receipt⟩

@[simp] theorem authored_append (l k : List MessageHeader) :
    authored (l ++ k) = authored l ++ authored k := List.filter_append ..

@[simp] theorem receipts_append (l k : List MessageHeader) :
    receipts (l ++ k) = receipts l ++ receipts k := List.filter_append ..

@[simp] theorem authored_nil : authored [] = [] := rfl

@[simp] theorem receipts_nil : receipts [] = [] := rfl

section

variable {m : MessageHeader}

theorem authored_singleton_of_ne (hm : m.body ≠ .receipt) : authored [m] = [m] := by
  simp [authored, hm]

theorem authored_singleton_of_eq (hm : m.body = .receipt) : authored [m] = [] := by
  simp [authored, hm]

theorem receipts_singleton_of_ne (hm : m.body ≠ .receipt) : receipts [m] = [] := by
  simp [receipts, hm]

theorem receipts_singleton_of_eq (hm : m.body = .receipt) : receipts [m] = [m] := by
  simp [receipts, hm]

end

/-- The header that goes onto the stream. -/
def Outgoing.header? (o : Outgoing) : Option MessageHeader := o.message.header?

/-- The message that ended the wait. -/
def Wakeup.inbound? : Wakeup → Option MessageHeader
  | timer => none
  | inbound m => some m

/-- The account of a conversation: the messages it has sent and processed, and the id of its
next message unless it has panicked. -/
structure Account (h : Handshake) (next : Option UInt32) (sent processed : List MessageHeader) :
    Prop where
  sender : ∀ m ∈ sent, m.sender = h.sender
  group : ∀ m ∈ authored sent, m.group = h.group
  ids : (authored sent).map (·.id) = (List.range (authored sent).length).map UInt32.ofNat
  answered : receipts sent <+: (authored processed).map h.receiptFor
  next : ∀ n ∈ next, n = UInt32.ofNat (authored sent).length ∧
    receipts sent = (authored processed).map h.receiptFor

namespace Account

variable {h : Handshake} {next : Option UInt32} {n n' : UInt32}
  {sent processed : List MessageHeader} {o : Option Outgoing} {e : Wakeup}

theorem start (h : Handshake) : Account h (some 0) [] [] where
  sender := by simp
  group := by simp
  ids := rfl
  answered := List.prefix_refl _
  next n hn := ⟨(Option.some_inj.mp hn).symm, rfl⟩

/-- A conversation may panic on a message. -/
theorem panic (ha : Account h next sent processed) (l : List MessageHeader) :
    Account h none sent (processed ++ l) where
  sender := ha.sender
  group := ha.group
  ids := ha.ids
  answered := by
    rw [authored_append, List.map_append]
    exact ha.answered.trans (List.prefix_append ..)
  next := nofun

/-- **Step of the account.** A round of the conversation keeps it. -/
theorem round (ha : Account h (some n) sent processed)
    (hr : Round false h.sender h.group n e o n') :
    Account h (some n') (sent ++ (o.bind Outgoing.header?).toList)
      (processed ++ e.inbound?.toList) := by
  obtain ⟨hn, hrec⟩ := ha.next n rfl
  cases hr with
  | @sent size x hx =>
    have hm : (Outgoing.broadcast x).header? = some ⟨h.sender, h.group, n, .size size⟩ :=
      SerializedMessage.header?_of_serialize hx
    have hauth := authored_singleton_of_ne (m := ⟨h.sender, h.group, n, .size size⟩) (by simp)
    have hrcpt := receipts_singleton_of_ne (m := ⟨h.sender, h.group, n, .size size⟩) (by simp)
    simp only [Option.bind_some, hm, Option.toList_some, Wakeup.inbound?, Option.toList_none,
      List.append_nil]
    constructor
    case sender =>
      intro m hm
      obtain hm | hm := List.mem_append.mp hm
      · exact ha.sender m hm
      · rw [List.mem_singleton.mp hm]
    case group =>
      intro m hm
      rw [authored_append, hauth] at hm
      obtain hm | hm := List.mem_append.mp hm
      · exact ha.group m hm
      · rw [List.mem_singleton.mp hm]
    case ids =>
      rw [authored_append, hauth, List.map_append, ha.ids, List.length_append,
        List.length_singleton, List.range_succ, List.map_append, List.map_singleton,
        List.map_singleton, hn]
    case answered =>
      rw [receipts_append, hrcpt, List.append_nil]
      exact ha.answered
    case next =>
      intro k hk
      obtain rfl := Option.some_inj.mp hk
      rw [authored_append, hauth, receipts_append, hrcpt, List.append_nil, List.length_append,
        List.length_singleton, hn, UInt32.ofNat_add]
      exact ⟨rfl, hrec⟩
  | waited => simpa [Wakeup.inbound?] using ha
  | @received m x hm hx =>
    have hh : (Outgoing.reply m.sender x).header? = some (h.receiptFor m) :=
      SerializedMessage.header?_of_serialize hx
    have hauth : authored [h.receiptFor m] = [] := authored_singleton_of_eq rfl
    have hrcpt : receipts [h.receiptFor m] = [h.receiptFor m] :=
      receipts_singleton_of_eq rfl
    simp only [Option.bind_some, hh, Option.toList_some, Wakeup.inbound?]
    -- the receipt answers the message just processed
    have hall : receipts (sent ++ [h.receiptFor m]) =
        (authored (processed ++ [m])).map h.receiptFor := by
      rw [receipts_append, hrcpt, authored_append, authored_singleton_of_ne hm, List.map_append,
        List.map_singleton, hrec]
    constructor
    case sender =>
      intro k hk
      obtain hk | hk := List.mem_append.mp hk
      · exact ha.sender k hk
      · rw [List.mem_singleton.mp hk, Handshake.receiptFor]
    case group =>
      rw [authored_append, hauth, List.append_nil]
      exact ha.group
    case ids =>
      rw [authored_append, hauth, List.append_nil]
      exact ha.ids
    case answered =>
      exact hall ▸ List.prefix_refl _
    case next =>
      intro k hk
      obtain rfl := Option.some_inj.mp hk
      rw [authored_append, hauth, List.append_nil]
      exact ⟨hn, hall⟩
  | @receipt m hm =>
    have hproc : authored (processed ++ [m]) = authored processed := by
      rw [authored_append, authored_singleton_of_eq hm, List.append_nil]
    simp only [Option.bind_none, Option.toList_none, List.append_nil, Wakeup.inbound?,
      Option.toList_some]
    refine ⟨ha.sender, ha.group, ha.ids, ?_, ?_⟩
    · rw [hproc]
      exact ha.answered
    · rw [hproc]
      exact ha.next

/-- No two messages have the same id, as long as there are enough ids. -/
theorem nodup_ids (ha : Account h next sent processed)
    (hlen : (authored sent).length < UInt32.size) : ((authored sent).map (·.id)).Nodup := by
  rw [ha.ids]
  refine List.Nodup.map_on ?_ List.nodup_range
  intro i hi j hj hij
  -- below the size of a word the count is the id
  have hlt : ∀ k ∈ List.range (authored sent).length, (UInt32.ofNat k).toNat = k := by
    intro k hk
    rw [UInt32.toNat_ofNat']
    exact Nat.mod_eq_of_lt (Nat.lt_trans (List.mem_range.mp hk) hlen)
  rw [← hlt i hi, ← hlt j hj, hij]

/-- No id is used twice. -/
theorem countP_authored_le (ha : Account h next sent processed)
    (hlen : (authored sent).length < UInt32.size) (i : UInt32) :
    (authored sent).countP (·.id = i) ≤ 1 := by
  have hcount := List.nodup_iff_count_le_one.mp (ha.nodup_ids hlen) i
  rwa [List.count, List.countP_map] at hcount

end Account

end SignalSim.Mgen
