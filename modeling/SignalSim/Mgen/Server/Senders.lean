import SignalSim.Mgen.Server.Tasks

/-!
# The senders

A sender writes the messages of its channel in order. It takes the next one only when the
last one is written, and keeps it when a write fails.

## Main definitions

* `Server.Taken` — what a sender has taken from its channel it has written, or has at hand

## Main results

* `Server.taken_step` — every step preserves it
-/

namespace SignalSim.Mgen

open Function (update update_self update_of_ne)

/-- The message that a sender has taken and not yet written. -/
def SenderTask.inHand : SenderTask → List MessageHeader
  | writing _ m | reconnecting _ m => [m]
  | _ => []

namespace Server

variable {s t : Server} {a : ServerAction} {c : ℕ}

/-- The messages taken from a channel are those that the sender has written and the one it
has at hand. -/
def Taken (s : Server) : Prop :=
  ∀ c, (s.channel c).received.map (·.2) = (s.sent c).map (·.2) ++ (s.sender c).inHand

/-- A step of the sender of one connection. -/
theorem Taken.of_sender (hT : s.Taken) (j : ℕ)
    (hne : ∀ c, c ≠ j → t.channel c = s.channel c ∧ t.sent c = s.sent c ∧
      t.sender c = s.sender c)
    (hj : (t.channel j).received.map (·.2) = (t.sent j).map (·.2) ++ (t.sender j).inHand) :
    t.Taken := by
  intro c
  by_cases hc : c = j
  · subst hc
    exact hj
  · obtain ⟨h1, h2, h3⟩ := hne c hc
    rw [h1, h2, h3]
    exact hT c

theorem taken_step (hs : s.Tasks) (hT : s.Taken) (h : Step s a t) : t.Taken := by
  cases h with
  | @put j db m d cs _ _ =>
    -- what is put on a channel is not taken yet
    intro c
    by_cases hc : c = d
    · subst hc
      simpa using hT c
    · simpa [hc] using hT c
  | @spawnTasks j hk g hj =>
    refine hT.of_sender j (fun c hc => by simp [hc]) ?_
    have hc := hs.conn j
    rw [ConnOk, hj] at hc
    have hTj := hT j
    rw [hc.2.2] at hTj
    simpa [SenderTask.inHand] using hTj
  | @takeMessage j k i m q hj hq =>
    -- the message goes from the channel into the sender's hand
    have hTj := hT j
    rw [hj] at hTj
    refine hT.of_sender j (fun c hc => by simp [hc]) ?_
    simpa [(Fifo.pop?_eq_some hq).2.1, SenderTask.inHand] using hTj
  | @takeFirstSocket j _ hj _ | @takeNextSocket j _ _ _ hj _ | @channelClosed j _ hj _ _
  | @written j _ _ hj | @writeError j _ _ hj _ =>
    have hTj := hT j
    rw [hj] at hTj
    exact hT.of_sender j (fun c hc => by simp [hc]) (by simpa [SenderTask.inHand] using hTj)
  | _ => exact hT

theorem sent_cases (h : Step s a t) (c : ℕ) :
    t.sent c = s.sent c ∨ ∃ k m, a = .written c ∧ s.sender c = .writing k m ∧
      t.sent c = s.sent c ++ [(k, m)] := by
  cases h with
  | @written j k m hj =>
    by_cases hc : c = j
    · subst hc
      exact .inr ⟨k, m, rfl, hj, by simp⟩
    · exact .inl (by simp [hc])
  | _ => exact .inl rfl

theorem sent_written {k : ℕ} {m : MessageHeader} (h : Step s (.written c) t)
    (hc : s.sender c = .writing k m) : t.sent c = s.sent c ++ [(k, m)] := by
  cases h with
  | written hj =>
    cases hc.symm.trans hj
    simp

theorem Taken.init : Server.init.Taken := fun _ => rfl

/-- What was written to a socket was taken from the channel. -/
theorem Taken.isPrefix_sent (hT : s.Taken) (c : ℕ) :
    (s.sent c).map (·.2) <+: (s.channel c).log.map (·.2) := by
  have htaken : (s.sent c).map (·.2) <+: (s.channel c).received.map (·.2) := by
    rw [hT c]
    exact List.prefix_append ..
  exact htaken.trans ((s.channel c).isPrefix_received.map _)

end Server

end SignalSim.Mgen
