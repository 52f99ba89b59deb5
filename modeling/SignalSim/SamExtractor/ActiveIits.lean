import SignalSim.Foundations.Blocks
import SignalSim.SamExtractor.Rates

/-!
# The stretches of active messages

The distribution of the times that a user stays Active has one value for each stretch of messages
that continue one another. The loop that collects them writes a value down when it comes to a
message behind the stretch.

## Main definitions

* `blockIit` — the value of a stretch

## Main results

* `activeIits_eq` — the loop has the values of the stretches that a message ends
* `activeIits_eq_iff` — when these are all
-/

namespace SignalSim.SamExtractor

/-- The largest IIT of a stretch in whole seconds, if it is positive. -/
def blockIit (block : List LabeledMessage) : Option ℤ :=
  ((block.map (·.iit)).max?.filter (0 < ·)).map wholeSeconds

/-- The stretches of continuing messages. -/
def stretches (messages : List LabeledMessage) : List (List LabeledMessage) :=
  blocks (·.continuing) messages

/-- `max_iit` in a stretch: the largest IIT, or zero if all are negative. -/
def largestIit (block : List LabeledMessage) : ℤ := (block.map (·.iit)).foldl max 0

section

variable {block messages : List LabeledMessage} {m : LabeledMessage}

theorem largestIit_concat : largestIit (block ++ [m]) = max (largestIit block) m.iit := by
  simp [largestIit]

theorem largestIit_nonneg (block : List LabeledMessage) : 0 ≤ largestIit block := by
  induction block using List.reverseRecOn with
  | nil => exact le_rfl
  | append_singleton block m ih => exact largestIit_concat ▸ le_max_of_le_left ih

/-- The largest IIT, if it is positive, is what the loop has. -/
theorem blockIit_eq : blockIit block =
    if largestIit block ≠ 0 then some (wholeSeconds (largestIit block)) else none := by
  cases block with
  | nil => rfl
  | cons m block =>
    have hmax : largestIit (m :: block) = max 0 ((block.map (·.iit)).foldl max m.iit) := by
      rw [largestIit, List.map_cons, List.foldl_cons, List.foldl_assoc]
    rw [blockIit, List.map_cons, List.max?_cons', hmax]
    by_cases hpos : 0 < (block.map (·.iit)).foldl max m.iit
    · rw [max_eq_right hpos.le, if_pos hpos.ne', Option.filter_some_pos (by simpa using hpos)]
      rfl
    · rw [max_eq_left (Int.not_lt.mp hpos), if_neg (not_not.mpr rfl),
        Option.filter_some_neg (by simpa using hpos)]
      rfl

theorem blockIit_eq_none_iff : blockIit block = none ↔ ∀ m ∈ block, m.iit ≤ 0 := by
  have hzero : largestIit block = 0 ↔ ∀ m ∈ block, m.iit ≤ 0 := by
    induction block using List.reverseRecOn with
    | nil => simp [largestIit]
    | append_singleton block m ih =>
      have hnonneg := largestIit_nonneg block
      rw [largestIit_concat, List.forall_mem_append, List.forall_mem_singleton, ← ih]
      omega
  rw [blockIit_eq, ← hzero]
  simp

/-! ### The loop -/

/-- The loop knows of the stretch that it is in, and has the values of those before. -/
structure ActiveLoop.Holds (loop : ActiveLoop) (messages : List LabeledMessage) : Prop where
  maxIit_eq : loop.maxIit = largestIit (messages.rtakeWhile (·.continuing))
  active_iff : loop.active = true ↔ messages.rtakeWhile (·.continuing) ≠ []
  ret_eq : loop.ret = (closedBlocks (·.continuing) messages).filterMap blockIit

theorem ActiveLoop.Holds.next {loop : ActiveLoop} (h : loop.Holds messages) :
    (loop.next m).Holds (messages ++ [m]) := by
  by_cases hcontinuing : m.continuing = true
  · -- the stretch goes on
    have hblock := List.rtakeWhile_concat_pos (·.continuing) messages m hcontinuing
    rw [ActiveLoop.next, if_pos hcontinuing]
    refine ⟨?_, ?_, ?_⟩
    · rw [hblock, largestIit_concat, h.maxIit_eq]
    · simp [hblock]
    · rw [closedBlocks_concat_pos hcontinuing]
      exact h.ret_eq
  · have hblock := List.rtakeWhile_concat_neg (·.continuing) messages m hcontinuing
    have hret : (closedBlocks (·.continuing) (messages ++ [m])).filterMap blockIit =
        loop.ret ++ (blockIit (messages.rtakeWhile (·.continuing))).toList := by
      rw [closedBlocks_concat_neg hcontinuing, List.filterMap_append, ← h.ret_eq]
      cases hvalue : blockIit (messages.rtakeWhile (·.continuing)) <;> simp [hvalue]
    rw [ActiveLoop.next, if_neg hcontinuing]
    by_cases hactive : loop.active = true
    · -- the message ends the stretch
      rw [if_pos hactive]
      refine ⟨by rw [hblock]; rfl, by simp [hblock], ?_⟩
      rw [hret, blockIit_eq, ← h.maxIit_eq]
      split <;> simp
    · rw [if_neg hactive]
      have hnil : messages.rtakeWhile (·.continuing) = [] :=
        not_not.mp (mt h.active_iff.mpr hactive)
      refine ⟨?_, by simp [hblock, hactive], ?_⟩
      · rw [hblock, h.maxIit_eq, hnil]
      · rw [hret, hnil]
        exact (List.append_nil _).symm

/-- **The loop.** A stretch has its value if a message ends it. -/
theorem activeIits_eq (messages : List LabeledMessage) :
    activeIits messages = (closedBlocks (·.continuing) messages).filterMap blockIit := by
  have hholds : (messages.foldl ActiveLoop.next ⟨0, false, []⟩).Holds messages := by
    induction messages using List.reverseRecOn with
    | nil => exact ⟨rfl, by simp, rfl⟩
    | append_singleton messages m ih =>
      rw [List.foldl_concat]
      exact ih.next
  exact hholds.ret_eq

/-- **Active stretches.** Every stretch with a positive IIT has its value exactly if the list does
not end in one. -/
theorem activeIits_eq_iff (messages : List LabeledMessage) :
    activeIits messages = (stretches messages).filterMap blockIit ↔
      ∀ m ∈ messages.rtakeWhile (·.continuing), m.iit ≤ 0 := by
  rw [activeIits_eq, stretches, blocks_eq, List.filterMap_append, ← blockIit_eq_none_iff]
  cases hvalue : blockIit (messages.rtakeWhile (·.continuing)) <;> simp [hvalue]

end

/-- A message of an Active stretch. -/
def activeLabel (continuing : Bool) (iit : ℤ) : LabeledMessage :=
  ⟨.active, continuing, .sent, false, iit, some iit⟩

/-- The stretch at the end of the list is left out. -/
theorem activeIits_of_last :
    activeIits [activeLabel false second, activeLabel true (5 * second)] = [] ∧
      (stretches [activeLabel false second, activeLabel true (5 * second)]).filterMap blockIit =
        [5] := by
  decide

end SignalSim.SamExtractor
