import Mathlib.Data.List.Induction
import SignalSim.Mgen.Wire.Stream

/-!
# Partial writes

`write_all_to` against a writer that takes what it likes of each call: a few bytes of the
header, the header to its end, a part of the body, nothing, or an error instead. The two
slices the function advances amount to one position in the message's frame, and each answer
moves it as it would move a plain cursor.

## Main definitions

* `WriteAnswer.respond` — what one answer does to a write at a position of a frame
* `SerializedMessage.Offered` — no answer takes more than its call offered
* `SerializedMessage.Tolerates` — the write makes of every answer what it should
* `SerializedMessage.Accepts` — a writer that takes the whole frame, cut as it likes

## Main results

* `SerializedMessage.writeAllTo_concat` — one more answer to a write that waits for it
* `SerializedMessage.writeAllTo_of_accepts` — a writer that accepts gets the frame
* `SerializedMessage.writeAllTo_tolerates` — every sequence of answers is tolerated
-/

namespace SignalSim.Mgen

/-! ### Outcomes -/

namespace WriteOutcome

/-- The function has not returned: it waits for an answer. -/
def Pending (o : WriteOutcome) : Prop := o.result = none

@[simp] theorem after_accepted (bs : Bytes) (o : WriteOutcome) :
    (o.after bs).accepted = bs ++ o.accepted := rfl

theorem Pending.of_after {bs : Bytes} {o : WriteOutcome} (h : (o.after bs).Pending) :
    o.Pending := h

end WriteOutcome

/-! ### One answer -/

namespace WriteAnswer

/-- The answer takes no more than it was offered. -/
def Within (offered : ℕ) : WriteAnswer → Prop
  | .written n => n ≤ offered
  | .failed _ => True

instance (offered : ℕ) : (a : WriteAnswer) → Decidable (a.Within offered)
  | .written n => inferInstanceAs (Decidable (n ≤ offered))
  | .failed _ => isTrue trivial

/-- What an answer does to a write of `frame` of which `accepted` has been taken. An
interrupted call is made again as long as bytes of the header are left. -/
def respond (frame : Bytes) (headerLen : ℕ) (accepted : Bytes) : WriteAnswer → WriteOutcome
  | .written n =>
    if n = 0 then ⟨accepted, some (.error (.error (.io .writeZero)))⟩
    else ⟨frame.take (accepted.length + n),
      if accepted.length + n = frame.length then some (.ok ()) else none⟩
  | .failed .interrupted =>
    ⟨accepted, if accepted.length < headerLen then none
      else some (.error (.error (.io .interrupted)))⟩
  | .failed k => ⟨accepted, some (.error (.error (.io k)))⟩

/-- An answer to a call inside a frame is one to the rest of the frame. -/
theorem respond_after (a : WriteAnswer) (bs frame : Bytes) (headerLen : ℕ) (accepted : Bytes) :
    (a.respond frame (headerLen - bs.length) accepted).after bs =
      a.respond (bs ++ frame) headerLen (bs ++ accepted) := by
  cases a with
  | written n =>
    by_cases hn : n = 0
    · simp only [respond, if_pos hn]
      rfl
    · have htake : (bs ++ frame).take (bs.length + (accepted.length + n)) =
          bs ++ frame.take (accepted.length + n) := List.take_length_add_append _
      simp only [respond, if_neg hn, List.length_append, Nat.add_assoc, htake,
        Nat.add_left_cancel_iff]
      rfl
  | failed k =>
    cases k with
    | interrupted =>
      simp only [respond, List.length_append, Nat.lt_sub_iff_add_lt']
      rfl
    | _ => rfl

end WriteAnswer

/-! ### The tail -/

/-- A `write_all` that has not put everything leaves bytes. -/
theorem length_writeAll_lt {buf : Bytes} {as : List WriteAnswer}
    (h : (writeAll buf as).result ≠ some (.ok ())) :
    (writeAll buf as).accepted.length < buf.length := by
  fun_induction writeAll buf as with
  | case1 => exact absurd rfl h
  | case2 | case3 | case4 | case5 => exact Nat.succ_pos _
  | case6 b buf n as hn _ ih =>
    have hlt := ih h
    rw [List.length_drop] at hlt
    rw [WriteOutcome.after_accepted, List.length_append, List.length_take]
    omega

/-- A `write_all` that has returned asks for no more answers. -/
theorem writeAll_append_of_returned {buf : Bytes} {as : List WriteAnswer}
    (h : ¬ (writeAll buf as).Pending) (bs : List WriteAnswer) :
    writeAll buf (as ++ bs) = writeAll buf as := by
  fun_induction writeAll buf as with
  | case1 => rw [writeAll]
  | case2 => exact absurd rfl h
  | case3 => rw [List.cons_append, writeAll]
  | case4 _ _ _ _ hn => rw [List.cons_append, writeAll, if_pos hn]
  | case5 _ _ _ hn => rw [List.cons_append, writeAll, if_neg hn, if_pos rfl]
  | case6 b buf n as hn hz ih => rw [List.cons_append, writeAll, if_neg hn, if_neg hz, ih h]

/-- One answer to `write_all`. -/
theorem writeAll_singleton {buf : Bytes} (hne : buf ≠ []) {a : WriteAnswer}
    (hin : a.Within buf.length) : writeAll buf [a] = a.respond buf 0 [] := by
  obtain ⟨b, buf, rfl⟩ := List.exists_cons_of_ne_nil hne
  cases a with
  | failed k => cases k <;> rfl
  | written n =>
    have hn : ¬ (b :: buf).length < n := Nat.not_lt_of_le hin
    by_cases hz : n = 0
    · simp only [writeAll, WriteAnswer.respond, if_neg hn, if_pos hz]
    simp only [writeAll, WriteAnswer.respond, if_neg hn, if_neg hz, List.length_nil, Nat.zero_add]
    by_cases hall : n = (b :: buf).length
    · rw [if_pos hall, hall, List.drop_length, List.take_length, writeAll]
      exact congrArg (WriteOutcome.mk · _) (List.append_nil _)
    · -- bytes are left, and no answer
      obtain ⟨c, rest, hrest⟩ := List.exists_cons_of_ne_nil
        (List.drop_eq_nil_iff.not.mpr (Nat.not_le_of_lt (Nat.lt_of_le_of_ne hin hall)))
      rw [if_neg hall, hrest]
      exact congrArg (WriteOutcome.mk · none) (List.append_nil _)

/-- One more answer to a `write_all` that waits for it. -/
theorem writeAll_concat {buf : Bytes} {as : List WriteAnswer} {a : WriteAnswer}
    (h : (writeAll buf as).Pending)
    (hin : a.Within (buf.length - (writeAll buf as).accepted.length)) :
    writeAll buf (as ++ [a]) = a.respond buf 0 (writeAll buf as).accepted := by
  fun_induction writeAll buf as with
  | case1 | case3 | case4 | case5 => exact absurd h (by simp [WriteOutcome.Pending])
  | case2 => exact writeAll_singleton (List.cons_ne_nil _ _) hin
  | case6 b buf n as hn hz ih =>
    have hlen : ((b :: buf).take n).length = n := List.length_take_of_le (Nat.le_of_not_lt hn)
    rw [WriteOutcome.after_accepted, List.length_append, hlen, ← Nat.sub_sub] at hin
    rw [← List.length_drop] at hin
    have hstep := a.respond_after ((b :: buf).take n) ((b :: buf).drop n) 0
      (writeAll ((b :: buf).drop n) as).accepted
    rw [List.take_append_drop, Nat.zero_sub] at hstep
    rw [List.cons_append, writeAll, if_neg hn, if_neg hz, ih h.of_after hin]
    exact hstep

/-! ### The loop -/

section Loop

variable {header body : Bytes} {as : List WriteAnswer}

/-- A loop that has not put everything leaves bytes. -/
theorem length_writeAllLoop_lt (hne : header ≠ [])
    (h : (writeAllLoop header body as).result ≠ some (.ok ())) :
    (writeAllLoop header body as).accepted.length < header.length + body.length := by
  have hpos : 0 < header.length := List.length_pos_of_ne_nil hne
  fun_induction writeAllLoop header body as with
  | case1 | case3 | case5 | case8 => exact Nat.add_pos_left hpos _
  | case2 => exact absurd rfl h
  | case4 header n as hall hhead hn =>
    have hlt := length_writeAll_lt h
    rw [List.length_drop] at hlt
    rw [WriteOutcome.after_accepted, List.length_append, List.length_append, List.length_take]
    omega
  | case6 header n as hall hhead hz ih =>
    have hrest : 0 < (header.drop n).length := by
      rw [List.length_drop]
      omega
    have hlt := ih (List.ne_nil_of_length_pos hrest) h hrest
    rw [List.length_drop] at hlt
    rw [WriteOutcome.after_accepted, List.length_append, List.length_take]
    omega
  | case7 header as ih => exact ih hne h hpos

/-- A loop that has returned asks for no more answers. -/
theorem writeAllLoop_append_of_returned (h : ¬ (writeAllLoop header body as).Pending)
    (bs : List WriteAnswer) :
    writeAllLoop header body (as ++ bs) = writeAllLoop header body as := by
  fun_induction writeAllLoop header body as with
  | case1 => exact absurd rfl h
  | case2 header as => rw [List.cons_append, writeAllLoop, if_pos rfl]
  | case3 header n as hall hhead hn =>
    rw [List.cons_append, writeAllLoop, if_neg hall, if_pos hhead, if_pos hn]
  | case4 header n as hall hhead hn =>
    rw [List.cons_append, writeAllLoop, if_neg hall, if_pos hhead, if_neg hn,
      writeAll_append_of_returned h]
  | case5 header as hall hhead =>
    rw [List.cons_append, writeAllLoop, if_neg hall, if_neg hhead, if_pos rfl]
  | case6 header n as hall hhead hz ih =>
    rw [List.cons_append, writeAllLoop, if_neg hall, if_neg hhead, if_neg hz, ih h]
  | case7 header as ih => rw [List.cons_append, writeAllLoop, ih h]
  | case8 header k as hk =>
    rw [List.cons_append, writeAllLoop]
    exact hk

/-- One answer to the loop, in each of its four branches. -/
theorem writeAllLoop_singleton (hne : header ≠ []) {a : WriteAnswer}
    (hin : a.Within (header.length + body.length)) :
    writeAllLoop header body [a] = a.respond (header ++ body) header.length [] := by
  have hpos : 0 < header.length := List.length_pos_of_ne_nil hne
  cases a with
  | failed k =>
    cases k with
    | interrupted => simp only [writeAllLoop, WriteAnswer.respond, List.length_nil, if_pos hpos]
    | _ => rfl
  | written n =>
    have hn : ¬ header.length + body.length < n := Nat.not_lt_of_le hin
    simp only [WriteAnswer.respond, List.length_nil, Nat.zero_add, List.length_append]
    by_cases hall : n = header.length + body.length
    · -- everything was taken
      have htake : (header ++ body).take n = header ++ body := by
        rw [hall, ← List.length_append, List.take_length]
      rw [writeAllLoop, if_pos hall, if_neg (by omega), if_pos hall, htake]
    rw [writeAllLoop, if_neg hall]
    by_cases hhead : header.length ≤ n
    · -- the cut is at the end of the header or inside the body
      have htail : body.drop (n - header.length) ≠ [] := by
        refine List.ne_nil_of_length_pos ?_
        rw [List.length_drop]
        omega
      obtain ⟨c, rest, hrest⟩ := List.exists_cons_of_ne_nil htail
      rw [if_pos hhead, if_neg hn, if_neg (by omega), if_neg hall, hrest, List.take_append,
        List.take_of_length_le hhead]
      exact congrArg (WriteOutcome.mk · none) (List.append_nil _)
    · -- the cut is inside the header
      rw [if_neg hhead]
      by_cases hz : n = 0
      · rw [if_pos hz, if_pos hz]
      · rw [if_neg hz, if_neg hz, if_neg hall,
          List.take_append_of_le_length (Nat.le_of_not_le hhead), writeAllLoop]
        exact congrArg (WriteOutcome.mk · none) (List.append_nil _)

/-- One more answer to a loop that waits for it. -/
theorem writeAllLoop_concat (hne : header ≠ []) {a : WriteAnswer}
    (h : (writeAllLoop header body as).Pending)
    (hin : a.Within (header.length + body.length -
      (writeAllLoop header body as).accepted.length)) :
    writeAllLoop header body (as ++ [a]) =
      a.respond (header ++ body) header.length (writeAllLoop header body as).accepted := by
  fun_induction writeAllLoop header body as with
  | case1 => exact writeAllLoop_singleton hne hin
  | case2 | case3 | case5 | case8 => exact absurd h (by simp [WriteOutcome.Pending])
  | case4 header n as hall hhead hn =>
    -- the rest of the body is with `write_all`
    have hlen : (header ++ body.take (n - header.length)).length = n := by
      rw [List.length_append, List.length_take]
      omega
    have hrest : header.length + body.length - n = (body.drop (n - header.length)).length := by
      rw [List.length_drop]
      omega
    rw [WriteOutcome.after_accepted, List.length_append, hlen, ← Nat.sub_sub, hrest] at hin
    have hstep := a.respond_after (header ++ body.take (n - header.length))
      (body.drop (n - header.length)) header.length
      (writeAll (body.drop (n - header.length)) as).accepted
    rw [List.append_assoc, List.take_append_drop, hlen, Nat.sub_eq_zero_of_le hhead] at hstep
    rw [List.cons_append, writeAllLoop, if_neg hall, if_pos hhead, if_neg hn,
      writeAll_concat h.of_after hin]
    exact hstep
  | case6 header n as hall hhead hz ih =>
    have hlen : (header.take n).length = n := List.length_take_of_le (Nat.le_of_not_le hhead)
    have hrest : header.length + body.length - n = (header.drop n).length + body.length := by
      rw [List.length_drop]
      omega
    have hne' : header.drop n ≠ [] := by
      refine List.ne_nil_of_length_pos ?_
      rw [List.length_drop]
      omega
    rw [WriteOutcome.after_accepted, List.length_append, hlen, ← Nat.sub_sub, hrest] at hin
    have hstep := a.respond_after (header.take n) (header.drop n ++ body) header.length
      (writeAllLoop (header.drop n) body as).accepted
    rw [← List.append_assoc, List.take_append_drop, hlen, ← List.length_drop] at hstep
    rw [List.cons_append, writeAllLoop, if_neg hall, if_neg hhead, if_neg hz,
      ih hne' h.of_after hin]
    exact hstep
  | case7 header as ih => exact ih hne h hin

end Loop

/-! ### Messages -/

namespace SerializedMessage

variable (m : SerializedMessage) (p2p : Bool) (as : List WriteAnswer)

/-- While the write is going on, no answer takes more than the bytes of the frame that were
left, which is what its call offered. -/
def Offered : Prop :=
  ∀ sofar a, sofar ++ [a] <+: as → (m.writeAllTo p2p sofar).Pending →
    a.Within ((m.frame p2p).length - (m.writeAllTo p2p sofar).accepted.length)

/-- What the write makes of the answers, at every moment of it. -/
structure Tolerates : Prop where
  /-- It starts by waiting for an answer, with nothing accepted. -/
  start : m.writeAllTo p2p [] = ⟨[], none⟩
  /-- What the writer has accepted is a prefix of the frame. -/
  isPrefix : ∀ sofar, sofar <+: as → (m.writeAllTo p2p sofar).accepted <+: m.frame p2p
  /-- It returns `Ok` exactly when the whole frame is accepted. -/
  ok_iff : ∀ sofar, sofar <+: as → ((m.writeAllTo p2p sofar).result = some (.ok ()) ↔
    (m.writeAllTo p2p sofar).accepted = m.frame p2p)
  /-- As long as it waits there are bytes left. -/
  remaining : ∀ sofar, sofar <+: as → (m.writeAllTo p2p sofar).Pending →
    (m.writeAllTo p2p sofar).accepted.length < (m.frame p2p).length
  /-- A writer that accepts nothing ends it with `WriteZero`. -/
  writeZero : ∀ sofar, sofar ++ [.written 0] <+: as → (m.writeAllTo p2p sofar).Pending →
    m.writeAllTo p2p (sofar ++ [.written 0]) =
      ⟨(m.writeAllTo p2p sofar).accepted, some (.error (.error (.io .writeZero)))⟩
  /-- A count moves it on by that many bytes. It waits for the next answer unless these were
  the last. -/
  written : ∀ sofar n, n ≠ 0 → sofar ++ [.written n] <+: as → (m.writeAllTo p2p sofar).Pending →
    m.writeAllTo p2p (sofar ++ [.written n]) =
        ⟨(m.frame p2p).take ((m.writeAllTo p2p sofar).accepted.length + n),
          if (m.writeAllTo p2p sofar).accepted.length + n = (m.frame p2p).length
          then some (.ok ()) else none⟩ ∧
      (m.writeAllTo p2p (sofar ++ [.written n])).accepted.length =
        (m.writeAllTo p2p sofar).accepted.length + n
  /-- Any error but an interrupted call is returned as it is. -/
  error : ∀ sofar k, k ≠ .interrupted → sofar ++ [.failed k] <+: as →
    (m.writeAllTo p2p sofar).Pending → m.writeAllTo p2p (sofar ++ [.failed k]) =
      ⟨(m.writeAllTo p2p sofar).accepted, some (.error (.error (.io k)))⟩
  /-- An interrupted call takes nothing, and is made again while bytes of the header are
  left; in the body `write_all` returns it. -/
  interrupted : ∀ sofar, sofar ++ [.failed .interrupted] <+: as →
    (m.writeAllTo p2p sofar).Pending → m.writeAllTo p2p (sofar ++ [.failed .interrupted]) =
      ⟨(m.writeAllTo p2p sofar).accepted,
        if (m.writeAllTo p2p sofar).accepted.length < m.header.length then none
        else some (.error (.error (.io .interrupted)))⟩
  /-- What it returns but `Ok` is the error of an answer that it waited for, or the `WriteZero`
  of an answer that accepted nothing. -/
  returnsError : ∀ sofar e, sofar <+: as → (m.writeAllTo p2p sofar).result = some (.error e) →
    ∃ before a, before ++ [a] <+: sofar ∧ (m.writeAllTo p2p before).Pending ∧
      ((a = .written 0 ∧ e = .error (.io .writeZero)) ∨
        ∃ k, a = .failed k ∧ e = .error (.io k))
  /-- No slice of it is out of bounds. -/
  panicFree : ∀ sofar, sofar <+: as →
    (m.writeAllTo p2p sofar).result ≠ some (.error .panic)
  /-- Once it has returned it asks for no more answers. -/
  returned : ∀ sofar, sofar <+: as → ¬ (m.writeAllTo p2p sofar).Pending →
    m.writeAllTo p2p as = m.writeAllTo p2p sofar

/-- A writer that accepts the rest of the frame from a position on: some bytes of every call, with
interrupted calls while bytes of the header are left. -/
inductive Accepts : ℕ → List WriteAnswer → Prop
  | done : Accepts (m.frame p2p).length []
  | written {pos n : ℕ} {as : List WriteAnswer} : n ≠ 0 → pos + n ≤ (m.frame p2p).length →
      Accepts (pos + n) as → Accepts pos (.written n :: as)
  | interrupted {pos : ℕ} {as : List WriteAnswer} : pos < m.header.length → Accepts pos as →
      Accepts pos (.failed .interrupted :: as)

variable {m p2p as}

@[simp] theorem length_frame : (m.frame p2p).length =
    m.header.length + (List.replicate (m.body.inlineSize p2p) (0 : UInt8)).length := by
  rw [frame, List.length_append]

theorem offered_nil : m.Offered p2p [] := fun _ _ h _ => by simp at h

theorem offered_concat (h : m.Offered p2p as) {a : WriteAnswer}
    (ha : a.Within ((m.frame p2p).length - (m.writeAllTo p2p as).accepted.length)) :
    m.Offered p2p (as ++ [a]) := by
  intro sofar b hpre hpend
  rcases List.prefix_concat_iff.mp hpre with heq | hpre
  · obtain ⟨rfl, hb⟩ := List.append_inj' heq rfl
    cases hb
    exact ha
  · exact h sofar b hpre hpend

theorem Offered.mono {bs : List WriteAnswer} (h : m.Offered p2p as) (hpre : bs <+: as) :
    m.Offered p2p bs := fun sofar a hsofar => h sofar a (hsofar.trans hpre)

/-- **One answer.** A write that waits makes of its next answer what a cursor in the frame
would make of it. -/
theorem writeAllTo_concat (hne : m.header ≠ []) {a : WriteAnswer}
    (h : (m.writeAllTo p2p as).Pending)
    (hin : a.Within ((m.frame p2p).length - (m.writeAllTo p2p as).accepted.length)) :
    m.writeAllTo p2p (as ++ [a]) =
      a.respond (m.frame p2p) m.header.length (m.writeAllTo p2p as).accepted := by
  rw [length_frame] at hin
  exact writeAllLoop_concat hne h hin

theorem length_accepted_lt (hne : m.header ≠ [])
    (h : (m.writeAllTo p2p as).result ≠ some (.ok ())) :
    (m.writeAllTo p2p as).accepted.length < (m.frame p2p).length := by
  rw [length_frame]
  exact length_writeAllLoop_lt hne h

/-- A write that waits has bytes left to write. -/
theorem length_accepted_lt_of_pending (hne : m.header ≠ [])
    (h : (m.writeAllTo p2p as).Pending) :
    (m.writeAllTo p2p as).accepted.length < (m.frame p2p).length := by
  refine length_accepted_lt hne ?_
  rw [h]
  exact (Option.some_ne_none _).symm

theorem result_eq_ok_iff (hne : m.header ≠ []) :
    (m.writeAllTo p2p as).result = some (.ok ()) ↔
      (m.writeAllTo p2p as).accepted = m.frame p2p := by
  refine ⟨m.accepted_of_ok p2p as, fun h => ?_⟩
  by_contra hres
  have hlt := length_accepted_lt hne hres
  rw [h] at hlt
  exact Nat.lt_irrefl _ hlt

theorem writeAllTo_of_returned {sofar : List WriteAnswer} (hpre : sofar <+: as)
    (h : ¬ (m.writeAllTo p2p sofar).Pending) : m.writeAllTo p2p as = m.writeAllTo p2p sofar := by
  obtain ⟨rest, rfl⟩ := hpre
  exact writeAllLoop_append_of_returned h rest

/-- The errors that an answer can end the write with. -/
theorem respond_eq_error {a : WriteAnswer} {frame accepted : Bytes} {headerLen : ℕ} {e : Failure}
    (h : (a.respond frame headerLen accepted).result = some (.error e)) :
    (a = .written 0 ∧ e = .error (.io .writeZero)) ∨ ∃ k, a = .failed k ∧ e = .error (.io k) := by
  cases a with
  | written n =>
    rw [WriteAnswer.respond] at h
    split_ifs at h with hn hall
    · cases h
      exact .inl ⟨congrArg _ hn, rfl⟩
    · cases h
  | failed k =>
    refine .inr ⟨k, rfl, ?_⟩
    cases k with
    | interrupted =>
      simp only [WriteAnswer.respond] at h
      split_ifs at h
      cases h
      rfl
    | _ =>
      cases h
      rfl

/-- An error is returned for the answer that the write waited for. -/
theorem exists_of_result_eq_error (hne : m.header ≠ []) (hoff : m.Offered p2p as) {e : Failure}
    (h : (m.writeAllTo p2p as).result = some (.error e)) :
    ∃ before a, before ++ [a] <+: as ∧ (m.writeAllTo p2p before).Pending ∧
      ((a = .written 0 ∧ e = .error (.io .writeZero)) ∨
        ∃ k, a = .failed k ∧ e = .error (.io k)) := by
  induction as using List.reverseRecOn with
  | nil => simp [writeAllTo, writeAllLoop] at h
  | append_singleton sofar a ih =>
    by_cases hpend : (m.writeAllTo p2p sofar).Pending
    · rw [writeAllTo_concat hne hpend (hoff sofar a (List.prefix_refl _) hpend)] at h
      exact ⟨sofar, a, List.prefix_refl _, hpend, respond_eq_error h⟩
    · -- it had returned before the last answer
      rw [writeAllTo_of_returned (List.prefix_append sofar [a]) hpend] at h
      obtain ⟨before, b, hpre, hrest⟩ := ih (hoff.mono (List.prefix_append sofar [a])) h
      exact ⟨before, b, hpre.trans (List.prefix_append sofar [a]), hrest⟩

/-- Answers within what was offered never drive a slice out of bounds. -/
theorem result_ne_panic (hne : m.header ≠ []) (hoff : m.Offered p2p as) :
    (m.writeAllTo p2p as).result ≠ some (.error .panic) := by
  intro h
  obtain ⟨before, a, -, -, ⟨-, he⟩ | ⟨k, -, he⟩⟩ := exists_of_result_eq_error hne hoff h
  · cases he
  · cases he

/-- A writer that accepts gets the whole frame, however it cuts it. -/
theorem writeAllTo_append_of_accepts (hne : m.header ≠ []) (sofar : List WriteAnswer)
    (hpend : (m.writeAllTo p2p sofar).Pending)
    (h : m.Accepts p2p (m.writeAllTo p2p sofar).accepted.length as) :
    m.writeAllTo p2p (sofar ++ as) = ⟨m.frame p2p, some (.ok ())⟩ := by
  generalize hpos : (m.writeAllTo p2p sofar).accepted.length = pos at h
  -- on the answers that are left, for whatever came before
  induction h generalizing sofar with
  | done => exact absurd hpos (Nat.ne_of_lt (length_accepted_lt_of_pending hne hpend))
  | @written pos n as hn hle _ ih =>
    have hstep := writeAllTo_concat hne hpend (a := .written n)
      (show n ≤ _ by rw [hpos]; exact Nat.le_sub_of_add_le' hle)
    rw [WriteAnswer.respond, if_neg hn, hpos] at hstep
    rw [List.append_cons]
    by_cases hall : pos + n = (m.frame p2p).length
    · -- the frame is complete
      rw [if_pos hall, hall, List.take_length] at hstep
      have hreturned : ¬ (m.writeAllTo p2p (sofar ++ [.written n])).Pending := by
        simp [hstep, WriteOutcome.Pending]
      rw [writeAllTo_of_returned (List.prefix_append _ as) hreturned, hstep]
    · rw [if_neg hall] at hstep
      have hlen : (m.writeAllTo p2p (sofar ++ [.written n])).accepted.length = pos + n := by
        rw [hstep]
        exact List.length_take_of_le hle
      exact ih _ (congrArg WriteOutcome.result hstep) hlen
  | @interrupted pos as hlt _ ih =>
    have hstep := writeAllTo_concat hne hpend (a := .failed .interrupted) trivial
    rw [WriteAnswer.respond, hpos, if_pos hlt] at hstep
    rw [List.append_cons]
    exact ih _ (congrArg WriteOutcome.result hstep) (by rw [hstep]; exact hpos)

theorem writeAllTo_of_accepts (hne : m.header ≠ []) (h : m.Accepts p2p 0 as) :
    m.writeAllTo p2p as = ⟨m.frame p2p, some (.ok ())⟩ :=
  writeAllTo_append_of_accepts hne [] rfl h

/-- **Partial writes.** Whatever a writer answers within what it is offered, the write puts
the bytes of the frame in order, and ends as its last answer says. -/
theorem writeAllTo_tolerates (hne : m.header ≠ []) (hoff : m.Offered p2p as) :
    m.Tolerates p2p as := by
  have hstep : ∀ sofar a, sofar ++ [a] <+: as → (m.writeAllTo p2p sofar).Pending →
      m.writeAllTo p2p (sofar ++ [a]) =
        a.respond (m.frame p2p) m.header.length (m.writeAllTo p2p sofar).accepted :=
    fun sofar a hpre hpend => writeAllTo_concat hne hpend (hoff sofar a hpre hpend)
  constructor
  case start => rfl
  case isPrefix => exact fun sofar _ => m.isPrefix_accepted p2p sofar
  case ok_iff => exact fun sofar _ => result_eq_ok_iff hne
  case remaining => exact fun sofar _ hpend => length_accepted_lt_of_pending hne hpend
  case writeZero => exact fun sofar hpre hpend => hstep sofar _ hpre hpend
  case written =>
    intro sofar n hn hpre hpend
    have hin : n ≤ (m.frame p2p).length - (m.writeAllTo p2p sofar).accepted.length :=
      hoff sofar _ hpre hpend
    have hlt := length_accepted_lt_of_pending hne hpend
    have hresult := hstep sofar _ hpre hpend
    rw [WriteAnswer.respond, if_neg hn] at hresult
    refine ⟨hresult, ?_⟩
    rw [hresult]
    exact List.length_take_of_le (by omega)
  case error =>
    intro sofar k hk hpre hpend
    rw [hstep sofar _ hpre hpend]
    cases k with
    | interrupted => exact absurd rfl hk
    | _ => rfl
  case interrupted => exact fun sofar hpre hpend => hstep sofar _ hpre hpend
  case returnsError => exact fun sofar e hpre => exists_of_result_eq_error hne (hoff.mono hpre)
  case panicFree => exact fun sofar hpre => result_ne_panic hne (hoff.mono hpre)
  case returned => exact fun sofar hpre hpend => writeAllTo_of_returned hpre hpend

/-- A body of four bytes under a header of three: the writer takes two bytes, is interrupted,
takes two more across the end of the header, and then what is left. -/
theorem writeAllTo_tolerates_short :
    (SerializedMessage.mk [1, 2, 3] (.size ⟨4, by decide⟩)).Tolerates false
        [.written 2, .failed .interrupted, .written 2, .written 3] ∧
      (SerializedMessage.mk [1, 2, 3] (.size ⟨4, by decide⟩)).writeAllTo false [.written 2] =
        ⟨[1, 2], none⟩ ∧
      (SerializedMessage.mk [1, 2, 3] (.size ⟨4, by decide⟩)).writeAllTo false
        [.written 2, .failed .interrupted] = ⟨[1, 2], none⟩ ∧
      (SerializedMessage.mk [1, 2, 3] (.size ⟨4, by decide⟩)).writeAllTo false
        [.written 2, .failed .interrupted, .written 2] = ⟨[1, 2, 3, 0], none⟩ ∧
      (SerializedMessage.mk [1, 2, 3] (.size ⟨4, by decide⟩)).writeAllTo false
        [.written 2, .failed .interrupted, .written 2, .written 3] =
          ⟨[1, 2, 3, 0, 0, 0, 0], some (.ok ())⟩ := by
  refine ⟨writeAllTo_tolerates (by decide) ?_, rfl, rfl, rfl, rfl⟩
  have h : Offered ⟨[1, 2, 3], .size ⟨4, by decide⟩⟩ false [] := offered_nil
  have h := offered_concat h (a := .written 2) (by decide)
  have h := offered_concat h (a := .failed .interrupted) (by decide)
  have h := offered_concat h (a := .written 2) (by decide)
  exact offered_concat h (a := .written 3) (by decide)

end SerializedMessage

end SignalSim.Mgen
