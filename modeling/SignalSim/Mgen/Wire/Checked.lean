import SignalSim.Foundations.Result
import SignalSim.Mgen.Wire.Stream

/-!
# The readers with their slices

The readers of `lib.rs` once more, with every slice, copy and conversion that can panic
written out. Beside the plain readers of `Wire.Stream` they show which of these the code
guards: all of those in the decoders, and all but one in `get_message_with_header_size`,
where the declared header size is not compared with the four bytes it stands in.

## Main definitions

* `Checked.getMessageBytes`, `Checked.getMessage` — the readers with explicit slices

## Main results

* `Checked.deserializeHeader_eq`, `Checked.getMessageBytes_eq`, `Checked.getMessage_eq` — the
  plain readers are these
* `Checked.getMessage_panic_free_iff` — on which streams nothing panics
-/

namespace SignalSim.Mgen

open SignalSim.Reader SignalSim.Result

/-! ### Slices and conversions -/

/-- `&buf[start..]`. -/
def sliceFrom (start : ℕ) (buf : Bytes) : Except Failure Bytes :=
  if start ≤ buf.length then .ok (buf.drop start) else .error .panic

/-- `buf.get(..stop)`. -/
def slice? (stop : ℕ) (buf : Bytes) : Option Bytes :=
  if stop ≤ buf.length then some (buf.take stop) else none

/-- `u32::from_be_bytes(bytes.try_into().unwrap())`. -/
def fromBeBytes (bytes : Bytes) : Except Failure UInt32 :=
  if bytes.length = 4 then .ok (decodeU32 bytes) else .error .panic

/-- `buf[..src.len()].copy_from_slice(src)` of a source of `n` bytes. -/
def copyToStart (n : ℕ) (src buf : Bytes) : Except Failure Bytes :=
  if n ≤ buf.length ∧ src.length = n then .ok (src ++ buf.drop n) else .error .panic

theorem sliceFrom_of_le {start : ℕ} {buf : Bytes} (h : start ≤ buf.length) :
    sliceFrom start buf = .ok (buf.drop start) := if_pos h

theorem sliceFrom_of_lt {start : ℕ} {buf : Bytes} (h : buf.length < start) :
    sliceFrom start buf = .error .panic := if_neg (Nat.not_le_of_lt h)

namespace Checked

/-! ### Decoders -/

def deserializeU32 (buf : Bytes) : Except Failure (UInt32 × Bytes) :=
  match slice? 4 buf with
  | none => .error (.error (.malformedSerialization buf))
  | some bytes => do
    let n ← fromBeBytes bytes
    let rest ← sliceFrom 4 buf
    pure (n, rest)

def deserializeStr (buf : Bytes) : Except Failure (String × Bytes) := do
  let (strlen, buf) ← deserializeU32 buf
  match slice? strlen.toNat buf with
  | none => .error (.error (.malformedSerialization buf))
  | some strbytes =>
    match fromUtf8 strbytes with
    | none => .error (.error .utf8Error)
    | some s => do
      let rest ← sliceFrom strlen.toNat buf
      pure (s, rest)

/-- The decoder that `MessageHeader` and `MessageHeaderRef` have word for word, up to the
constructor at its end. -/
def deserializeWith {H : Type} (mk : String → String → UInt32 → MessageBody → H)
    (buf : Bytes) : Except Failure H := do
  let (sender, buf) ← deserializeStr buf
  let (group, buf) ← deserializeStr buf
  let (id, buf) ← deserializeU32 buf
  let (body, _) ← deserializeU32 buf
  pure (mk sender group id (.ofBodyType body))

/-- `MessageHeader::deserialize`. -/
def deserializeHeader : Bytes → Except Failure MessageHeader := deserializeWith .mk

/-- `MessageHeaderRef::deserialize`. -/
def deserializeHeaderRef : Bytes → Except Failure MessageHeaderRef := deserializeWith .mk

/-! ### The decoders never panic -/

/-- The four bytes found by `get` convert to a word, and leave a rest. -/
theorem deserializeU32_eq (buf : Bytes) :
    deserializeU32 buf = (Mgen.deserializeU32 buf).mapError .error := by
  unfold deserializeU32 Mgen.deserializeU32 slice?
  by_cases h : 4 ≤ buf.length
  · have hword : fromBeBytes (buf.take 4) = .ok (decodeU32 (buf.take 4)) := by
      apply if_pos
      rw [List.length_take]
      omega
    simp only [if_pos h, hword, sliceFrom_of_le h]
    rfl
  · simp only [if_neg h]
    rfl

/-- The bytes found by `get` leave a rest. -/
theorem deserializeStr_eq (buf : Bytes) :
    deserializeStr buf = (Mgen.deserializeStr buf).mapError .error := by
  unfold deserializeStr Mgen.deserializeStr
  rw [deserializeU32_eq, mapError_bind]
  congr 1
  funext ⟨strlen, buf⟩
  by_cases h : strlen.toNat ≤ buf.length
  · simp only [slice?, if_pos h, sliceFrom_of_le h]
    cases fromUtf8 (buf.take strlen.toNat) <;> rfl
  · simp only [slice?, if_neg h]
    rfl

/-- The decoder of headers, for both types of header. -/
theorem deserializeWith_eq {H : Type} (mk : String → String → UInt32 → MessageBody → H)
    (buf : Bytes) : deserializeWith mk buf =
      ((fun m : MessageHeader => mk m.sender m.group m.id m.body) <$>
        MessageHeader.deserialize buf).mapError .error := by
  unfold deserializeWith MessageHeader.deserialize
  simp only [map_bind, mapError_bind, deserializeStr_eq, deserializeU32_eq]
  rfl

theorem deserializeHeader_eq (buf : Bytes) :
    deserializeHeader buf = (MessageHeader.deserialize buf).mapError .error := by
  rw [deserializeHeader, deserializeWith_eq, id_map']

theorem deserializeHeaderRef_eq (buf : Bytes) :
    deserializeHeaderRef buf = (MessageHeaderRef.deserialize buf).mapError .error := by
  rw [deserializeHeaderRef, deserializeWith_eq, ← MessageHeaderRef.map_toOwned_deserialize,
    Functor.map_map]
  exact congrArg _ (id_map' _)

/-- What is only wrapped in an error is no panic. -/
theorem mapError_ne_panic {α : Type} (x : Except Error α) :
    x.mapError Failure.error ≠ .error .panic := by
  cases x <;> simp [Except.mapError]

/-! ### Readers -/

/-- Get the rest of a message into a buffer of the declared size, whose first four bytes are
filled in at the end. -/
def getMessageWithHeaderSize (p2p : Bool) (headerSizeBytes : Bytes) : Reader Failure Bytes := do
  let headerBuf := List.replicate (decodeU32 headerSizeBytes).toNat 0
  let tail ← ofResult (sliceFrom 4 headerBuf)
  let read ← takeExact eof tail.length
  let headerBuf := headerBuf.take 4 ++ read
  let tail ← ofResult (sliceFrom 4 headerBuf)
  let header ← ofResult (deserializeHeader tail)
  let headerBuf ← ofResult (copyToStart 4 headerSizeBytes headerBuf)
  discard (header.body.inlineSize p2p)
  pure headerBuf

def getMessageBytes (p2p : Bool) : Reader Failure Bytes := do
  let headerSizeBytes ← takeExact eof 4
  getMessageWithHeaderSize p2p headerSizeBytes

def getMessage (p2p : Bool) : Reader Failure MessageHeader := do
  let buf ← getMessageBytes p2p
  let tail ← ofResult (sliceFrom 4 buf)
  ofResult (deserializeHeader tail)

/-! ### The readers panic on a declared size below four only -/

section Run

variable {p2p : Bool} {size bs : Bytes}

theorem ofResult_ok_bind {α β : Type} (a : α) (f : α → Reader Failure β) :
    ofResult (.ok a) >>= f = f a := rfl

/-- With a declared size of at least four the slices of the buffer are in bounds. -/
theorem getMessageWithHeaderSize_eq (hsize : size.length = 4) :
    getMessageWithHeaderSize p2p size = Mgen.getMessageWithHeaderSize p2p size := by
  simp only [getMessageWithHeaderSize, Mgen.getMessageWithHeaderSize]
  by_cases h : (decodeU32 size).toNat < 4
  · -- the first slice panics
    rw [sliceFrom_of_lt (by rwa [List.length_replicate]), if_pos h]
    rfl
  · have hfour : ((List.replicate (decodeU32 size).toNat (0 : UInt8)).take 4).length = 4 := by
      rw [List.length_take, List.length_replicate]
      omega
    have hslice : sliceFrom 4 (List.replicate (decodeU32 size).toNat (0 : UInt8)) =
        .ok ((List.replicate (decodeU32 size).toNat 0).drop 4) := by
      apply sliceFrom_of_le
      rw [List.length_replicate]
      omega
    rw [hslice, ofResult_ok_bind, List.length_drop, List.length_replicate, if_neg h]
    congr 1
    funext read
    -- whatever was read, the four bytes before it are there
    generalize (List.replicate (decodeU32 size).toNat (0 : UInt8)).take 4 = start at hfour
    have htail : sliceFrom 4 (start ++ read) = .ok read := by
      rw [sliceFrom_of_le (by rw [List.length_append]; omega), List.drop_left' hfour]
    have hcopy : copyToStart 4 size (start ++ read) = .ok (size ++ read) := by
      rw [copyToStart, List.drop_left' hfour, if_pos]
      exact ⟨by rw [List.length_append]; omega, hsize⟩
    rw [htail, ofResult_ok_bind, deserializeHeader_eq, hcopy]
    rfl

theorem getMessageBytes_eq (p2p : Bool) : getMessageBytes p2p = Mgen.getMessageBytes p2p := by
  funext bs
  by_cases h : 4 ≤ bs.length
  · have hsize : (bs.take 4).length = 4 := by
      rw [List.length_take]
      omega
    have hread : (takeExact eof 4).run bs = .ok (bs.take 4, bs.drop 4) := if_pos h
    change (getMessageBytes p2p).run bs = (Mgen.getMessageBytes p2p).run bs
    rw [getMessageBytes, Mgen.getMessageBytes, Reader.run_bind, Reader.run_bind, hread]
    simp only [Except.bind, getMessageWithHeaderSize_eq hsize]
  · have hread : (takeExact eof 4).run bs = .error eof := if_neg h
    change (getMessageBytes p2p).run bs = (Mgen.getMessageBytes p2p).run bs
    rw [getMessageBytes, Mgen.getMessageBytes, Reader.run_bind, Reader.run_bind, hread]
    rfl

theorem getMessage_eq (p2p : Bool) : getMessage p2p = Mgen.getMessage p2p := by
  funext bs
  change (getMessage p2p).run bs = (Mgen.getMessage p2p).run bs
  rw [getMessage, Mgen.getMessage, getMessageBytes_eq, Reader.run_bind, Reader.run_bind]
  cases hread : (Mgen.getMessageBytes p2p).run bs with
  | error e => rfl
  | ok read =>
    obtain ⟨h, tail, hbuf, -, -⟩ := getMessageBytes_eq_ok hread
    simp only [Except.bind, sliceFrom_of_le hbuf.four_le, ofResult_ok_bind, deserializeHeader_eq]
    rfl

theorem takeExact_ne_panic (n : ℕ) (bs : Bytes) :
    (takeExact eof n).run bs ≠ .error .panic := by
  by_cases h : n ≤ bs.length
  · simp [takeExact, StateT.run, h]
  · simp [takeExact, StateT.run, h, eof]

/-- After a length field of four or more the rest of the read cannot panic. -/
theorem getMessageWithHeaderSize_eq_panic_iff :
    (Mgen.getMessageWithHeaderSize p2p size).run bs = .error .panic ↔
      (decodeU32 size).toNat < 4 := by
  simp only [Mgen.getMessageWithHeaderSize]
  by_cases h : (decodeU32 size).toNat < 4
  · rw [if_pos h]
    exact iff_of_true rfl h
  · rw [if_neg h, iff_false_right h, Reader.run_bind]
    cases hread : (takeExact eof ((decodeU32 size).toNat - 4)).run bs with
    | error e =>
      intro hpanic
      apply takeExact_ne_panic _ bs
      rw [hread]
      exact hpanic
    | ok read =>
      -- what is left is the decoder, whose errors are propagated
      simp only [Except.bind, Reader.run_bind, propagate]
      cases hd : MessageHeader.deserialize read.1 with
      | error e => simp [ofResult, StateT.run, Except.mapError, Except.map]
      | ok header =>
        intro hpanic
        cases hpanic

end Run

/-- `get_message_bytes` panics on a length field that declares less than its own size. -/
theorem getMessageBytes_eq_panic_iff (p2p : Bool) (bs : Bytes) :
    (getMessageBytes p2p).run bs = .error .panic ↔
      4 ≤ bs.length ∧ (decodeU32 (bs.take 4)).toNat < 4 := by
  rw [getMessageBytes_eq, Mgen.getMessageBytes, Reader.run_bind]
  by_cases h : 4 ≤ bs.length
  · have hread : (takeExact eof 4).run bs = .ok (bs.take 4, bs.drop 4) := if_pos h
    rw [hread]
    simp only [Except.bind, getMessageWithHeaderSize_eq_panic_iff, h, true_and]
  · have hread : (takeExact eof 4).run bs = .error eof := if_neg h
    rw [hread]
    simp [Except.bind, h, eof]

/-- `get_message` panics where `get_message_bytes` does. -/
theorem getMessage_eq_panic_iff (p2p : Bool) (bs : Bytes) :
    (getMessage p2p).run bs = .error .panic ↔ (getMessageBytes p2p).run bs = .error .panic := by
  rw [getMessage_eq, getMessageBytes_eq, Mgen.getMessage, Reader.run_bind]
  cases hread : (Mgen.getMessageBytes p2p).run bs with
  | error e => simp [Except.bind]
  | ok read =>
    obtain ⟨h, tail, hbuf, -, -⟩ := getMessageBytes_eq_ok hread
    simp [Except.bind, propagate, hbuf.deserialize, ofResult, StateT.run, Except.mapError,
      Except.map]

/-- A length field of zero to three makes both readers panic. -/
theorem getMessage_panic :
    (getMessageBytes false).run [0, 0, 0, 3] = .error .panic ∧
      (getMessage true).run [0, 0, 0, 3] = .error .panic := by
  constructor <;> rfl

/-- **Panics of the readers.** On a stream neither reader panics if and only if the stream
ends inside the length field or the length field declares at least its own four bytes. The
decoders panic on no buffer. -/
theorem getMessage_panic_free_iff (p2p : Bool) (bs buf : Bytes) :
    ((getMessageBytes p2p).run bs ≠ .error .panic ∧ (getMessage p2p).run bs ≠ .error .panic ↔
      bs.length < 4 ∨ 4 ≤ (decodeU32 (bs.take 4)).toNat) ∧
    deserializeU32 buf ≠ .error .panic ∧ deserializeStr buf ≠ .error .panic ∧
      deserializeHeader buf ≠ .error .panic ∧ deserializeHeaderRef buf ≠ .error .panic := by
  constructor
  · rw [Ne, Ne, getMessage_eq_panic_iff, and_self, getMessageBytes_eq_panic_iff]
    omega
  · rw [deserializeU32_eq, deserializeStr_eq, deserializeHeader_eq, deserializeHeaderRef_eq]
    exact ⟨mapError_ne_panic _, mapError_ne_panic _, mapError_ne_panic _, mapError_ne_panic _⟩

end Checked

end SignalSim.Mgen
