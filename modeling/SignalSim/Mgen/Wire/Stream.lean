import Mathlib.Data.List.Forall2
import SignalSim.Mgen.Wire.Message

/-!
# Reading and writing messages on streams

The functions of `lib.rs` that read identifiers, handshakes and messages off a stream, and
the vectored write loop that puts a serialized message on one. A writer is given by the
sequence of answers it makes to the calls of the loop.

## Main results

* `getMessage_consumes` — a message frame is read back, and exactly its bytes are taken
* `SerializedMessage.isPrefix_accepted` — at every moment the bytes a writer has accepted are
  a prefix of the message's frame
* `SerializedMessage.accepted_of_ok` — a write that returns `Ok` put the whole frame
-/

namespace SignalSim.Mgen

open SignalSim.Reader

/-! ### Reading -/

/-- The failure of a read that meets the end of the stream. -/
def eof : Failure := .error (.io .unexpectedEof)

/-- `?` on a result of the wire library. -/
def propagate {α : Type} (x : Except Error α) : Reader Failure α :=
  ofResult (x.mapError .error)

/-- `AsyncReadExt::read_u32`. -/
def readU32 : Reader Failure UInt32 := do
  let bytes ← takeExact eof 4
  pure (decodeU32 bytes)

/-- Parse the identifier from the start of the stream. -/
def parseIdentifier : Reader Failure String := do
  let strlen ← readU32
  let buf ← takeExact eof strlen.toNat
  match fromUtf8 buf with
  | some s => pure s
  | none => fail (.error .utf8Error)

/-- Get a handshake from the stream. -/
def getHandshake : Reader Failure Handshake := do
  let sender ← parseIdentifier
  let group ← parseIdentifier
  pure ⟨sender, group⟩

/-- Get the rest of a message whose length field has been read. The body is copied to a
sink: a stream that ends inside the body ends the copy without an error. -/
def getMessageWithHeaderSize (p2p : Bool) (headerSizeBytes : Bytes) : Reader Failure Bytes := do
  let headerSize := (decodeU32 headerSizeBytes).toNat
  -- the slice `header_buf[4..]` of a shorter buffer panics
  if headerSize < 4 then fail .panic
  else
    let headerBuf ← takeExact eof (headerSize - 4)
    let header ← propagate (MessageHeader.deserialize headerBuf)
    discard (header.body.inlineSize p2p)
    pure (headerSizeBytes ++ headerBuf)

/-- Get a message from the stream, as the raw bytes of its header. -/
def getMessageBytes (p2p : Bool) : Reader Failure Bytes := do
  let headerSizeBytes ← takeExact eof 4
  getMessageWithHeaderSize p2p headerSizeBytes

/-- Get a message from the stream and construct its header. -/
def getMessage (p2p : Bool) : Reader Failure MessageHeader := do
  let buf ← getMessageBytes p2p
  propagate (MessageHeader.deserialize (buf.drop 4))

theorem propagate_consumes {α : Type} {x : Except Error α} {a : α} (h : x = .ok a) :
    Consumes (propagate x) [] a :=
  consumes_ofResult (by rw [h]; rfl)

theorem takeExact_consumes_word (n : UInt32) :
    Consumes (takeExact eof 4) (encodeU32 n) (encodeU32 n) :=
  consumes_takeExact eof (encodeU32 n)

theorem readU32_consumes (n : UInt32) : Consumes readU32 (encodeU32 n) n := by
  apply (takeExact_consumes_word n).bind_last
  rw [decodeU32_encodeU32]
  exact consumes_pure n

theorem parseIdentifier_consumes {s : String} (h : (asBytes s).length < UInt32.size) :
    Consumes parseIdentifier (serializeStr s) s := by
  have hbuf : Consumes (takeExact eof (UInt32.ofNat (asBytes s).length).toNat) (asBytes s)
      (asBytes s) := by
    rw [toNat_ofNat_length h]
    exact consumes_takeExact eof (asBytes s)
  apply (readU32_consumes _).bind
  apply hbuf.bind_last
  rw [fromUtf8_asBytes]
  exact consumes_pure s

/-- Both names of the handshake are representable with their lengths. -/
def Handshake.Fits (h : Handshake) : Prop :=
  (asBytes h.sender).length < UInt32.size ∧ (asBytes h.group).length < UInt32.size

theorem getHandshake_consumes {h : Handshake} (hfit : h.Fits) :
    Consumes getHandshake h.serialize h := by
  rw [h.serialize_eq]
  exact (parseIdentifier_consumes hfit.1).bind
    ((parseIdentifier_consumes hfit.2).bind_last (consumes_pure h))

/-! ### Frames -/

/-- The bytes of a message on the wire: its header, and its inline body of zeros. -/
def SerializedMessage.frame (m : SerializedMessage) (p2p : Bool) : Bytes :=
  m.header ++ List.replicate (m.body.inlineSize p2p) 0

/-- The frame of a message, from its header. -/
def MessageHeader.frame (m : MessageHeader) (p2p : Bool) : Bytes :=
  m.frameHeader ++ List.replicate (m.body.inlineSize p2p) 0

/-- A buffer that `get_message_bytes` returns: as long as its first four bytes declare, with
a header after them. Other bytes may follow the header in it. -/
structure RawHeader (buf : Bytes) (h : MessageHeader) : Prop where
  four_le : 4 ≤ buf.length
  declared : (decodeU32 (buf.take 4)).toNat = buf.length
  deserialize : MessageHeader.deserialize (buf.drop 4) = .ok h

theorem MessageHeader.Fits.rawHeader {m : MessageHeader} (h : m.Fits) :
    RawHeader m.frameHeader m where
  four_le := by
    rw [m.length_frameHeader, MessageHeader.headerLen]
    omega
  declared := by
    rw [m.length_frameHeader, MessageHeader.frameHeader, List.take_left' (length_encodeU32 _),
      decodeU32_encodeU32, h.toNat_headerLen]
  deserialize := by rw [m.drop_frameHeader, MessageHeader.deserialize_headerTail h]

/-- Once the header has come through, the read succeeds, however much of the body follows. -/
theorem RawHeader.run {buf : Bytes} {h : MessageHeader} (hbuf : RawHeader buf h) (p2p : Bool)
    (bs : Bytes) : (getMessageBytes p2p).run (buf ++ bs) =
      .ok (buf, bs.drop (h.body.inlineSize p2p)) := by
  have hsize : (buf.take 4).length = 4 := by
    rw [List.length_take, Nat.min_eq_left hbuf.four_le]
  have htail : (buf.drop 4).length = buf.length - 4 := List.length_drop
  have hfour : ¬ buf.length < 4 := Nat.not_lt_of_le hbuf.four_le
  have hread : Consumes (takeExact eof 4) (buf.take 4) (buf.take 4) := by
    have := consumes_takeExact eof (buf.take 4)
    rwa [hsize] at this
  have hrest : Consumes (takeExact eof (buf.length - 4)) (buf.drop 4) (buf.drop 4) := by
    rw [← htail]
    exact consumes_takeExact eof (buf.drop 4)
  have hheader := propagate_consumes hbuf.deserialize
  have hsplit : buf ++ bs = buf.take 4 ++ (buf.drop 4 ++ bs) := by
    rw [← List.append_assoc, List.take_append_drop]
  rw [hsplit, getMessageBytes, hread.run_bind]
  simp only [getMessageWithHeaderSize, hbuf.declared, if_neg hfour]
  rw [hrest.run_bind]
  -- `discard` takes the body, or what there is of it
  rw [List.take_append_drop]
  exact hheader.run_bind bs

/-- What a successful read found on the stream. -/
theorem getMessageBytes_eq_ok {p2p : Bool} {bs buf rest : Bytes}
    (hread : (getMessageBytes p2p).run bs = .ok (buf, rest)) :
    ∃ h tail, RawHeader buf h ∧ bs = buf ++ tail ∧ rest = tail.drop (h.body.inlineSize p2p) := by
  obtain ⟨size, bs', hsize, hread⟩ := run_bind_eq_ok hread
  obtain ⟨hlen, rfl, rfl⟩ := takeExact_eq_ok hsize
  unfold getMessageWithHeaderSize at hread
  by_cases hfour : (decodeU32 (bs.take 4)).toNat < 4
  · simp only [if_pos hfour] at hread
    cases hread
  simp only [if_neg hfour] at hread
  obtain ⟨headerBuf, bs', hbuf, hread⟩ := run_bind_eq_ok hread
  obtain ⟨hlen', rfl, rfl⟩ := takeExact_eq_ok hbuf
  obtain ⟨h, bs', hheader, hread⟩ := run_bind_eq_ok hread
  obtain ⟨hheader, rfl⟩ := ofResult_eq_ok hheader
  cases hread
  -- the length field and what it declares, put together again
  have hfirst : (bs.take 4).length = 4 := by
    rw [List.length_take, Nat.min_eq_left hlen]
  have hsecond := List.length_take_of_le hlen'
  refine ⟨h, _, ⟨?_, ?_, ?_⟩, ?_, rfl⟩
  · rw [List.length_append]
    omega
  · rw [List.take_left' hfirst, List.length_append]
    omega
  · rw [List.drop_left' hfirst]
    cases hd : MessageHeader.deserialize
        ((bs.drop 4).take ((decodeU32 (bs.take 4)).toNat - 4)) with
    | error e =>
      rw [hd] at hheader
      cases hheader
    | ok m =>
      rw [hd] at hheader
      cases hheader
      rfl
  · rw [List.append_assoc, List.take_append_drop, List.take_append_drop]

theorem getMessageBytes_consumes (p2p : Bool) {m : MessageHeader} (h : m.Fits) :
    Consumes (getMessageBytes p2p) (m.frame p2p) m.frameHeader := by
  intro rest
  rw [MessageHeader.frame, List.append_assoc, h.rawHeader.run p2p,
    List.drop_left' (List.length_replicate ..)]

/-- A message frame is read back, whatever follows it on the stream. -/
theorem getMessage_consumes (p2p : Bool) {m : MessageHeader} (h : m.Fits) :
    Consumes (getMessage p2p) (m.frame p2p) m := by
  apply (getMessageBytes_consumes p2p h).bind_last
  apply propagate_consumes
  rw [m.drop_frameHeader, MessageHeader.deserialize_headerTail h]

/-- A header that is cut short is not read. -/
theorem getMessageBytes_of_short (p2p : Bool) {m : MessageHeader} (h : m.Fits) {n : ℕ}
    (hn : n < m.headerLen) : (getMessageBytes p2p).run (m.frameHeader.take n) = .error eof := by
  have hlen : (m.frameHeader.take n).length = n := by
    rw [List.length_take, MessageHeader.length_frameHeader]
    exact Nat.min_eq_left (Nat.le_of_lt hn)
  by_cases hfour : n < 4
  · -- the cut is inside the length field
    have herr : (takeExact eof 4).run (m.frameHeader.take n) = .error eof := by
      simp only [takeExact, StateT.run, hlen, if_neg (Nat.not_le_of_lt hfour)]
    rw [getMessageBytes, run_bind, herr]
    rfl
  · -- the length field is there, the rest of the header is not
    have htake : m.frameHeader.take n =
        encodeU32 (UInt32.ofNat m.headerLen) ++ m.headerTail.take (n - 4) := by
      rw [MessageHeader.frameHeader, List.take_append, length_encodeU32,
        List.take_of_length_le (by rw [length_encodeU32]; omega)]
    have herr : (takeExact eof (m.headerLen - 4)).run (m.headerTail.take (n - 4)) =
        .error eof := by
      have : ¬ m.headerLen - 4 ≤ min (n - 4) (m.headerLen - 4) := by omega
      simp only [takeExact, StateT.run, List.length_take, MessageHeader.length_headerTail,
        if_neg this]
    rw [htake, getMessageBytes, (takeExact_consumes_word _).run_bind]
    simp only [getMessageWithHeaderSize, decodeU32_encodeU32, h.toNat_headerLen,
      if_neg (by omega : ¬ m.headerLen < 4)]
    rw [run_bind, herr]
    rfl

theorem getMessage_of_short (p2p : Bool) {m : MessageHeader} (h : m.Fits) {n : ℕ}
    (hn : n < m.headerLen) : (getMessage p2p).run (m.frameHeader.take n) = .error eof := by
  rw [getMessage, run_bind, getMessageBytes_of_short p2p h hn]
  rfl

theorem shrinks_getMessage (p2p : Bool) : Shrinks (getMessage p2p) := by
  -- the length field alone is four bytes, and nothing after it gives bytes back
  have hbytes : Shrinks (getMessageBytes p2p) := by
    refine (shrinks_takeExact eof (by decide)).bind fun size => ?_
    unfold getMessageWithHeaderSize
    simp only
    split
    · exact within_fail _
    · refine (within_takeExact _ _).bind fun buf => (within_ofResult _).bind fun header => ?_
      exact (within_discard _).bind fun _ => within_pure _
  exact hbytes.bind fun buf => within_ofResult _

/-- The loop of a reading task: get messages until the stream fails. -/
def readMessages (p2p : Bool) : Bytes → List MessageHeader :=
  toEnd (getMessage p2p) (shrinks_getMessage p2p)

@[simp] theorem readMessages_nil (p2p : Bool) : readMessages p2p [] = [] :=
  toEnd_of_error (e := eof) (by rfl)

/-- Messages that have come through whole are read, whatever follows them. -/
theorem readMessages_append (p2p : Bool) {ms : List MessageHeader} (h : ∀ m ∈ ms, m.Fits)
    (rest : Bytes) : readMessages p2p ((ms.map (·.frame p2p)).flatten ++ rest) =
      ms ++ readMessages p2p rest := by
  refine toEnd_append ?_ rest
  rw [List.forall₂_map_left_iff, List.forall₂_same]
  exact fun m hm => getMessage_consumes p2p (h m hm)

@[simp] theorem MessageHeader.length_frame (m : MessageHeader) (p2p : Bool) :
    (m.frame p2p).length = m.headerLen + m.body.inlineSize p2p := by
  rw [frame, List.length_append, List.length_replicate, length_frameHeader]

/-- A frame that is cut inside its header. -/
theorem MessageHeader.take_frame_of_lt {m : MessageHeader} {p2p : Bool} {n : ℕ}
    (hn : n < m.headerLen) : (m.frame p2p).take n = m.frameHeader.take n := by
  rw [frame, List.take_append_of_le_length]
  rw [length_frameHeader]
  exact Nat.le_of_lt hn

/-- A frame that is cut at the end of its header or inside its body reads like a whole one,
but for the bytes that are not there. -/
theorem getMessageBytes_take_frame (p2p : Bool) {m : MessageHeader} (h : m.Fits) {n : ℕ}
    (hle : m.headerLen ≤ n) (hn : n < (m.frame p2p).length) :
    (getMessageBytes p2p).run ((m.frame p2p).take n) = .ok (m.frameHeader, []) := by
  rw [MessageHeader.length_frame] at hn
  have htake : (m.frame p2p).take n = m.frameHeader ++ List.replicate (n - m.headerLen) 0 := by
    rw [MessageHeader.frame, List.take_append, MessageHeader.length_frameHeader,
      List.take_of_length_le (by rw [MessageHeader.length_frameHeader]; exact hle),
      List.take_replicate, Nat.min_eq_left (by omega)]
  rw [htake, h.rawHeader.run p2p, List.drop_eq_nil_of_le (by rw [List.length_replicate]; omega)]

theorem getMessage_take_frame (p2p : Bool) {m : MessageHeader} (h : m.Fits) {n : ℕ}
    (hle : m.headerLen ≤ n) (hn : n < (m.frame p2p).length) :
    (getMessage p2p).run ((m.frame p2p).take n) = .ok (m, []) := by
  rw [getMessage, run_bind, getMessageBytes_take_frame p2p h hle hn]
  exact propagate_consumes h.rawHeader.deserialize []

/-- A message of which a part has come through is read if that part includes its header. -/
theorem readMessages_take (p2p : Bool) {m : MessageHeader} (h : m.Fits) {n : ℕ}
    (hn : n < (m.frame p2p).length) :
    readMessages p2p ((m.frame p2p).take n) = if m.headerLen ≤ n then [m] else [] := by
  by_cases hle : m.headerLen ≤ n
  · have hread := getMessage_take_frame p2p h hle hn
    rw [if_pos hle, readMessages, toEnd_of_ok hread]
    exact congrArg _ (readMessages_nil p2p)
  · have hshort := getMessage_of_short p2p h (Nat.lt_of_not_le hle)
    rw [if_neg hle, MessageHeader.take_frame_of_lt (Nat.lt_of_not_le hle), readMessages,
      toEnd_of_error hshort]

/-! ### Writing -/

/-- What a writer answers to one call: how many bytes it took, or an error. -/
inductive WriteAnswer
  | written (n : ℕ)
  | failed (kind : ErrorKind)
  deriving DecidableEq, Repr

/-- The bytes a writer has accepted, and what the writing function returned; `none` while
it still waits for an answer. -/
structure WriteOutcome where
  accepted : Bytes
  result : Option (Except Failure Unit)

/-- The outcome after bytes that were accepted earlier. -/
def WriteOutcome.after (bs : Bytes) (o : WriteOutcome) : WriteOutcome :=
  { o with accepted := bs ++ o.accepted }

/-- `AsyncWriteExt::write_all`. -/
def writeAll : Bytes → List WriteAnswer → WriteOutcome
  | [], _ => ⟨[], some (.ok ())⟩
  | _ :: _, [] => ⟨[], none⟩
  | _ :: _, .failed k :: _ => ⟨[], some (.error (.error (.io k)))⟩
  | b :: buf, .written n :: as =>
    if (b :: buf).length < n then ⟨[], some (.error .panic)⟩
    else if n = 0 then ⟨[], some (.error (.error (.io .writeZero)))⟩
    else (writeAll ((b :: buf).drop n) as).after ((b :: buf).take n)

/-- The loop of `write_all_to` over the header and body that are left. -/
def writeAllLoop (header body : Bytes) : List WriteAnswer → WriteOutcome
  | [] => ⟨[], none⟩
  | .written n :: as =>
    if n = header.length + body.length then ⟨header ++ body, some (.ok ())⟩
    else if header.length ≤ n then
      -- the slice `body[written - header.len()..]` panics past the end
      if header.length + body.length < n then ⟨[], some (.error .panic)⟩
      else (writeAll (body.drop (n - header.length)) as).after
        (header ++ body.take (n - header.length))
    else if n = 0 then ⟨[], some (.error (.error (.io .writeZero)))⟩
    else (writeAllLoop (header.drop n) body as).after (header.take n)
  | .failed .interrupted :: as => writeAllLoop header body as
  | .failed k :: _ => ⟨[], some (.error (.error (.io k)))⟩

/-- Write header and inline body to a writer that makes the given answers. -/
def SerializedMessage.writeAllTo (m : SerializedMessage) (p2p : Bool)
    (answers : List WriteAnswer) : WriteOutcome :=
  writeAllLoop m.header (List.replicate (m.body.inlineSize p2p) 0) answers

theorem isPrefix_writeAll (buf : Bytes) (as : List WriteAnswer) :
    (writeAll buf as).accepted <+: buf ∧
      ((writeAll buf as).result = some (.ok ()) → (writeAll buf as).accepted = buf) := by
  fun_induction writeAll buf as with
  | case1 => exact ⟨List.prefix_refl _, fun _ => rfl⟩
  | case2 | case3 | case4 | case5 => exact ⟨List.nil_prefix, fun h => by simp at h⟩
  | case6 b buf n as _ _ ih =>
    have hsplit := List.take_append_drop n (b :: buf)
    refine ⟨?_, fun h => ?_⟩
    · conv_rhs => rw [← hsplit]
      exact (List.prefix_append_right_inj _).mpr ih.1
    · rw [WriteOutcome.after, ih.2 h, hsplit]

theorem isPrefix_writeAllLoop (header body : Bytes) (as : List WriteAnswer) :
    (writeAllLoop header body as).accepted <+: header ++ body ∧
      ((writeAllLoop header body as).result = some (.ok ()) →
        (writeAllLoop header body as).accepted = header ++ body) := by
  fun_induction writeAllLoop header body as with
  | case1 | case3 | case5 | case8 => exact ⟨List.nil_prefix, fun h => by simp at h⟩
  | case2 => exact ⟨List.prefix_refl _, fun _ => rfl⟩
  | case4 header n as _ _ _ =>
    -- the cut is at the end of the header or inside the body
    have hsplit := List.take_append_drop (n - header.length) body
    obtain ⟨hpre, hok⟩ := isPrefix_writeAll (body.drop (n - header.length)) as
    have hall : header ++ body =
        (header ++ body.take (n - header.length)) ++ body.drop (n - header.length) := by
      rw [List.append_assoc, hsplit]
    rw [hall]
    refine ⟨(List.prefix_append_right_inj _).mpr hpre, fun h => ?_⟩
    rw [WriteOutcome.after, hok h]
  | case6 header n as _ _ _ ih =>
    have hall : header ++ body = header.take n ++ (header.drop n ++ body) := by
      rw [← List.append_assoc, List.take_append_drop]
    rw [hall]
    refine ⟨(List.prefix_append_right_inj _).mpr ih.1, fun h => ?_⟩
    rw [WriteOutcome.after, ih.2 h]
  | case7 header as ih => exact ih

namespace SerializedMessage

variable (m : SerializedMessage) (p2p : Bool) (as : List WriteAnswer)

theorem isPrefix_accepted : (m.writeAllTo p2p as).accepted <+: m.frame p2p :=
  (isPrefix_writeAllLoop _ _ as).1

theorem accepted_of_ok (h : (m.writeAllTo p2p as).result = some (.ok ())) :
    (m.writeAllTo p2p as).accepted = m.frame p2p :=
  (isPrefix_writeAllLoop _ _ as).2 h

end SerializedMessage

end SignalSim.Mgen
