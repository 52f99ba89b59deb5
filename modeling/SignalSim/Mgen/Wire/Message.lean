import SignalSim.Foundations.ByteStream

/-!
# Messages and their header encoding

The message metadata that clients, peers and the server exchange, and the functions of
`lib.rs` that turn a header into bytes and back. Bodies are runs of zero bytes and are
represented by their size only.

## Main definitions

* `MessageBody`, `MessageHeader`, `MessageHeaderRef`, `SerializedMessage`, `Handshake`
* `MessageHeader.serialize`, `MessageHeader.deserialize`
* `MessageHeader.Fits` — the header length is representable in its length field

## Main results

* `MessageHeader.serialize_eq` — a header that fits serializes to `frameHeader`
* `MessageHeader.deserialize_headerTail` — decoding the bytes after the length field gives
  the header back
-/

namespace SignalSim.Mgen

/-- Kinds of I/O error that the code tells apart. -/
inductive ErrorKind
  | unexpectedEof
  | interrupted
  | writeZero
  | other (code : ℕ)
  deriving DecidableEq, Repr

/-- Errors of the wire library. -/
inductive Error
  | io (kind : ErrorKind)
  | utf8Error
  | malformedSerialization (buf : Bytes)
  deriving DecidableEq, Repr

/-- How a call can fail to return a value: with an error, or by panicking. -/
inductive Failure
  | error (e : Error)
  | panic
  deriving DecidableEq, Repr

/-- `std::num::NonZeroU32`. -/
abbrev NonZeroU32 := {n : UInt32 // n ≠ 0}

/-- The padding interval in bytes. -/
def paddingBlockSize : UInt32 := 10 * 128 / 8

/-- The maximum number of bytes that are sent inline. -/
def inlineMaxSize : UInt32 := 14 * paddingBlockSize

/-- The maximum number of padding blocks in a body. -/
def maxBlocksInBody : UInt32 := (100 * 1024 * 1024) / paddingBlockSize

theorem one_le_maxBlocksInBody : 1 ≤ maxBlocksInBody := by decide

/-- Metadata for the body of the message. -/
inductive MessageBody
  | receipt
  | size (size : NonZeroU32)
  deriving DecidableEq, Repr

namespace MessageBody

/-- Whether the body of the message requires an HTTP GET. -/
def hasAttachment : MessageBody → Bool
  | receipt => false
  | size s => s.1 > inlineMaxSize

/-- Size on the wire of the message's body, excluding bytes fetched via http. -/
def inlineSize (p2p : Bool) : MessageBody → ℕ
  | receipt => paddingBlockSize.toNat
  | size s => if p2p || s.1 ≤ inlineMaxSize then s.1.toNat else inlineMaxSize.toNat

/-- Size of the message's body, including bytes fetched via http. -/
def totalSize : MessageBody → ℕ
  | receipt => paddingBlockSize.toNat
  | size s => s.1.toNat

/-- The number that stands for the body in a header. -/
def bodyType : MessageBody → UInt32
  | receipt => 0
  | size s => s.1

/-- The body that a number in a header stands for. -/
def ofBodyType (n : UInt32) : MessageBody :=
  if h : n = 0 then receipt else size ⟨n, h⟩

@[simp] theorem ofBodyType_bodyType (b : MessageBody) : ofBodyType b.bodyType = b := by
  cases b with
  | receipt => rfl
  | size s => simp [ofBodyType, bodyType, s.2]

@[simp] theorem bodyType_ofBodyType (n : UInt32) : (ofBodyType n).bodyType = n := by
  unfold ofBodyType
  split
  case isTrue h => exact h.symm
  case isFalse => rfl

end MessageBody

/-- Message metadata. In client-server mode receipts, `group` is the recipient. -/
structure MessageHeader where
  sender : String
  group : String
  id : UInt32
  body : MessageBody
  deriving DecidableEq, Repr

/-- A message almost ready for sending: its header bytes and its body. -/
structure SerializedMessage where
  header : Bytes
  body : MessageBody
  deriving DecidableEq, Repr

/-- Handshake between client and server. -/
@[ext]
structure Handshake where
  sender : String
  group : String
  deriving DecidableEq, Repr

/-! ### Strings -/

/-- The UTF-8 bytes of a string. -/
def asBytes (s : String) : Bytes := s.toUTF8.data.toList

/-- The string that the bytes are the UTF-8 encoding of, if there is one. -/
def fromUtf8 (bs : Bytes) : Option String := String.fromUTF8? ⟨bs.toArray⟩

@[simp] theorem fromUtf8_asBytes (s : String) : fromUtf8 (asBytes s) = some s := by
  have h : (⟨(asBytes s).toArray⟩ : ByteArray) = s.toByteArray := rfl
  rw [fromUtf8, h, String.fromUTF8?, dif_pos s.isValidUTF8]
  rfl

/-- Append a length-prefixed string to a buffer. -/
def serializeStrTo (s : String) (buf : Bytes) : Bytes :=
  buf ++ encodeU32 (UInt32.ofNat (asBytes s).length) ++ asBytes s

/-- A length-prefixed string. -/
def serializeStr (s : String) : Bytes := serializeStrTo s []

theorem serializeStrTo_eq (s : String) (buf : Bytes) :
    serializeStrTo s buf = buf ++ serializeStr s := by
  simp [serializeStr, serializeStrTo]

@[simp] theorem length_serializeStr (s : String) :
    (serializeStr s).length = 4 + (asBytes s).length := by
  simp [serializeStr, serializeStrTo]

/-- Split a word off a buffer. -/
def deserializeU32 (buf : Bytes) : Except Error (UInt32 × Bytes) :=
  if 4 ≤ buf.length then .ok (decodeU32 (buf.take 4), buf.drop 4)
  else .error (.malformedSerialization buf)

/-- Split a length-prefixed string off a buffer. -/
def deserializeStr (buf : Bytes) : Except Error (String × Bytes) := do
  let (strlen, buf) ← deserializeU32 buf
  if strlen.toNat ≤ buf.length then
    match fromUtf8 (buf.take strlen.toNat) with
    | some s => .ok (s, buf.drop strlen.toNat)
    | none => .error .utf8Error
  else .error (.malformedSerialization buf)

@[simp] theorem deserializeU32_encodeU32 (n : UInt32) (buf : Bytes) :
    deserializeU32 (encodeU32 n ++ buf) = .ok (n, buf) := by
  have htake : (encodeU32 n ++ buf).take 4 = encodeU32 n :=
    List.take_left' (length_encodeU32 n)
  have hdrop : (encodeU32 n ++ buf).drop 4 = buf := List.drop_left' (length_encodeU32 n)
  simp [deserializeU32, htake, hdrop]

theorem toNat_ofNat_length {s : String} (h : (asBytes s).length < UInt32.size) :
    (UInt32.ofNat (asBytes s).length).toNat = (asBytes s).length := by
  rw [UInt32.toNat_ofNat']
  exact Nat.mod_eq_of_lt h

theorem deserializeStr_serializeStr {s : String} (h : (asBytes s).length < UInt32.size)
    (buf : Bytes) : deserializeStr (serializeStr s ++ buf) = .ok (s, buf) := by
  have hlen := toNat_ofNat_length h
  have htake : (asBytes s ++ buf).take (asBytes s).length = asBytes s :=
    List.take_left' rfl
  simp only [deserializeStr, serializeStr, serializeStrTo, List.nil_append, List.append_assoc,
    deserializeU32_encodeU32, bind, Except.bind, hlen, List.length_append,
    Nat.le_add_right, if_true, htake, fromUtf8_asBytes, List.drop_left]

/-! ### Headers -/

namespace MessageHeader

/-- The length of the encoded header: five words and the two strings. -/
def headerLen (m : MessageHeader) : ℕ :=
  (1 + 1 + 1 + 1 + 1) * 4 + (asBytes m.sender).length + (asBytes m.group).length

/-- Generate a concise serialization of the message; `none` is a failed assertion. -/
def serialize (m : MessageHeader) : Option SerializedMessage :=
  let headerLen := UInt32.ofNat m.headerLen
  let header := encodeU32 headerLen
  let header := serializeStrTo m.sender header
  let header := serializeStrTo m.group header
  let header := header ++ encodeU32 m.id
  let header := header ++ encodeU32 m.body.bodyType
  if header.length = headerLen.toNat then some ⟨header, m.body⟩ else none

/-- Decode a header whose length field has been parsed out. -/
def deserialize (buf : Bytes) : Except Error MessageHeader := do
  let (sender, buf) ← deserializeStr buf
  let (group, buf) ← deserializeStr buf
  let (id, buf) ← deserializeU32 buf
  let (body, _) ← deserializeU32 buf
  .ok ⟨sender, group, id, .ofBodyType body⟩

/-- The length of the encoded header is representable in its length field. -/
def Fits (m : MessageHeader) : Prop := m.headerLen < UInt32.size

instance (m : MessageHeader) : Decidable m.Fits := inferInstanceAs (Decidable (_ < _))

/-- The encoded header after its length field. -/
def headerTail (m : MessageHeader) : Bytes :=
  serializeStr m.sender ++ (serializeStr m.group ++
    (encodeU32 m.id ++ encodeU32 m.body.bodyType))

/-- The encoded header. -/
def frameHeader (m : MessageHeader) : Bytes :=
  encodeU32 (UInt32.ofNat m.headerLen) ++ m.headerTail

@[simp] theorem length_headerTail (m : MessageHeader) :
    m.headerTail.length = m.headerLen - 4 := by
  simp [headerTail, headerLen]
  omega

@[simp] theorem length_frameHeader (m : MessageHeader) :
    m.frameHeader.length = m.headerLen := by
  simp [frameHeader, headerLen]
  omega

/-- The assertion of `serialize` compares the length of the header with its length field. -/
theorem serialize_def (m : MessageHeader) :
    m.serialize = if m.headerLen = (UInt32.ofNat m.headerLen).toNat then
      some ⟨m.frameHeader, m.body⟩ else none := by
  have hbytes : serializeStrTo m.group (serializeStrTo m.sender
      (encodeU32 (UInt32.ofNat m.headerLen))) ++ encodeU32 m.id ++
        encodeU32 m.body.bodyType = m.frameHeader := by
    simp [serializeStrTo_eq, frameHeader, headerTail]
  simp only [serialize, hbytes, length_frameHeader]

/-- The length field of a header that fits. -/
theorem Fits.toNat_headerLen {m : MessageHeader} (h : m.Fits) :
    (UInt32.ofNat m.headerLen).toNat = m.headerLen := by
  rw [UInt32.toNat_ofNat']
  exact Nat.mod_eq_of_lt h

theorem serialize_eq {m : MessageHeader} (h : m.Fits) :
    m.serialize = some ⟨m.frameHeader, m.body⟩ := by
  rw [serialize_def, h.toNat_headerLen, if_pos rfl]

/-- What follows the length field of an encoded header. -/
theorem drop_frameHeader (m : MessageHeader) : m.frameHeader.drop 4 = m.headerTail :=
  List.drop_left' (length_encodeU32 _)

theorem Fits.sender {m : MessageHeader} (h : m.Fits) : (asBytes m.sender).length < UInt32.size := by
  unfold Fits headerLen at h
  omega

theorem Fits.group {m : MessageHeader} (h : m.Fits) : (asBytes m.group).length < UInt32.size := by
  unfold Fits headerLen at h
  omega

/-- A header is decoded from its encoding, whatever follows it in the buffer. -/
theorem deserialize_headerTail_append {m : MessageHeader} (h : m.Fits) (extra : Bytes) :
    deserialize (m.headerTail ++ extra) = .ok m := by
  simp only [deserialize, headerTail, List.append_assoc, deserializeStr_serializeStr h.sender,
    deserializeStr_serializeStr h.group, deserializeU32_encodeU32, bind, Except.bind,
    MessageBody.ofBodyType_bodyType]

theorem deserialize_headerTail {m : MessageHeader} (h : m.Fits) :
    deserialize m.headerTail = .ok m := by
  simpa using deserialize_headerTail_append h []

/-- Only a header that fits passes the assertion. -/
theorem fits_of_serialize {m : MessageHeader} {x : SerializedMessage}
    (h : m.serialize = some x) : m.Fits := by
  rw [serialize_def, Option.ite_none_right_eq_some] at h
  have hlt := (UInt32.ofNat m.headerLen).toNat_lt
  rwa [← h.1] at hlt

end MessageHeader

/-- Message metadata whose strings are borrowed from the buffer it was decoded from. -/
structure MessageHeaderRef where
  sender : String
  group : String
  id : UInt32
  body : MessageBody
  deriving DecidableEq, Repr

namespace MessageHeaderRef

/-- Decode a header whose length field has been parsed out. -/
def deserialize (buf : Bytes) : Except Error MessageHeaderRef := do
  let (sender, buf) ← deserializeStr buf
  let (group, buf) ← deserializeStr buf
  let (id, buf) ← deserializeU32 buf
  let (body, _) ← deserializeU32 buf
  .ok ⟨sender, group, id, .ofBodyType body⟩

/-- The header with strings of its own. -/
def toOwned (h : MessageHeaderRef) : MessageHeader := ⟨h.sender, h.group, h.id, h.body⟩

/-- The two decoders agree, on accepted and on refused buffers. -/
theorem map_toOwned_deserialize (buf : Bytes) :
    toOwned <$> deserialize buf = MessageHeader.deserialize buf := by
  simp only [deserialize, map_bind]
  rfl

end MessageHeaderRef

/-- The header that is decoded from the bytes after the length field. -/
def SerializedMessage.header? (x : SerializedMessage) : Option MessageHeader :=
  (MessageHeader.deserialize (x.header.drop 4)).toOption

/-- A serialized message carries its header. -/
theorem SerializedMessage.header?_of_serialize {m : MessageHeader} {x : SerializedMessage}
    (h : m.serialize = some x) : x.header? = some m := by
  have hfit := MessageHeader.fits_of_serialize h
  obtain rfl : (⟨m.frameHeader, m.body⟩ : SerializedMessage) = x := by
    rwa [MessageHeader.serialize_eq hfit, Option.some_inj] at h
  rw [header?, MessageHeader.drop_frameHeader, MessageHeader.deserialize_headerTail hfit]
  rfl

/-! ### Handshakes -/

/-- The encoding of a handshake: sender, then group. -/
def serializeHandshake (sender group : String) : Bytes :=
  serializeStrTo group (serializeStrTo sender [])

/-- Generate a serialized handshake message. -/
def Handshake.serialize (h : Handshake) : Bytes := serializeHandshake h.sender h.group

theorem Handshake.serialize_eq (h : Handshake) :
    h.serialize = serializeStr h.sender ++ serializeStr h.group := by
  rw [serialize, serializeHandshake, serializeStrTo_eq, ← serializeStr]

end SignalSim.Mgen
