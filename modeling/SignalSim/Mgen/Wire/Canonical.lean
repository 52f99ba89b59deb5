import SignalSim.Mgen.Wire.Checked

/-!
# Which buffers are headers

The two decoders of headers take a buffer exactly if an encoded header is at its start, and
then return that header. What they return otherwise depends on what is in the buffer instead:
a string that is not UTF-8, or too few bytes.

## Main definitions

* `MessageHeader.EncodedIn` — the encoding of the header, less its length field, is at the start
* `NotUtf8`, `Complete` — what can be wrong with a buffer

## Main results

* `MessageHeader.deserialize_cases` — what the decoder of headers finds
* `deserializeHeader_canonical` — what the decoders of headers find
-/

namespace SignalSim.Mgen

open SignalSim.Result

/-- The encoding of the header, without its length field, is at the start of the buffer. -/
def MessageHeader.EncodedIn (m : MessageHeader) (buf : Bytes) : Prop :=
  ∃ x, m.serialize = some x ∧ x.header.drop 4 <+: buf

/-- The buffer starts with a string of the given bytes, and goes on with the rest. -/
def StrThen (strbytes rest buf : Bytes) : Prop :=
  ∃ strlen : UInt32, strlen.toNat = strbytes.length ∧ buf = encodeU32 strlen ++ (strbytes ++ rest)

/-- The bytes of the sender or of the group are there, but they are not UTF-8. -/
def NotUtf8 (buf : Bytes) : Prop :=
  ∃ sender rest, StrThen sender rest buf ∧ (fromUtf8 sender = none ∨
    ∃ group rest', StrThen group rest' rest ∧ fromUtf8 group = none)

/-- The bytes of both strings and of the two words are there. -/
def Complete (buf : Bytes) : Prop :=
  ∃ sender rest group rest', StrThen sender rest buf ∧ StrThen group rest' rest ∧ 8 ≤ rest'.length

/-! ### Words and strings -/

section

variable {buf rest strbytes : Bytes} {s : String} {n : UInt32}

theorem fromUtf8_eq_some : fromUtf8 strbytes = some s ↔ strbytes = asBytes s := by
  constructor
  · intro h
    unfold fromUtf8 String.fromUTF8? at h
    split at h
    · obtain rfl := Option.some_inj.mp h
      rfl
    · cases h
  · rintro rfl
    exact fromUtf8_asBytes s

/-- What is in a string is known from its bytes. -/
theorem deserializeStr_of_strThen (h : StrThen strbytes rest buf) :
    deserializeStr buf = (fromUtf8 strbytes).elim (.error .utf8Error) fun s => .ok (s, rest) := by
  obtain ⟨strlen, hlen, rfl⟩ := h
  have htake : (strbytes ++ rest).take strlen.toNat = strbytes := List.take_left' hlen.symm
  have hdrop : (strbytes ++ rest).drop strlen.toNat = rest := List.drop_left' hlen.symm
  have hle : strlen.toNat ≤ (strbytes ++ rest).length := by
    rw [List.length_append]
    omega
  rw [deserializeStr, deserializeU32_encodeU32]
  simp only [bind, Except.bind, if_pos hle, htake, hdrop]
  cases fromUtf8 strbytes <;> rfl

/-- Without a string the buffer is too short. -/
theorem deserializeStr_of_not_strThen (h : ∀ strbytes rest, ¬ StrThen strbytes rest buf) :
    ∃ left, deserializeStr buf = .error (.malformedSerialization left) := by
  unfold deserializeStr deserializeU32
  by_cases hfour : 4 ≤ buf.length
  · rw [if_pos hfour]
    -- a length that is not exceeded by what follows would make a string
    have hshort : ¬ (decodeU32 (buf.take 4)).toNat ≤ (buf.drop 4).length := by
      intro hle
      apply h ((buf.drop 4).take (decodeU32 (buf.take 4)).toNat)
        ((buf.drop 4).drop (decodeU32 (buf.take 4)).toNat)
      refine ⟨decodeU32 (buf.take 4), ?_, ?_⟩
      · rw [List.length_take, Nat.min_eq_left hle]
      · rw [encodeU32_decodeU32 (by rw [List.length_take]; omega), List.take_append_drop,
          List.take_append_drop]
    exact ⟨buf.drop 4, if_neg hshort⟩
  · exact ⟨buf, by rw [if_neg hfour]; rfl⟩

theorem StrThen.length_eq (h : StrThen strbytes rest buf) :
    buf.length = 4 + (strbytes.length + rest.length) := by
  obtain ⟨strlen, -, rfl⟩ := h
  rw [List.length_append, length_encodeU32, List.length_append]

/-- A buffer with a string at its start is the encoding of it. -/
theorem strThen_asBytes : StrThen (asBytes s) rest buf ↔
    (asBytes s).length < UInt32.size ∧ buf = serializeStr s ++ rest := by
  have hstr : serializeStr s ++ rest =
      encodeU32 (UInt32.ofNat (asBytes s).length) ++ (asBytes s ++ rest) := by
    simp [serializeStr, serializeStrTo]
  rw [hstr]
  constructor
  · rintro ⟨strlen, hlen, rfl⟩
    refine ⟨hlen ▸ strlen.toNat_lt, ?_⟩
    rw [← hlen, UInt32.ofNat_toNat]
  · rintro ⟨hlt, rfl⟩
    exact ⟨_, toNat_ofNat_length hlt, rfl⟩

theorem deserializeU32_of_le (h : 4 ≤ buf.length) :
    deserializeU32 buf = .ok (decodeU32 (buf.take 4), buf.drop 4) := if_pos h

theorem deserializeU32_of_lt (h : buf.length < 4) :
    deserializeU32 buf = .error (.malformedSerialization buf) := if_neg (Nat.not_le_of_lt h)

end

/-! ### Headers -/

namespace MessageHeader

variable {m m' : MessageHeader} {buf : Bytes}

theorem deserialize_of_notUtf8 (h : NotUtf8 buf) : deserialize buf = .error .utf8Error := by
  obtain ⟨sender, rest, hsender, hbad⟩ := h
  rw [deserialize, deserializeStr_of_strThen hsender]
  cases hs : fromUtf8 sender with
  | none => rfl
  | some s =>
    -- the sender is good, so it is the group that is not
    obtain ⟨group, rest', hgroup, hg⟩ := hbad.resolve_left (by simp [hs])
    simp only [Option.elim_some, bind, Except.bind, deserializeStr_of_strThen hgroup, hg,
      Option.elim_none]

theorem deserialize_of_not_complete (hutf8 : ¬ NotUtf8 buf) (h : ¬ Complete buf) :
    ∃ left, deserialize buf = .error (.malformedSerialization left) := by
  by_cases hsender : ∃ sender rest, StrThen sender rest buf
  · obtain ⟨sender, rest, hsender⟩ := hsender
    have hs : fromUtf8 sender ≠ none := fun hs => hutf8 ⟨sender, rest, hsender, .inl hs⟩
    obtain ⟨s, hs⟩ := Option.ne_none_iff_exists'.mp hs
    simp only [deserialize, deserializeStr_of_strThen hsender, hs, Option.elim_some, bind,
      Except.bind]
    by_cases hgroup : ∃ group rest', StrThen group rest' rest
    · obtain ⟨group, rest', hgroup⟩ := hgroup
      have hg : fromUtf8 group ≠ none :=
        fun hg => hutf8 ⟨sender, rest, hsender, .inr ⟨group, rest', hgroup, hg⟩⟩
      obtain ⟨g, hg⟩ := Option.ne_none_iff_exists'.mp hg
      simp only [deserializeStr_of_strThen hgroup, hg, Option.elim_some]
      -- both strings are there, so a word is missing
      have hshort : rest'.length < 8 := by
        by_contra hlen
        exact h ⟨sender, rest, group, rest', hsender, hgroup, Nat.not_lt.mp hlen⟩
      by_cases hid : 4 ≤ rest'.length
      · have hbody : (rest'.drop 4).length < 4 := by
          rw [List.length_drop]
          omega
        exact ⟨rest'.drop 4, by simp only [deserializeU32_of_le hid, deserializeU32_of_lt hbody]⟩
      · exact ⟨rest', by simp only [deserializeU32_of_lt (Nat.not_le.mp hid)]⟩
    · obtain ⟨left, hleft⟩ :=
        deserializeStr_of_not_strThen fun group rest' hg => hgroup ⟨group, rest', hg⟩
      exact ⟨left, by simp only [hleft]⟩
  · obtain ⟨left, hleft⟩ :=
      deserializeStr_of_not_strThen fun sender rest hs => hsender ⟨sender, rest, hs⟩
    exact ⟨left, by rw [deserialize, hleft]; rfl⟩

/-- What is decoded from a buffer is encoded at its start. -/
theorem deserialize_of_complete (hutf8 : ¬ NotUtf8 buf) (h : Complete buf) :
    ∃ m, deserialize buf = .ok m ∧ m.headerTail <+: buf := by
  obtain ⟨sender, rest, group, rest', hsender, hgroup, hlen⟩ := h
  have hs : fromUtf8 sender ≠ none := fun hs => hutf8 ⟨sender, rest, hsender, .inl hs⟩
  have hg : fromUtf8 group ≠ none :=
    fun hg => hutf8 ⟨sender, rest, hsender, .inr ⟨group, rest', hgroup, hg⟩⟩
  obtain ⟨s, hs⟩ := Option.ne_none_iff_exists'.mp hs
  obtain ⟨g, hg⟩ := Option.ne_none_iff_exists'.mp hg
  have hid : 4 ≤ rest'.length := by omega
  have hbody : 4 ≤ (rest'.drop 4).length := by
    rw [List.length_drop]
    omega
  refine ⟨⟨s, g, decodeU32 (rest'.take 4), .ofBodyType (decodeU32 ((rest'.drop 4).take 4))⟩, ?_, ?_⟩
  · simp only [deserialize, deserializeStr_of_strThen hsender, hs, Option.elim_some, bind,
      Except.bind, deserializeStr_of_strThen hgroup, hg, deserializeU32_of_le hid,
      deserializeU32_of_le hbody]
  · obtain rfl := fromUtf8_eq_some.mp hs
    obtain rfl := fromUtf8_eq_some.mp hg
    obtain ⟨-, rfl⟩ := strThen_asBytes.mp hsender
    obtain ⟨-, rfl⟩ := strThen_asBytes.mp hgroup
    refine ⟨(rest'.drop 4).drop 4, ?_⟩
    have htwo : rest'.take 4 ++ ((rest'.drop 4).take 4 ++ (rest'.drop 4).drop 4) = rest' := by
      rw [List.take_append_drop, List.take_append_drop]
    simp only [headerTail, MessageBody.bodyType_ofBodyType,
      encodeU32_decodeU32 (List.length_take_of_le hid),
      encodeU32_decodeU32 (List.length_take_of_le hbody), List.append_assoc, htwo]

/-- A header whose encoding is in the buffer is what is decoded from it. -/
theorem EncodedIn.deserialize_eq (h : m.EncodedIn buf) : deserialize buf = .ok m := by
  obtain ⟨x, hx, rest, rfl⟩ := h
  have hfit := fits_of_serialize hx
  rw [serialize_eq hfit, Option.some_inj] at hx
  rw [← hx, drop_frameHeader]
  exact deserialize_headerTail_append hfit rest

/-- In a buffer that is not too long, a header's bytes are those of its serialization. -/
theorem encodedIn_of_isPrefix (hlen : buf.length < UInt32.size - 4) (h : m.headerTail <+: buf) :
    m.EncodedIn buf := by
  have hfit : m.Fits := by
    have hle := h.length_le
    rw [length_headerTail] at hle
    unfold Fits
    omega
  exact ⟨_, serialize_eq hfit, (drop_frameHeader m).symm ▸ h⟩

variable (buf) in
/-- What the decoder finds in a buffer. -/
theorem deserialize_cases :
    (NotUtf8 buf ∧ deserialize buf = .error .utf8Error) ∨
    (¬ NotUtf8 buf ∧ ¬ Complete buf ∧
      ∃ left, deserialize buf = .error (.malformedSerialization left)) ∨
    (¬ NotUtf8 buf ∧ Complete buf ∧ ∃ m, deserialize buf = .ok m ∧ m.headerTail <+: buf) := by
  by_cases hutf8 : NotUtf8 buf
  · exact .inl ⟨hutf8, deserialize_of_notUtf8 hutf8⟩
  · by_cases hc : Complete buf
    · exact .inr (.inr ⟨hutf8, hc, deserialize_of_complete hutf8 hc⟩)
    · exact .inr (.inl ⟨hutf8, hc, deserialize_of_not_complete hutf8 hc⟩)

theorem deserialize_eq_ok (hlen : buf.length < UInt32.size - 4) :
    deserialize buf = .ok m ↔ m.EncodedIn buf := by
  refine ⟨?_, EncodedIn.deserialize_eq⟩
  intro h
  rcases deserialize_cases buf with ⟨-, hd⟩ | ⟨-, -, left, hd⟩ | ⟨-, -, m', hd, hprefix⟩
  · cases hd.symm.trans h
  · cases hd.symm.trans h
  · obtain rfl := Except.ok.inj (hd.symm.trans h)
    exact encodedIn_of_isPrefix hlen hprefix

theorem deserialize_eq_utf8Error : deserialize buf = .error .utf8Error ↔ NotUtf8 buf := by
  refine ⟨?_, deserialize_of_notUtf8⟩
  intro h
  rcases deserialize_cases buf with ⟨hutf8, -⟩ | ⟨-, -, left, hd⟩ | ⟨-, -, m, hd, -⟩
  · exact hutf8
  · cases hd.symm.trans h
  · cases hd.symm.trans h

theorem deserialize_eq_malformed :
    (∃ left, deserialize buf = .error (.malformedSerialization left)) ↔
      ¬ NotUtf8 buf ∧ ¬ Complete buf := by
  refine ⟨?_, fun h => deserialize_of_not_complete h.1 h.2⟩
  rintro ⟨left, h⟩
  rcases deserialize_cases buf with ⟨-, hd⟩ | ⟨hutf8, hc, -⟩ | ⟨-, -, m, hd, -⟩
  · cases hd.symm.trans h
  · exact ⟨hutf8, hc⟩
  · cases hd.symm.trans h

/-- There is no other error. -/
theorem deserialize_error {e : Error} (h : deserialize buf = .error e) :
    e = .utf8Error ∨ ∃ left, e = .malformedSerialization left := by
  rcases deserialize_cases buf with ⟨-, hd⟩ | ⟨-, -, left, hd⟩ | ⟨-, -, m, hd, -⟩
  · exact .inl (Except.error.inj (h.symm.trans hd))
  · exact .inr ⟨left, Except.error.inj (h.symm.trans hd)⟩
  · cases hd.symm.trans h

end MessageHeader

namespace Checked

/-- **Canonical encodings.** On a buffer that is not too long, the decoders accept what starts
with the encoding of a header, and return this header, the only one that it is the encoding of.
They refuse all else: a string that is not UTF-8, or a buffer that ends too soon. -/
theorem deserializeHeader_canonical (buf : Bytes) (hlen : buf.length < UInt32.size - 4) :
    (∀ m, deserializeHeader buf = .ok m ↔ m.EncodedIn buf) ∧
    (∀ m m' : MessageHeader, m.EncodedIn buf → m'.EncodedIn buf → m = m') ∧
    (∀ r, deserializeHeaderRef buf = .ok r ↔ deserializeHeader buf = .ok r.toOwned) ∧
    (∀ f, deserializeHeaderRef buf = .error f ↔ deserializeHeader buf = .error f) ∧
    (deserializeHeader buf = .error (.error .utf8Error) ↔ NotUtf8 buf) ∧
    ((∃ left, deserializeHeader buf = .error (.error (.malformedSerialization left))) ↔
      ¬ NotUtf8 buf ∧ ¬ Complete buf) ∧
    ∀ f, deserializeHeader buf = .error f → f = .error .utf8Error ∨
      ∃ left, f = .error (.malformedSerialization left) := by
  have href : MessageHeader.deserialize buf =
      (MessageHeaderRef.deserialize buf).map MessageHeaderRef.toOwned :=
    (MessageHeaderRef.map_toOwned_deserialize buf).symm
  refine ⟨?_, ?_, ?_, ?_, ?_, ?_, ?_⟩
  · intro m
    rw [deserializeHeader_eq, mapError_eq_ok, MessageHeader.deserialize_eq_ok hlen]
  · intro m m' hm hm'
    exact Except.ok.inj (hm.deserialize_eq.symm.trans hm'.deserialize_eq)
  · intro r
    rw [deserializeHeader_eq, deserializeHeaderRef_eq, mapError_eq_ok, mapError_eq_ok, href]
    cases MessageHeaderRef.deserialize buf with
    | error e => simp [Except.map]
    | ok r' =>
      cases r
      cases r'
      simp [Except.map, MessageHeaderRef.toOwned]
  · intro f
    rw [deserializeHeader_eq, deserializeHeaderRef_eq, mapError_eq_error, mapError_eq_error, href]
    cases MessageHeaderRef.deserialize buf <;> simp [Except.map]
  · rw [deserializeHeader_eq, mapError_eq_error, ← MessageHeader.deserialize_eq_utf8Error]
    simp
  · rw [← MessageHeader.deserialize_eq_malformed]
    simp [deserializeHeader_eq, mapError_eq_error]
  · intro f hf
    rw [deserializeHeader_eq, mapError_eq_error] at hf
    obtain ⟨e, he, rfl⟩ := hf
    simpa using MessageHeader.deserialize_error he

/-- The encoding of a receipt, with one more byte behind it. -/
def receiptBytes : Bytes := [0, 0, 0, 1, 65, 0, 0, 0, 1, 103, 0, 0, 0, 9, 0, 0, 0, 0, 7]

theorem deserializeHeader_canonical_receipt :
    (⟨"A", "g", 9, .receipt⟩ : MessageHeader).EncodedIn receiptBytes ∧
      NotUtf8 [0, 0, 0, 1, 255] ∧ ¬ Complete [0, 0, 0, 1] := by
  refine ⟨?_, ?_, ?_⟩
  · exact ((deserializeHeader_canonical receiptBytes (by decide)).1 _).mp (by decide +kernel)
  · obtain ⟨-, -, -, -, hutf8, -⟩ := deserializeHeader_canonical [0, 0, 0, 1, 255] (by decide)
    exact hutf8.mp (by decide +kernel)
  · obtain ⟨-, -, -, -, -, hmalformed, -⟩ := deserializeHeader_canonical [0, 0, 0, 1] (by decide)
    exact (hmalformed.mp ⟨[], by decide +kernel⟩).2

end Checked

end SignalSim.Mgen
