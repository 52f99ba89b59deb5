import SignalSim.Mgen.Wire.PartialWrites

/-!
# Relaying messages

The server does not serialize what it forwards. It keeps the header bytes as they came, and
makes a new body from the size that it decoded. The client's reader, the server's reader and
the one writer agree on every frame that the server accepts, also on frames whose declared
header size leaves bytes after the last field.

## Main definitions

* `receiveMessage` — what `get_messages` puts on the recipients' channels
* `relay`, `relays` — what goes out for the first message that comes in, once and repeatedly

## Main results

* `RawHeader.consumes_frame` — a relayed frame is read as the header that the server decoded
* `relay_transparent` — a relay changes nothing that a reader can see
-/

namespace SignalSim.Mgen

open SignalSim.Reader

/-- The message that `get_messages` reads off its socket and forwards. -/
def receiveMessage : Reader Failure SerializedMessage := do
  let buf ← getMessageBytes false
  let message ← propagate (MessageHeaderRef.deserialize (buf.drop 4))
  pure ⟨buf, message.body⟩

/-- The bytes that `send_messages` writes for the first message on a stream, to a writer that
makes the given answers; `none` when the read or the write fails. -/
def relay (answers : List WriteAnswer) (stream : Bytes) : Option Bytes :=
  match receiveMessage.run stream with
  | .error _ => none
  | .ok (m, _) =>
    let out := m.writeAllTo false answers
    match out.result with
    | some (.ok ()) => some out.accepted
    | _ => none

/-- A chain of relays, by the answers of their writers. -/
def relays : List (List WriteAnswer) → Bytes → Option Bytes
  | [], stream => some stream
  | answers :: chain, stream => (relay answers stream).bind (relays chain)

namespace RawHeader

variable {buf rest stream out : Bytes} {h : MessageHeader} {answers : List WriteAnswer}

/-- The decoder of the server finds the same header as that of the client. -/
theorem deserializeRef (hbuf : RawHeader buf h) :
    MessageHeaderRef.deserialize (buf.drop 4) = .ok ⟨h.sender, h.group, h.id, h.body⟩ := by
  have howned := MessageHeaderRef.map_toOwned_deserialize (buf.drop 4)
  rw [hbuf.deserialize] at howned
  cases hd : MessageHeaderRef.deserialize (buf.drop 4) with
  | error e =>
    rw [hd] at howned
    cases howned
  | ok r =>
    rw [hd] at howned
    cases howned
    rfl

/-- A frame made from the bytes of a header and the size decoded from them is read as that
header, and nothing after the frame is touched. -/
theorem consumes_frame (hbuf : RawHeader buf h) (p2p : Bool) :
    Consumes (getMessage p2p) (SerializedMessage.frame ⟨buf, h.body⟩ p2p) h := by
  intro rest
  rw [SerializedMessage.frame, List.append_assoc, getMessage, run_bind, hbuf.run p2p,
    List.drop_left' (List.length_replicate ..)]
  exact propagate_consumes hbuf.deserialize rest

theorem receiveMessage_run (hbuf : RawHeader buf h) (tail : Bytes) :
    receiveMessage.run (buf ++ tail) =
      .ok (⟨buf, h.body⟩, tail.drop (h.body.inlineSize false)) := by
  rw [receiveMessage, run_bind, hbuf.run false]
  exact ((propagate_consumes hbuf.deserializeRef).run_bind _).trans rfl

/-- A relay sends a frame with the same header bytes, just when its write returns `Ok`. -/
theorem relay_eq_some_iff (hbuf : RawHeader buf h) {tail : Bytes} :
    relay answers (buf ++ tail) = some out ↔
      (SerializedMessage.writeAllTo ⟨buf, h.body⟩ false answers).result = some (.ok ()) ∧
        out = SerializedMessage.frame ⟨buf, h.body⟩ false := by
  simp only [relay, hbuf.receiveMessage_run]
  constructor
  · intro hout
    split at hout
    case h_1 hok =>
      rw [← Option.some_inj.mp hout]
      exact ⟨hok, SerializedMessage.accepted_of_ok _ _ _ hok⟩
    case h_2 => cases hout
  · rintro ⟨hok, rfl⟩
    simp only [hok, SerializedMessage.accepted_of_ok _ _ _ hok]

/-- The last relay of a chain sends what the first one sends. -/
theorem relays_eq_some_iff (hbuf : RawHeader buf h) (tail : Bytes)
    {chain : List (List WriteAnswer)} (hchain : chain ≠ []) :
    relays chain (buf ++ tail) = some out ↔
      (∀ answers ∈ chain,
        (SerializedMessage.writeAllTo ⟨buf, h.body⟩ false answers).result = some (.ok ())) ∧
        out = SerializedMessage.frame ⟨buf, h.body⟩ false := by
  -- on the relays, for whatever follows the header bytes on the stream
  induction chain generalizing tail with
  | nil => exact absurd rfl hchain
  | cons answers chain ih =>
    rw [relays, Option.bind_eq_some_iff]
    simp only [hbuf.relay_eq_some_iff, List.forall_mem_cons]
    cases chain with
    | nil =>
      simp only [relays, Option.some_inj, List.not_mem_nil, false_imp_iff, implies_true, and_true]
      constructor
      · rintro ⟨mid, ⟨hok, rfl⟩, rfl⟩
        exact ⟨hok, rfl⟩
      · rintro ⟨hok, rfl⟩
        exact ⟨_, ⟨hok, rfl⟩, rfl⟩
    | cons answers' chain =>
      -- the next relay reads a frame with the same header bytes
      have hnext := ih (List.replicate (h.body.inlineSize false) 0) (List.cons_ne_nil _ _)
      constructor
      · rintro ⟨mid, ⟨hok, rfl⟩, hrest⟩
        obtain ⟨hoks, hout⟩ := hnext.mp hrest
        exact ⟨⟨hok, hoks⟩, hout⟩
      · rintro ⟨⟨hok, hoks⟩, hout⟩
        exact ⟨_, ⟨hok, rfl⟩, hnext.mpr ⟨hoks, hout⟩⟩

end RawHeader

/-- A serialized header is one that `get_message_bytes` returns. -/
theorem rawHeader_of_serialize {m : MessageHeader} {x : SerializedMessage}
    (h : m.serialize = some x) : RawHeader x.header m ∧ x.body = m.body := by
  have hfit := MessageHeader.fits_of_serialize h
  rw [MessageHeader.serialize_eq hfit, Option.some_inj] at h
  rw [← h]
  exact ⟨hfit.rawHeader, rfl⟩

/-- The frame of a serialized header is relayed as it came. -/
theorem RawHeader.frame_eq {buf rest rest' : Bytes} {h m : MessageHeader}
    {x : SerializedMessage} (hbuf : RawHeader buf h) (hx : m.serialize = some x)
    (hread : (getMessageBytes false).run (x.frame false ++ rest') = .ok (buf, rest)) :
    SerializedMessage.frame ⟨buf, h.body⟩ false = x.frame false := by
  obtain ⟨hraw, hbody⟩ := rawHeader_of_serialize hx
  -- the bytes and the header that are found are those that were written
  have hrun := hraw.run false (List.replicate (x.body.inlineSize false) 0 ++ rest')
  rw [← List.append_assoc, ← SerializedMessage.frame, hread] at hrun
  cases hrun
  cases hraw.deserialize.symm.trans hbuf.deserialize
  rw [← hbody]

/-- A client behind a chain of relays reads the header of the message. -/
theorem RawHeader.getMessage_of_relays {buf tail out : Bytes} {h : MessageHeader}
    {chain : List (List WriteAnswer)} (hbuf : RawHeader buf h) (hchain : chain ≠ [])
    (hout : relays chain (buf ++ tail) = some out) :
    ((getMessage false).run out).map Prod.fst = .ok h := by
  obtain ⟨-, rfl⟩ := (hbuf.relays_eq_some_iff tail hchain).mp hout
  have hrun := hbuf.consumes_frame false []
  rw [List.append_nil] at hrun
  rw [hrun]
  rfl

/-- **The relay is transparent.** Let the server read a message off a stream. Its write to a
writer that accepts returns `Ok`. Whatever it writes for the message is read by a client as the
header that the server decoded, exactly its bytes being taken; it is the frame that came in if that
was written by `write_all_to`. A chain of such relays puts its message out exactly when all their
writes return `Ok`, and a client behind it reads what it would have read directly. -/
theorem relay_transparent (stream buf rest : Bytes)
    (hread : (getMessageBytes false).run stream = .ok (buf, rest)) :
    ∃ h : MessageHeaderRef, MessageHeaderRef.deserialize (buf.drop 4) = .ok h ∧
      ((getMessage false).run stream).map Prod.fst = .ok h.toOwned ∧
      (∀ answers, SerializedMessage.Accepts ⟨buf, h.body⟩ false 0 answers →
        (SerializedMessage.writeAllTo ⟨buf, h.body⟩ false answers).result = some (.ok ())) ∧
      (∀ answers : List WriteAnswer,
        (SerializedMessage.writeAllTo ⟨buf, h.body⟩ false answers).result = some (.ok ()) →
        (SerializedMessage.writeAllTo ⟨buf, h.body⟩ false answers).accepted =
          SerializedMessage.frame ⟨buf, h.body⟩ false ∧
        Consumes (getMessage false)
          (SerializedMessage.writeAllTo ⟨buf, h.body⟩ false answers).accepted h.toOwned ∧
        ∀ (m : MessageHeader) (x : SerializedMessage) (answers' : List WriteAnswer)
          (rest' : Bytes), m.serialize = some x →
          (x.writeAllTo false answers').result = some (.ok ()) →
          stream = (x.writeAllTo false answers').accepted ++ rest' →
          (SerializedMessage.writeAllTo ⟨buf, h.body⟩ false answers).accepted =
            (x.writeAllTo false answers').accepted) ∧
      ∀ chain : List (List WriteAnswer),
        ((∃ out, relays chain stream = some out) ↔ ∀ answers ∈ chain,
          (SerializedMessage.writeAllTo ⟨buf, h.body⟩ false answers).result = some (.ok ())) ∧
        ∀ out, relays chain stream = some out →
          ((getMessage false).run out).map Prod.fst = .ok h.toOwned := by
  obtain ⟨h, tail, hbuf, rfl, -⟩ := getMessageBytes_eq_ok hread
  have hne : buf ≠ [] := List.ne_nil_of_length_pos (Nat.lt_of_lt_of_le (by decide) hbuf.four_le)
  -- the client's reader decodes the same bytes
  have hdirect : ((getMessage false).run (buf ++ tail)).map Prod.fst = .ok h := by
    rw [getMessage, run_bind, hread]
    simp only [Except.bind, propagate, hbuf.deserialize]
    rfl
  refine ⟨_, hbuf.deserializeRef, hdirect, ?_, ?_, ?_⟩
  · intro answers haccepts
    rw [SerializedMessage.writeAllTo_of_accepts hne haccepts]
  · intro answers hok
    rw [SerializedMessage.accepted_of_ok _ _ _ hok]
    refine ⟨rfl, hbuf.consumes_frame false, ?_⟩
    intro m x answers' rest' hx hok' hstream
    rw [SerializedMessage.accepted_of_ok _ _ _ hok'] at hstream ⊢
    exact hbuf.frame_eq hx (hstream ▸ hread)
  · intro chain
    by_cases hchain : chain = []
    · subst hchain
      refine ⟨⟨fun _ answers hmem => (List.not_mem_nil hmem).elim, fun _ => ⟨_, rfl⟩⟩, ?_⟩
      intro out hout
      obtain rfl := Option.some_inj.mp hout
      exact hdirect
    · refine ⟨?_, fun out hout => hbuf.getMessage_of_relays hchain hout⟩
      simp only [hbuf.relays_eq_some_iff _ hchain]
      constructor
      · rintro ⟨out, hoks, -⟩
        exact hoks
      · exact fun hoks => ⟨_, hoks, rfl⟩

/-- A receipt whose declared size leaves two bytes after the last field, and of whose body nothing
has come through, relayed twice: the first writer is interrupted and cuts the frame inside the
header, the second takes it whole. -/
theorem relay_transparent_padded :
    ∃ stream out : Bytes, stream.length = 24 ∧ out = stream ++ List.replicate 160 0 ∧
      relays [[.written 10, .failed .interrupted, .written 174], [.written 184]] stream =
        some out ∧
      ((getMessage false).run out).map Prod.fst = .ok ⟨"a", "b", 5, .receipt⟩ := by
  let m : MessageHeader := ⟨"a", "b", 5, .receipt⟩
  let stream : Bytes := encodeU32 24 ++ (m.headerTail ++ [9, 9])
  have hbuf : RawHeader stream m :=
    ⟨by decide, by decide, MessageHeader.deserialize_headerTail_append (by decide) [9, 9]⟩
  have hread : (getMessageBytes false).run stream = .ok (stream, []) := by
    have := hbuf.run false []
    rwa [List.append_nil] at this
  obtain ⟨h, hheader, -, haccepts, -, hchain⟩ := relay_transparent stream stream [] hread
  cases hbuf.deserializeRef.symm.trans hheader
  obtain ⟨hsome, hclient⟩ := hchain [[.written 10, .failed .interrupted, .written 174],
    [.written 184]]
  have hlen : (SerializedMessage.frame ⟨stream, .receipt⟩ false).length = 184 := by
    decide +kernel
  have hdone : SerializedMessage.Accepts ⟨stream, .receipt⟩ false 184 [] := hlen ▸ .done
  have hcut : SerializedMessage.Accepts ⟨stream, .receipt⟩ false 0
      [.written 10, .failed .interrupted, .written 174] :=
    .written (by decide) (by omega)
      (.interrupted (by decide) (.written (by decide) (by omega) hdone))
  have hwhole : SerializedMessage.Accepts ⟨stream, .receipt⟩ false 0 [.written 184] :=
    .written (by decide) (by omega) hdone
  obtain ⟨out, hout⟩ := hsome.mpr (List.forall_mem_cons.mpr ⟨haccepts _ hcut,
    List.forall_mem_singleton.mpr (haccepts _ hwhole)⟩)
  have hframe := ((hbuf.relays_eq_some_iff [] (List.cons_ne_nil _ _)).mp
    ((List.append_nil stream).symm ▸ hout)).2
  exact ⟨stream, out, rfl, hframe, hout, hclient out hout⟩

end SignalSim.Mgen
