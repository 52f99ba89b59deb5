import SignalSim.Mgen.Wire.PartialWrites

/-!
# The wire stream round trip

A connection carries a preamble (a handshake to the server, the user's name to a peer) and
then message frames. What the writing side put is what the reading side gets, item by item
and with no byte left over, however the writer cut the frames into partial writes.

## Main definitions

* `Preamble` — what opens a connection in each mode
* `putFrames` — the frames that successful calls of `write_all_to` put on the stream

The last section cuts a frame short. The header is read exactly, but the body is copied to a
sink, and the end of the stream ends that copy like the end of the body does.

## Main results

* `putFrames_of_accepts` — a writer that accepts gets every frame
* `readStream_putFrames` — the round trip over a whole stream
* `cut_frame_rejected_iff` — a frame that is cut short is refused just when its header is
-/

namespace SignalSim.Mgen

open SignalSim.Reader

/-- What opens a connection: a handshake to the server, or the user's name to a peer. -/
def Preamble : Bool → Type
  | false => Handshake
  | true => String

namespace Preamble

/-- The bytes of the preamble. -/
def serialize : {p2p : Bool} → Preamble p2p → Bytes
  | false, h => Handshake.serialize h
  | true, user => serializeStr user

/-- The names in the preamble are representable with their lengths. -/
def Fits : {p2p : Bool} → Preamble p2p → Prop
  | false, h => Handshake.Fits h
  | true, user => (asBytes user).length < UInt32.size

/-- The preamble as the accepting side reads it. -/
def get : (p2p : Bool) → Reader Failure (Preamble p2p)
  | false => getHandshake
  | true => parseIdentifier

theorem get_consumes {p2p : Bool} {pre : Preamble p2p} (h : pre.Fits) :
    Consumes (get p2p) pre.serialize pre := by
  cases p2p with
  | false => exact getHandshake_consumes h
  | true => exact parseIdentifier_consumes h

end Preamble

/-- The bytes that each message puts on the stream, when every message serializes and every
`write_all_to` on a writer with the given answers returns `Ok`. -/
def putFrames (p2p : Bool) : List (MessageHeader × List WriteAnswer) → Option (List Bytes)
  | [] => some []
  | (h, answers) :: items => do
    let m ← h.serialize
    let out := m.writeAllTo p2p answers
    match out.result with
    | some (.ok ()) =>
      let frames ← putFrames p2p items
      some (out.accepted :: frames)
    | _ => none

/-- Each frame put is one that the reading side takes for its message. -/
theorem putFrames_consumes {p2p : Bool} {items : List (MessageHeader × List WriteAnswer)}
    {frames : List Bytes} (hfit : ∀ it ∈ items, it.1.Fits)
    (hput : putFrames p2p items = some frames) :
    List.Forall₂ (fun fr h => Consumes (getMessage p2p) fr h) frames (items.map (·.1)) := by
  induction items generalizing frames with
  | nil =>
    obtain rfl := Option.some_inj.mp hput
    exact .nil
  | cons it items ih =>
    obtain ⟨h, answers⟩ := it
    have hh : h.Fits := hfit _ List.mem_cons_self
    simp only [putFrames, MessageHeader.serialize_eq hh, bind, Option.bind] at hput
    split at hput
    case h_2 => simp at hput
    case h_1 hok =>
      split at hput
      case h_1 => simp at hput
      case h_2 frames' hrest =>
        obtain rfl := Option.some_inj.mp hput
        rw [SerializedMessage.accepted_of_ok _ _ _ hok]
        exact .cons (getMessage_consumes p2p hh)
          (ih (fun it hit => hfit it (List.mem_cons_of_mem _ hit)) hrest)

/-- A writer that accepts gets every frame. -/
theorem putFrames_of_accepts {p2p : Bool} {items : List (MessageHeader × List WriteAnswer)}
    (hfit : ∀ it ∈ items, it.1.Fits)
    (haccepts : ∀ it ∈ items,
      SerializedMessage.Accepts ⟨it.1.frameHeader, it.1.body⟩ p2p 0 it.2) :
    putFrames p2p items = some (items.map fun it => it.1.frame p2p) := by
  induction items with
  | nil => rfl
  | cons it items ih =>
    obtain ⟨hh, hrest⟩ := List.forall_mem_cons.mp hfit
    obtain ⟨hthis, haccepts⟩ := List.forall_mem_cons.mp haccepts
    have hne : it.1.frameHeader ≠ [] := List.cons_ne_nil _ _
    simp only [putFrames, MessageHeader.serialize_eq hh, bind, Option.bind,
      SerializedMessage.writeAllTo_of_accepts hne hthis, ih hrest haccepts]
    rfl

/-- **Wire stream round trip.** The preamble and then each message are read back in order,
every read takes exactly the bytes of its own item, and nothing is left after the last. -/
theorem readStream_putFrames (p2p : Bool) (pre : Preamble p2p) (hpre : pre.Fits)
    (items : List (MessageHeader × List WriteAnswer)) (hfit : ∀ it ∈ items, it.1.Fits)
    (frames : List Bytes) (hput : putFrames p2p items = some frames) :
    (Preamble.get p2p).run (pre.serialize ++ frames.flatten) = .ok (pre, frames.flatten) ∧
    (∀ k (hk : k < items.length), (getMessage p2p).run (frames.drop k).flatten =
      .ok (items[k].1, (frames.drop (k + 1)).flatten)) ∧
    (replicate (getMessage p2p) items.length).run frames.flatten =
      .ok (items.map (·.1), []) := by
  have hframes := putFrames_consumes hfit hput
  refine ⟨Preamble.get_consumes hpre _, fun k hk => ?_, ?_⟩
  · have := Consumes.run_drop_flatten hframes k (by simpa using hk)
    simpa using this
  · have := Consumes.replicate hframes []
    simpa using this

/-- A message whose write is cut inside the header, interrupted and cut at the header's
end, and a receipt after it, to a peer and to the server. -/
theorem readStream_putFrames_cut :
    (∃ (m r : MessageHeader) (frames : List Bytes),
      putFrames true [(m, [.written 10, .failed .interrupted, .written 20, .written 1]),
        (r, [.written 188])] = some frames ∧
      (replicate (getMessage true) 2).run frames.flatten = .ok ([m, r], [])) ∧
    ∃ (m r : MessageHeader) (frames : List Bytes),
      putFrames false [(m, [.written 10, .failed .interrupted, .written 20, .written 1]),
        (r, [.written 188])] = some frames ∧
      getHandshake.run (Handshake.serialize ⟨"Alice", "group"⟩ ++ frames.flatten) =
        .ok (⟨"Alice", "group"⟩, frames.flatten) ∧
      (replicate (getMessage false) 2).run frames.flatten = .ok ([m, r], []) := by
  let m : MessageHeader := ⟨"Alice", "group", 7, .size ⟨1, by decide⟩⟩
  let r : MessageHeader := ⟨"Bob", "Alice", 7, .receipt⟩
  have hm : m.Fits := by decide
  have hr : r.Fits := by decide
  -- the lengths of the two frames are the same in both modes
  have haccepts (p2p : Bool) : ∀ it ∈ [(m, [WriteAnswer.written 10, .failed .interrupted,
      .written 20, .written 1]), (r, [.written 188])],
      SerializedMessage.Accepts ⟨it.1.frameHeader, it.1.body⟩ p2p 0 it.2 := by
    have hlenm : (SerializedMessage.frame ⟨m.frameHeader, m.body⟩ p2p).length = 31 := by
      revert p2p
      decide +kernel
    have hlenr : (SerializedMessage.frame ⟨r.frameHeader, r.body⟩ p2p).length = 188 := by
      revert p2p
      decide +kernel
    have hdonem : SerializedMessage.Accepts ⟨m.frameHeader, m.body⟩ p2p 31 [] := hlenm ▸ .done
    have hdoner : SerializedMessage.Accepts ⟨r.frameHeader, r.body⟩ p2p 188 [] := hlenr ▸ .done
    refine List.forall_mem_cons.mpr ⟨?_, List.forall_mem_singleton.mpr ?_⟩
    · change SerializedMessage.Accepts ⟨m.frameHeader, m.body⟩ p2p 0 _
      exact .written (by decide) (by omega) (.interrupted (by decide)
        (.written (by decide) (by omega) (.written (by decide) (by omega) hdonem)))
    · change SerializedMessage.Accepts ⟨r.frameHeader, r.body⟩ p2p 0 _
      exact .written (by decide) (by omega) hdoner
  have hfit : ∀ it ∈ [(m, [WriteAnswer.written 10, .failed .interrupted, .written 20,
      .written 1]), (r, [.written 188])], it.1.Fits :=
    List.forall_mem_cons.mpr ⟨hm, List.forall_mem_singleton.mpr hr⟩
  constructor
  · have hput := putFrames_of_accepts hfit (haccepts true)
    exact ⟨m, r, _, hput, (readStream_putFrames true ("Alice" : String)
      (show (asBytes "Alice").length < _ by decide) _ hfit _ hput).2.2⟩
  · have hput := putFrames_of_accepts hfit (haccepts false)
    have hread := readStream_putFrames false (⟨"Alice", "group"⟩ : Handshake)
      (show _ ∧ _ from ⟨by decide, by decide⟩) _ hfit _ hput
    exact ⟨m, r, _, hput, hread.1, hread.2.2⟩

/-! ### Frames that are cut short -/

/-- **Cut frames.** Of the bytes that a `write_all_to` put for a message, let all but a proper
prefix be lost. The readers return an error if and only if the cut is inside the header. -/
theorem cut_frame_rejected_iff (p2p : Bool) (m : MessageHeader) (x : SerializedMessage)
    (hx : m.serialize = some x) (answers : List WriteAnswer)
    (hok : (x.writeAllTo p2p answers).result = some (.ok ())) (n : ℕ)
    (hn : n < (x.writeAllTo p2p answers).accepted.length) :
    ((∃ e : Error, (getMessageBytes p2p).run ((x.writeAllTo p2p answers).accepted.take n) =
        .error (.error e)) ∧
      ∃ e : Error, (getMessage p2p).run ((x.writeAllTo p2p answers).accepted.take n) =
        .error (.error e)) ↔ n < m.headerLen := by
  have hfit := MessageHeader.fits_of_serialize hx
  have hframe : x.frame p2p = m.frame p2p := by
    rw [MessageHeader.serialize_eq hfit, Option.some_inj] at hx
    rw [← hx]
    rfl
  rw [SerializedMessage.accepted_of_ok _ _ _ hok, hframe] at hn ⊢
  constructor
  · intro h
    by_contra hlt
    -- past the header the read succeeds
    obtain ⟨e, he⟩ := h.1
    rw [getMessageBytes_take_frame p2p hfit (Nat.le_of_not_lt hlt) hn] at he
    cases he
  · intro hlt
    rw [MessageHeader.take_frame_of_lt hlt]
    exact ⟨⟨_, getMessageBytes_of_short p2p hfit hlt⟩, ⟨_, getMessage_of_short p2p hfit hlt⟩⟩

/-- A receipt of which only ten bytes arrive. -/
theorem cut_frame_rejected_short :
    ∃ (m : MessageHeader) (x : SerializedMessage), m.serialize = some x ∧
      ∃ e : Error, (getMessage false).run
        ((x.writeAllTo false [.written 182]).accepted.take 10) = .error (.error e) := by
  let m : MessageHeader := ⟨"a", "b", 0, .receipt⟩
  have hfit : m.Fits := by decide
  have hx := MessageHeader.serialize_eq hfit
  refine ⟨m, _, hx, ?_⟩
  exact ((cut_frame_rejected_iff false m _ hx [.written 182] (by decide +kernel) 10
    (by decide +kernel)).mpr (by decide)).2

/-- A receipt without any of its body is accepted, in both modes and by both readers. -/
theorem cut_frame_accepted :
    ∃ (m : MessageHeader) (x : SerializedMessage) (answers : List WriteAnswer) (n : ℕ),
      m.serialize = some x ∧ ∀ p2p : Bool,
        (x.writeAllTo p2p answers).result = some (.ok ()) ∧
        n < (x.writeAllTo p2p answers).accepted.length ∧
        (getMessageBytes p2p).run ((x.writeAllTo p2p answers).accepted.take n) =
          .ok (x.header, []) ∧
        (getMessage p2p).run ((x.writeAllTo p2p answers).accepted.take n) = .ok (m, []) := by
  let m : MessageHeader := ⟨"a", "b", 0, .receipt⟩
  have hfit : m.Fits := by decide
  refine ⟨m, ⟨m.frameHeader, m.body⟩, [.written 182], 22, MessageHeader.serialize_eq hfit, ?_⟩
  intro p2p
  have hok : (SerializedMessage.writeAllTo ⟨m.frameHeader, m.body⟩ p2p [.written 182]).result =
      some (.ok ()) := by
    revert p2p
    decide +kernel
  have hlen : 22 < (m.frame p2p).length := by
    rw [MessageHeader.length_frame]
    revert p2p
    decide +kernel
  have hframe : SerializedMessage.frame ⟨m.frameHeader, m.body⟩ p2p = m.frame p2p := rfl
  rw [SerializedMessage.accepted_of_ok _ _ _ hok, hframe]
  have hle : m.headerLen ≤ 22 := by decide
  exact ⟨hok, hlen, getMessageBytes_take_frame p2p hfit hle hlen,
    getMessage_take_frame p2p hfit hle hlen⟩

end SignalSim.Mgen
