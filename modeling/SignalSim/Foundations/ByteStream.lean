import Mathlib.Control.Monad.Basic
import Mathlib.Tactic.Common

/-!
# Reading from byte streams

A reader takes bytes off the front of a stream that ends after the bytes at hand, and
returns a value or fails. `Consumes` says that a reader takes exactly the given bytes,
whatever follows them; it composes along `bind`, so a reader for a concatenation of
items is correct as soon as the readers of the items are.

`toEnd` reads items until the first failure. The last section has the four-byte big-endian
words that length prefixes are made of.

## Main results

* `Consumes.bind`, `consumes_takeExact` — how the reader of a sequence is assembled
* `Consumes.run_drop_flatten` — over a stream of items, each read takes its own item
* `toEnd_append` — reading to the end takes all items that are whole
* `decodeU32_encodeU32`, `encodeU32_decodeU32` — the big-endian word round trip
-/

namespace SignalSim

/-- The bytes of a stream, up to its end. -/
abbrev Bytes := List UInt8

/-- A reader of a stream of bytes that fails with an error of type `ε`. -/
abbrev Reader (ε α : Type) := StateT Bytes (Except ε) α

namespace Reader

variable {ε α β : Type}

/-- Take exactly `n` bytes, or fail with `e` if the stream ends before. -/
def takeExact (e : ε) (n : ℕ) : Reader ε Bytes := fun bs =>
  if n ≤ bs.length then .ok (bs.take n, bs.drop n) else .error e

/-- Drop up to `n` bytes; the end of the stream is no failure. -/
def discard (n : ℕ) : Reader ε Unit := fun bs => .ok ((), bs.drop n)

/-- Fail with `e`. -/
def fail (e : ε) : Reader ε α := fun _ => .error e

/-- Lift a computation that does not touch the stream. -/
def ofResult (x : Except ε α) : Reader ε α := fun bs => x.map (·, bs)

/-- `p` reads `a` off every stream that starts with `bs`, and takes exactly `bs`. -/
def Consumes (p : Reader ε α) (bs : Bytes) (a : α) : Prop :=
  ∀ rest, p.run (bs ++ rest) = .ok (a, rest)

variable {p : Reader ε α} {f : α → Reader ε β} {bs cs : Bytes} {a : α} {b : β}

theorem run_bind (bs : Bytes) :
    (p >>= f).run bs = (p.run bs).bind fun ac => (f ac.1).run ac.2 := rfl

theorem consumes_pure (a : α) : Consumes (pure a : Reader ε α) [] a := fun _ => rfl

theorem Consumes.bind (hp : Consumes p bs a) (hf : Consumes (f a) cs b) :
    Consumes (p >>= f) (bs ++ cs) b := by
  intro rest
  rw [List.append_assoc, run_bind, hp]
  exact hf rest

theorem Consumes.run_bind (hp : Consumes p bs a) (rest : Bytes) :
    (p >>= f).run (bs ++ rest) = (f a).run rest := by
  rw [Reader.run_bind, hp]
  rfl

/-- A last step that takes no bytes. -/
theorem Consumes.bind_last (hp : Consumes p bs a) (hf : Consumes (f a) [] b) :
    Consumes (p >>= f) bs b := by
  simpa using hp.bind hf

theorem consumes_takeExact (e : ε) (bs : Bytes) :
    Consumes (takeExact e bs.length) bs bs := by
  intro rest
  simp [takeExact, StateT.run]

theorem consumes_ofResult {x : Except ε α} (h : x = .ok a) : Consumes (ofResult x) [] a := by
  intro rest
  subst h
  rfl

/-- Over a stream of items, each read takes its own item and leaves the later ones. -/
theorem Consumes.run_drop_flatten {items : List α} {frames : List Bytes}
    (h : List.Forall₂ (fun fr a => Consumes p fr a) frames items) (k : ℕ)
    (hk : k < items.length) :
    p.run (frames.drop k).flatten = .ok (items[k], (frames.drop (k + 1)).flatten) := by
  induction h generalizing k with
  | nil => exact absurd hk (Nat.not_lt_zero k)
  | @cons fr a frames items hfr _ ih =>
    cases k with
    | zero =>
      -- the later frames are what follows this one
      exact hfr frames.flatten
    | succ k => exact ih k (Nat.lt_of_succ_lt_succ hk)

/-- Read `n` items in a row. -/
def replicate (p : Reader ε α) : ℕ → Reader ε (List α)
  | 0 => pure []
  | n + 1 => do
    let a ← p
    let as ← replicate p n
    pure (a :: as)

theorem Consumes.replicate {items : List α} {frames : List Bytes}
    (h : List.Forall₂ (fun fr a => Consumes p fr a) frames items) :
    Consumes (replicate p items.length) frames.flatten items := by
  induction h with
  | nil => exact consumes_pure []
  | cons hfr _ ih => exact hfr.bind (ih.bind_last (consumes_pure _))

/-! ### Reading to the end -/

/-- What `p` leaves of a stream is no longer than the stream. -/
def Within (p : Reader ε α) : Prop :=
  ∀ bs a rest, p.run bs = .ok (a, rest) → rest.length ≤ bs.length

/-- What `p` leaves of a stream is shorter than the stream. -/
def Shrinks (p : Reader ε α) : Prop :=
  ∀ bs a rest, p.run bs = .ok (a, rest) → rest.length < bs.length

theorem run_bind_eq_ok {rest : Bytes} (h : (p >>= f).run bs = .ok (b, rest)) :
    ∃ a mid, p.run bs = .ok (a, mid) ∧ (f a).run mid = .ok (b, rest) := by
  rw [run_bind] at h
  cases hp : p.run bs with
  | error e =>
    rw [hp] at h
    cases h
  | ok ac =>
    rw [hp] at h
    exact ⟨ac.1, ac.2, rfl, h⟩

theorem Within.bind (hp : Within p) (hf : ∀ a, Within (f a)) : Within (p >>= f) := by
  intro bs b rest h
  obtain ⟨a, mid, hmid, hrest⟩ := run_bind_eq_ok h
  exact Nat.le_trans (hf a mid b rest hrest) (hp bs a mid hmid)

theorem Shrinks.bind (hp : Shrinks p) (hf : ∀ a, Within (f a)) : Shrinks (p >>= f) := by
  intro bs b rest h
  obtain ⟨a, mid, hmid, hrest⟩ := run_bind_eq_ok h
  exact Nat.lt_of_le_of_lt (hf a mid b rest hrest) (hp bs a mid hmid)

theorem within_pure (a : α) : Within (pure a : Reader ε α) := by
  intro bs b rest h
  cases h
  exact Nat.le_refl _

theorem within_fail (e : ε) : Within (fail e : Reader ε α) := by
  intro bs b rest h
  cases h

theorem within_discard (n : ℕ) : Within (discard n : Reader ε Unit) := by
  intro bs b rest h
  cases h
  simp

theorem ofResult_eq_ok {x : Except ε α} {rest : Bytes}
    (h : (ofResult x).run bs = .ok (a, rest)) : x = .ok a ∧ rest = bs := by
  cases x with
  | error e => cases h
  | ok a =>
    cases h
    exact ⟨rfl, rfl⟩

theorem takeExact_eq_ok {e : ε} {n : ℕ} {rest : Bytes}
    (h : (takeExact e n).run bs = .ok (cs, rest)) :
    n ≤ bs.length ∧ cs = bs.take n ∧ rest = bs.drop n := by
  by_cases hn : n ≤ bs.length
  · simp only [takeExact, StateT.run, if_pos hn] at h
    cases h
    exact ⟨hn, rfl, rfl⟩
  · simp only [takeExact, StateT.run, if_neg hn] at h
    cases h

theorem within_ofResult (x : Except ε α) : Within (ofResult x) := by
  intro bs b rest h
  obtain ⟨-, rfl⟩ := ofResult_eq_ok h
  exact Nat.le_refl _

theorem within_takeExact (e : ε) (n : ℕ) : Within (takeExact e n) := by
  intro bs b rest h
  rw [(takeExact_eq_ok h).2.2]
  exact (List.drop_suffix n bs).length_le

theorem shrinks_takeExact (e : ε) {n : ℕ} (hn : 0 < n) : Shrinks (takeExact e n) := by
  intro bs b rest h
  obtain ⟨hle, -, rfl⟩ := takeExact_eq_ok h
  rw [List.length_drop]
  omega

/-- Read items until the first failure. -/
def toEnd (p : Reader ε α) (hp : Shrinks p) (bs : Bytes) : List α :=
  match _h : p.run bs with
  | .ok (a, rest) => a :: toEnd p hp rest
  | .error _ => []
termination_by bs.length
decreasing_by exact hp bs a rest _h

theorem toEnd_of_ok {hp : Shrinks p} {rest : Bytes} (h : p.run bs = .ok (a, rest)) :
    toEnd p hp bs = a :: toEnd p hp rest := by
  rw [toEnd]
  split
  · rename_i a' rest' h'
    cases h'.symm.trans h
    rfl
  · rename_i e h'
    cases h'.symm.trans h

theorem toEnd_of_error {hp : Shrinks p} {e : ε} (h : p.run bs = .error e) :
    toEnd p hp bs = [] := by
  rw [toEnd]
  split
  · rename_i a' rest' h'
    cases h'.symm.trans h
  · rfl

/-- Whole items at the start of a stream are read whatever follows them. -/
theorem toEnd_append {hp : Shrinks p} {items : List α} {frames : List Bytes}
    (h : List.Forall₂ (fun fr a => Consumes p fr a) frames items) (rest : Bytes) :
    toEnd p hp (frames.flatten ++ rest) = items ++ toEnd p hp rest := by
  induction h with
  | nil => rfl
  | cons hfr _ ih =>
    rw [List.flatten_cons, List.append_assoc, toEnd_of_ok (hfr _), ih, List.cons_append]

end Reader

/-! ### Big-endian words -/

/-- The four bytes of a word, most significant first. -/
def encodeU32 (n : UInt32) : Bytes :=
  [UInt8.ofNat (n.toNat >>> 24), UInt8.ofNat (n.toNat >>> 16), UInt8.ofNat (n.toNat >>> 8),
    UInt8.ofNat n.toNat]

/-- The word that four bytes stand for, most significant first. -/
def decodeU32 (bs : Bytes) : UInt32 :=
  UInt32.ofNat (bs.foldl (fun acc b => acc * 256 + b.toNat) 0)

@[simp] theorem length_encodeU32 (n : UInt32) : (encodeU32 n).length = 4 := rfl

@[simp] theorem decodeU32_encodeU32 (n : UInt32) : decodeU32 (encodeU32 n) = n := by
  apply UInt32.toNat_inj.mp
  -- the four digits of a number below `256 ^ 4`
  have h := n.toNat_lt
  simp only [decodeU32, encodeU32, List.foldl, UInt8.toNat_ofNat', UInt32.toNat_ofNat']
  omega

/-- Four bytes are the encoding of the word that they stand for. -/
theorem encodeU32_decodeU32 {bs : Bytes} (h : bs.length = 4) : encodeU32 (decodeU32 bs) = bs := by
  obtain ⟨a, b, c, d, rfl⟩ : ∃ a b c d, bs = [a, b, c, d] := by
    match bs, h with
    | [a, b, c, d], _ => exact ⟨a, b, c, d, rfl⟩
  have ha := a.toNat_lt
  have hb := b.toNat_lt
  have hc := c.toNat_lt
  have hd := d.toNat_lt
  simp only [decodeU32, encodeU32, List.foldl, List.cons.injEq, and_true, UInt32.toNat_ofNat']
  -- each byte is a digit to the base 256
  refine ⟨?_, ?_, ?_, ?_⟩ <;>
    · apply UInt8.toNat_inj.mp
      rw [UInt8.toNat_ofNat']
      omega

end SignalSim
