import SignalSim.Mgen.Messenger.State
import SignalSim.SamExtractor.Weights

/-!
# Message sizes

`message-lens` adds a file size to the length of a text and counts the blocks of the sum. The sizes
that `message_sizes.sh` writes are counts of blocks already.

## Main definitions

* `bytesToBlocks`, `messageLen` — the blocks of a message
* `messageLens` — the lengths of the messages of each user
* `capBlocks` — what the generator makes of a sampled length

## Main results

* `collectLens_eq_some` — which lengths are recorded
* `sizeBlocks_le_iff` — when a message has at least the blocks of its file
* `recorded_iff` — the same for a file that is sampled, up to the body that is built
-/

namespace SignalSim.SamExtractor

/-! ### Lengths -/

/-- A message, for its length. -/
structure TextMessage where
  user : UserId
  charCount : Int32
  emojiCount : UInt32
  deriving DecidableEq

def bytesToBlocks (bytes : Int32) : ℕ :=
  if bytes ≤ 112 then 1 else asUsize ((bytes + 208) / 160).toInt

/-- `message_len`. -/
def messageLen (message : TextMessage) (fileSize : Int32) : ℕ :=
  bytesToBlocks (message.charCount + message.emojiCount.toInt32 * 4 + fileSize)

/-- The length of the text in bytes. -/
def TextMessage.textBytes (message : TextMessage) : ℤ :=
  message.charCount.toInt + message.emojiCount.toNat * 4

section

variable {message : TextMessage} {bytes size : Int32} {n s : ℕ}

/-- If nothing overflows, the blocks are those that the script computes. -/
theorem bytesToBlocks_eq (hnonneg : 0 ≤ bytes.toInt) (hlt : bytes.toInt + 208 < 2 ^ 31) :
    bytesToBlocks bytes = sizeBlocks bytes.toInt.toNat := by
  have hsum : (bytes + 208).toInt = bytes.toInt + 208 := by
    rw [Int32.toInt_add, show (208 : Int32).toInt = 208 from rfl]
    exact Int.bmod_eq_of_le (by omega) (by omega)
  have hdiv : ((bytes + 208) / 160).toInt = (bytes.toInt + 208) / 160 := by
    rw [Int32.toInt_div_of_ne_right _ _ (by decide), hsum]
    exact Int.tdiv_eq_ediv_of_nonneg (by omega)
  have hle : bytes ≤ 112 ↔ bytes.toInt.toNat ≤ 112 := by
    rw [Int32.le_iff_toInt_le, Int.toNat_le]
    rfl
  unfold bytesToBlocks sizeBlocks
  by_cases hsmall : bytes.toInt.toNat ≤ 112
  · rw [if_pos (hle.mpr hsmall), if_pos hsmall]
  · rw [if_neg (mt hle.mp hsmall), if_neg hsmall, hdiv]
    obtain ⟨k, hk⟩ := Int.eq_ofNat_of_zero_le hnonneg
    have hcast : ((bytes.toInt + 208) / 160) = ((k + 208) / 160 : ℕ) := by
      rw [hk]
      norm_cast
    rw [hcast, asUsize_natCast]
    · rw [hk]
      rfl
    · have hsize : UInt64.size = 2 ^ 64 := rfl
      omega

theorem messageLen_eq (hnonneg : 0 ≤ message.textBytes) (hsize : 0 ≤ size.toInt)
    (hlt : message.textBytes + size.toInt + 208 < 2 ^ 31) :
    messageLen message size = sizeBlocks (message.textBytes + size.toInt).toNat := by
  have hsum : (message.charCount + message.emojiCount.toInt32 * 4 + size).toInt =
      message.textBytes + size.toInt := by
    have hemoji : message.emojiCount.toInt32 = Int32.ofInt message.emojiCount.toNat := by
      rw [Int32.ofInt_eq_ofNat, ← UInt32.toInt32_ofNat', UInt32.ofNat_toNat]
    have hofInt : message.charCount + message.emojiCount.toInt32 * 4 + size =
        Int32.ofInt (message.textBytes + size.toInt) := by
      rw [TextMessage.textBytes, Int32.ofInt_add, Int32.ofInt_add, Int32.ofInt_mul,
        Int32.ofInt_toInt, Int32.ofInt_toInt, hemoji]
      rfl
    rw [hofInt]
    exact Int32.toInt_ofInt_of_le (by omega) (by omega)
  rw [messageLen, bytesToBlocks_eq (by rw [hsum]; omega) (by rw [hsum]; omega), hsum]

/-- **Blocks.** With its text a file has at least its own blocks if it is one block, or if the text
makes up for the blocks being taken for bytes. -/
theorem sizeBlocks_le_iff :
    sizeBlocks s ≤ sizeBlocks (n + sizeBlocks s) ↔
      s ≤ 112 ∨ 112 < n + sizeBlocks s ∧ 159 * sizeBlocks s ≤ n + 208 := by
  by_cases hsmall : s ≤ 112
  · have hone : sizeBlocks s = 1 := if_pos hsmall
    rw [hone]
    refine iff_of_true ?_ (.inl hsmall)
    unfold sizeBlocks
    split <;> omega
  · rw [or_iff_right hsmall]
    have htwo : 2 ≤ sizeBlocks s := by
      rw [sizeBlocks, if_neg hsmall]
      omega
    generalize sizeBlocks s = blocks at htwo
    unfold sizeBlocks
    split <;> omega

end

/-! ### The loop over the messages -/

section

variable {Dist Rng : Type} (sample : Dist → Rng → ℕ × Rng)

/-- `file_size`, and the state of the generator after it. -/
def sampleFileSize (fileSizes : Option (Dist × List Int32)) (rng : Rng) : Option (Int32 × Rng) :=
  match fileSizes with
  | some (dist, sizes) =>
    let (idx, rng) := sample dist rng
    (sizes[idx]?).map fun size => (size, rng)
  | none => some (0, rng)

/-- The loop over the messages. -/
def collectLens (fileSizes : Option (Dist × List Int32)) :
    List TextMessage → (AList fun _ : UserId => List ℕ) → Rng →
      Option (AList fun _ : UserId => List ℕ)
  | [], users, _ => some users
  | message :: messages, users, rng => do
    let (fileSize, rng) ← sampleFileSize sample fileSizes rng
    let lens := (users.lookup message.user).getD []
    collectLens fileSizes messages
      (users.insert message.user (lens ++ [messageLen message fileSize])) rng

/-- The lengths of the messages of each user, over all conversations. -/
def messageLens (fileSizes : Option (Dist × List Int32)) (conversations : List (List TextMessage))
    (rng : Rng) : Option (AList fun _ : UserId => List ℕ) :=
  collectLens sample fileSizes conversations.flatten ∅ rng

/-- The index that is sampled for a message, after those for `j` messages before it. -/
def drawn (dist : Dist) : Rng → ℕ → ℕ
  | rng, 0 => (sample dist rng).1
  | rng, j + 1 => drawn dist (sample dist rng).2 j

variable {sample} {dist : Dist} {sizes : List Int32} {rng : Rng} {messages : List TextMessage}
  {users out : AList fun _ : UserId => List ℕ} {message : TextMessage} {j : ℕ}

/-- What is in the list of a user stays there. -/
theorem mem_of_collectLens {user : UserId} {blocks : ℕ}
    (h : collectLens sample (some (dist, sizes)) messages users rng = some out)
    (hmem : ∃ lens, users.lookup user = some lens ∧ blocks ∈ lens) :
    ∃ lens, out.lookup user = some lens ∧ blocks ∈ lens := by
  induction messages generalizing users rng with
  | nil =>
    obtain rfl := Option.some_inj.mp h
    exact hmem
  | cons message messages ih =>
    obtain ⟨⟨size, rng'⟩, -, h⟩ := Option.bind_eq_some_iff.mp h
    refine ih h ?_
    obtain ⟨lens, hlens, hblocks⟩ := hmem
    by_cases heq : user = message.user
    · subst heq
      exact ⟨_, AList.lookup_insert users, List.mem_append_left _ (by rw [hlens]; exact hblocks)⟩
    · exact ⟨lens, (AList.lookup_insert_ne heq).trans hlens, hblocks⟩

/-- **Recording.** The length of a message with the size that is sampled for it is recorded for its
user. -/
theorem collectLens_eq_some
    (h : collectLens sample (some (dist, sizes)) messages users rng = some out)
    (hmessage : messages[j]? = some message) :
    ∃ size, sizes[drawn sample dist rng j]? = some size ∧
      ∃ lens, out.lookup message.user = some lens ∧ messageLen message size ∈ lens := by
  induction messages generalizing users rng j with
  | nil => cases hmessage
  | cons first messages ih =>
    obtain ⟨⟨size, rng'⟩, hsample, h⟩ := Option.bind_eq_some_iff.mp h
    obtain ⟨size', hsize, heq⟩ := Option.map_eq_some_iff.mp hsample
    obtain ⟨rfl, rfl⟩ := Prod.mk.inj heq
    cases j with
    | zero =>
      obtain rfl := Option.some_inj.mp hmessage
      refine ⟨size', hsize, mem_of_collectLens h ⟨_, AList.lookup_insert users, ?_⟩⟩
      exact List.mem_append_right _ (List.mem_singleton_self _)
    | succ j =>
      have hrest : collectLens sample (some (dist, sizes)) messages _ (sample dist rng).2 =
          some out := h
      have hrecorded := ih hrest (List.getElem?_cons_succ.symm.trans hmessage)
      exact hrecorded

end

/-! ### The body of the message -/

/-- What the generator makes of a length that it samples. -/
def capBlocks (blocks : UInt32) : {n : UInt32 // n ≤ Mgen.maxBlocksInBody} :=
  ⟨if blocks ≤ Mgen.maxBlocksInBody then blocks else Mgen.maxBlocksInBody, by
    split
    · assumption
    · exact UInt32.le_refl _⟩

/-- A message that is built from a length that was recorded has a body of at least that many bytes,
or the largest body there is. -/
def BuildsBody (lens : List ℕ) (blocks bytes : ℕ) : Prop :=
  ∀ (hash : HashOrder ℕ) (Dist E : Type) (new : List UInt32 → Except E Dist) dist vals,
    Mgen.Dists.parseWeightsFile new u32FromStr (writeWeighted Text.ofNat hash lens) =
        .ok (dist, vals) →
      ∃ len ∈ vals, len.toNat = blocks ∧
        ∀ sender group id x, Mgen.constructMessage sender group id (capBlocks len) = some x →
          min bytes (Mgen.maxBlocksInBody.toNat * 160) ≤ x.body.totalSize

section

variable {lens : List ℕ} {blocks bytes : ℕ}

/-- Every length that was recorded can be sampled. -/
theorem exists_len_of_mem {hash : HashOrder ℕ} {Dist E : Type}
    {new : List UInt32 → Except E Dist} {dist : Dist} {vals : List UInt32} (hmem : blocks ∈ lens)
    (h : Mgen.Dists.parseWeightsFile new u32FromStr (writeWeighted Text.ofNat hash lens) =
      .ok (dist, vals)) : ∃ len ∈ vals, len.toNat = blocks := by
  obtain ⟨len, hlen, hread⟩ :=
    Result.exists_of_mem_left (vals_of_read rfl h) (mem_createWeighted.mpr hmem)
  exact ⟨len, hlen, toNat_of_u32FromStr hread⟩

theorem toNat_capBlocks (blocks : UInt32) :
    (capBlocks blocks).1.toNat = min blocks.toNat Mgen.maxBlocksInBody.toNat := by
  rw [capBlocks, apply_ite UInt32.toNat]
  simp only [UInt32.le_iff_toNat_le]
  split <;> omega

theorem buildsBody (hmem : blocks ∈ lens) (hle : bytes ≤ blocks * 160) :
    BuildsBody lens blocks bytes := by
  intro hash Dist E new dist vals hparse
  obtain ⟨len, hlen, rfl⟩ := exists_len_of_mem hmem hparse
  refine ⟨len, hlen, rfl, fun sender group id x hx => ?_⟩
  rw [Mgen.body_of_constructMessage hx (capBlocks len).2, toNat_capBlocks]
  omega

end

/-- **Units.** Let the script record a file, and let `message-lens` sample its entry for a message.
The message gets the blocks of the file, and a body that is long enough for it, exactly if the file
is one block or the text makes up for the difference. -/
theorem recorded_iff {SizeDist E Rng : Type} {new : List UInt32 → Except E SizeDist}
    {sample : SizeDist → Rng → ℕ × Rng} {fileLengths : List ℕ} {s j : ℕ} {dist : SizeDist}
    {sizes : List Int32} {conversations : List (List TextMessage)} {rng : Rng}
    {users : AList fun _ : UserId => List ℕ} {message : TextMessage}
    (hs : s ∈ fileLengths) (hne : s ≠ 0)
    (hfile : parseWeightsFile new i32FromStr (messageSizes fileLengths) = .ok (dist, sizes))
    (hlens : messageLens sample (some (dist, sizes)) conversations rng = some users)
    (hmessage : conversations.flatten[j]? = some message)
    (hdrawn : drawn sample dist rng j = entryOf fileLengths s)
    (hnonneg : 0 ≤ message.textBytes)
    (hlt : message.textBytes + sizeBlocks s + 208 < 2 ^ 31) :
    ∃ size, sizes[drawn sample dist rng j]? = some size ∧
      ∃ lens, users.lookup message.user = some lens ∧ messageLen message size ∈ lens ∧
        ((sizeBlocks s ≤ messageLen message size ∧
            BuildsBody lens (messageLen message size) s) ↔
          s ≤ 112 ∨ 112 < message.textBytes + sizeBlocks s ∧
            159 * sizeBlocks s ≤ message.textBytes + 208) := by
  obtain ⟨size, hsize, lens, hlookup, hmem⟩ := collectLens_eq_some hlens hmessage
  refine ⟨size, hsize, lens, hlookup, hmem, ?_⟩
  -- the size that is sampled is the count of blocks of the file
  have hentry : size.toInt = sizeBlocks s := by
    obtain ⟨size', hsize', hread⟩ :=
      Result.getElem?_of_forall₂ (vals_of_read rfl hfile) (getElem?_entryOf hs hne)
    rw [hdrawn, hsize'] at hsize
    obtain rfl := Option.some_inj.mp hsize
    exact toInt_of_i32FromStr hread
  obtain ⟨n, hn⟩ := Int.eq_ofNat_of_zero_le hnonneg
  have hlen : messageLen message size = sizeBlocks (n + sizeBlocks s) := by
    rw [messageLen_eq hnonneg (by omega) (by omega), hentry, hn]
    rfl
  rw [hlen, hn]
  have hiff : sizeBlocks s ≤ sizeBlocks (n + sizeBlocks s) ↔
      s ≤ 112 ∨ 112 < (n : ℤ) + sizeBlocks s ∧ 159 * sizeBlocks s ≤ (n : ℤ) + 208 := by
    rw [sizeBlocks_le_iff]
    omega
  rw [← hiff, and_iff_left_iff_imp]
  intro hle
  apply buildsBody (hlen ▸ hmem)
  exact (le_sizeBlocks s).trans (Nat.mul_le_mul_right 160 hle)

/-- Takes the index that the generator is at. -/
def takeIndex (_ : List UInt32) (rng : ℕ) : ℕ × ℕ := (rng, rng)

/-- A picture without a text gets 40 blocks for 6251. -/
theorem recorded_of_media :
    ∃ sizes, parseWeightsFile aliasIndex i32FromStr (messageSizes [1000000]) = .ok ([1], sizes) ∧
      (messageLens takeIndex (some ([1], sizes)) [[⟨7, 0, 0⟩]] 0).bind (·.lookup 7) = some [40] ∧
      sizeBlocks 1000000 = 6251 ∧ ¬ sizeBlocks 1000000 ≤ 40 := by
  refine ⟨[6251], ?_, ?_, ?_, ?_⟩ <;> decide +kernel

def smallMessage : TextMessage := ⟨7, 20, 1⟩

/-- A small file is one block whatever the text is. -/
theorem recorded_iff_small :
    ∃ users size lens, messageLens takeIndex (some ([1], [1])) [[smallMessage]] 0 = some users ∧
      users.lookup 7 = some lens ∧ messageLen smallMessage size ∈ lens ∧
      sizeBlocks 100 ≤ messageLen smallMessage size ∧
      BuildsBody lens (messageLen smallMessage size) 100 := by
  obtain ⟨users, husers⟩ : ∃ users,
      messageLens takeIndex (some ([1], [1])) [[smallMessage]] 0 = some users := ⟨_, rfl⟩
  have hfile : parseWeightsFile aliasIndex i32FromStr (messageSizes [100]) = .ok ([1], [1]) := by
    decide +kernel
  have hmessage : [[smallMessage]].flatten[0]? = some smallMessage := rfl
  have hdrawn : drawn takeIndex [1] 0 0 = entryOf [100] 100 := by decide +kernel
  obtain ⟨size, -, lens, hlens, hmem, hiff⟩ := recorded_iff (List.mem_singleton_self 100)
    (by decide) hfile husers hmessage hdrawn (by decide) (by decide)
  exact ⟨users, size, lens, husers, hlens, hmem, hiff.mpr (.inl (by decide))⟩

end SignalSim.SamExtractor
