import SignalSim.Foundations.Counter
import SignalSim.Foundations.Result
import SignalSim.SamExtractor.StatsFile

/-!
# Files of weighted values

A distribution is written as two lines: how often each value was seen, and the values. The values
are counted in a hash map, which hands out its entries in any order. The extractor panics at a value
that it cannot read, and the generator of messages returns an error there; what they make of the
weights is up to the library for distributions.

## Main definitions

* `HashOrder` — the order of the entries of a hash map
* `createWeighted`, `writeWeighted` — the counts of values, and the file
* `parseWeightsFile`, `Mgen.Dists.parseWeightsFile` — the parsers of the two crates
* `uniqCount` — what `uniq -c` makes of lines
* `messageSizes` — the file that `message_sizes.sh` writes

## Main results

* `vals_of_read` — what is read are the values that were written
* `mem_createWeighted`, `getElem?_entryOf` — every value that was counted has an entry
-/

namespace SignalSim.SamExtractor

/-! ### Writing -/

/-- The order in which the entries of a hash map come out. -/
structure HashOrder (α : Type*) where
  order : List (α × ℕ) → List (α × ℕ)
  perm : ∀ table, (order table).Perm table

section Writing

variable {α : Type*} [LinearOrder α]

/-- The counts of the different values, in the order of the values, and these. -/
def createWeighted (hash : HashOrder α) (values : List α) : List ℕ × List α :=
  let collected := sortPairs (hash.order (counter values))
  let (items, counts) := collected.unzip
  (counts, items)

theorem createWeighted_eq (hash : HashOrder α) (values : List α) :
    createWeighted hash values =
      ((sortedValues values).map (values.count ·), sortedValues values) := by
  rw [createWeighted, sortPairs_eq (hash.perm _), List.unzip_eq_map]
  simp only [List.map_map]
  refine Prod.ext rfl ?_
  exact List.map_id _

theorem mem_createWeighted {hash : HashOrder α} {v : α} {values : List α} :
    v ∈ (createWeighted hash values).2 ↔ v ∈ values := by
  rw [createWeighted_eq]
  exact mem_sortedValues

end Writing

/-- The file of counts and values. -/
def weightsFile {α : Type*} (display : α → Text) (counts : List ℕ) (vals : List α) : Text :=
  formatList (counts.map Text.ofNat) ++ formatList (vals.map display)

def writeWeighted {α : Type*} [LinearOrder α] (display : α → Text) (hash : HashOrder α)
    (values : List α) : Text :=
  let (counts, vals) := createWeighted hash values
  weightsFile display counts vals

/-! ### Reading -/

/-- `i32::from_str`. -/
def i32FromStr (t : Text) : Option Int32 := (Text.parseInt 2147483648 t).map Int32.ofInt

/-- `u32::from_str`. -/
def u32FromStr (t : Text) : Option UInt32 := (Text.parseNat UInt32.size t).map UInt32.ofNat

/-- Why reading a weights file fails. -/
inductive WeightedParseError (E : Type)
  | panic
  | parseNum
  | weighted (e : E)
  deriving DecidableEq

/-- The common body of the two parsers, with the failure of each at a value that cannot be
read. The weights go to `new`, the constructor of `WeightedAliasIndex<u32>`. -/
def readWeights {Dist E T : Type} (atValue : WeightedParseError E)
    (new : List UInt32 → Except E Dist) (fromStr : Text → Option T) (data : Text) :
    Except (WeightedParseError E) (Dist × List T) :=
  match Text.lines data with
  | [] => .error .panic
  | weights :: rest => do
    let weights ← ((Text.fields weights).mapM u32FromStr).elim (.error .parseNum) .ok
    match rest with
    -- `expect`: the file has only one line
    | [] => .error .panic
    | vals :: _ =>
      let vals ← ((Text.fields vals).mapM fromStr).elim (.error atValue) .ok
      if weights.length ≠ vals.length then .error .panic
      else do
        let dist ← (new weights).mapError .weighted
        return (dist, vals)

/-- `parse_weights_file` of the extractor, which unwraps the values. -/
def parseWeightsFile {Dist E T : Type} (new : List UInt32 → Except E Dist)
    (fromStr : Text → Option T) (data : Text) : Except (WeightedParseError E) (Dist × List T) :=
  readWeights .panic new fromStr data

end SignalSim.SamExtractor

open SignalSim.SamExtractor in
/-- `parse_weights_file` of the generator's distributions. -/
def SignalSim.Mgen.Dists.parseWeightsFile {Dist E T : Type}
    (new : List UInt32 → Except E Dist) (fromStr : Text → Option T) (data : Text) :
    Except (WeightedParseError E) (Dist × List T) :=
  readWeights .parseNum new fromStr data

namespace SignalSim.SamExtractor

/-- `WeightedAliasIndex::new` as far as it rejects weights: there must be some, none so large
that the sum may overflow, and not all of them zero. -/
def aliasIndex (weights : List UInt32) : Except Unit (List UInt32) :=
  if weights = [] ∨ weights.any (4294967295 / weights.length < ·.toNat) ∨ weights.all (· = 0)
  then .error () else .ok weights

/-! ### What is read -/

section

variable {Dist E T : Type} {atValue : WeightedParseError E} {new : List UInt32 → Except E Dist}
  {fromStr : Text → Option T} {data : Text} {dist : Dist} {vals : List T}

theorem eq_some_of_elim {α ε : Type} {e : ε} {o : Option α} {a : α}
    (h : o.elim (.error e) .ok = (.ok a : Except ε α)) : o = some a := by
  cases o with
  | none => cases h
  | some b => exact congrArg some (Except.ok.inj h)

/-- What is in a file that is read. -/
theorem readWeights_eq_ok_iff :
    readWeights atValue new fromStr data = .ok (dist, vals) ↔
      ∃ line0 line1 rest ws, Text.lines data = line0 :: line1 :: rest ∧
        (Text.fields line0).mapM u32FromStr = some ws ∧
        (Text.fields line1).mapM fromStr = some vals ∧ ws.length = vals.length ∧
        new ws = .ok dist := by
  constructor
  · intro h
    unfold readWeights at h
    split at h
    case h_1 => cases h
    case h_2 line0 rest hlines =>
      obtain ⟨ws, hws, h⟩ := Result.bind_eq_ok h
      cases rest with
      | nil => cases h
      | cons line1 rest =>
        obtain ⟨vals', hvals, h⟩ := Result.bind_eq_ok h
        split at h
        case isTrue => cases h
        case isFalse hlen =>
          obtain ⟨dist', hnew, h⟩ := Result.bind_eq_ok h
          obtain ⟨rfl, rfl⟩ := Prod.mk.inj (Except.ok.inj h)
          exact ⟨line0, line1, rest, ws, hlines, eq_some_of_elim hws, eq_some_of_elim hvals,
            not_not.mp hlen, Result.mapError_eq_ok.mp hnew⟩
  · rintro ⟨line0, line1, rest, ws, hlines, hws, hvals, hlen, hnew⟩
    rw [readWeights, hlines]
    simp only [hws, hvals, Option.elim_some, Result.ok_bind, hlen, ne_eq, not_true_eq_false,
      if_false, hnew]
    rfl

end

section

variable {n : ℕ} {xs ys : List ℕ}

theorem toInt_of_i32FromStr {v : Int32} (h : i32FromStr (Text.ofNat n) = some v) :
    v.toInt = n := by
  obtain ⟨z, hz, rfl⟩ := Option.map_eq_some_iff.mp h
  rw [Text.parseInt_of_head (Text.head?_ofNat_ne (by decide)),
    Text.parseNat_of_head (Text.head?_ofNat_ne (by decide)), Text.parseDigits_ofNat] at hz
  obtain ⟨k, hk, rfl⟩ := Option.map_eq_some_iff.mp hz
  obtain ⟨hk, hlt⟩ := Option.filter_eq_some_iff.mp hk
  obtain rfl := Option.some_inj.mp hk
  have hlt := of_decide_eq_true hlt
  exact Int32.toInt_ofInt_of_le (by omega) (by omega)

theorem toNat_of_u32FromStr {v : UInt32} (h : u32FromStr (Text.ofNat n) = some v) :
    v.toNat = n := by
  obtain ⟨k, hk, rfl⟩ := Option.map_eq_some_iff.mp h
  rw [Text.parseNat_of_head (Text.head?_ofNat_ne (by decide)), Text.parseDigits_ofNat] at hk
  obtain ⟨hk, hlt⟩ := Option.filter_eq_some_iff.mp hk
  obtain rfl := Option.some_inj.mp hk
  exact UInt32.toNat_ofNat_of_lt' (of_decide_eq_true hlt)

/-- **Read back.** The values of a file that is read are those that were written, one by one. -/
theorem vals_of_read {Dist E T : Type} {atValue : WeightedParseError E}
    {new : List UInt32 → Except E Dist} {fromStr : Text → Option T} (hempty : fromStr [] = none)
    {dist : Dist} {vals : List T}
    (h : readWeights atValue new fromStr (weightsFile Text.ofNat xs ys) = .ok (dist, vals)) :
    List.Forall₂ (fun n v => fromStr (Text.ofNat n) = some v) ys vals := by
  have hlines : ∃ rest, Text.lines (weightsFile Text.ofNat xs ys) =
      Text.commaSeparated (xs.map Text.ofNat) :: Text.commaSeparated (ys.map Text.ofNat) ::
        rest := by
    refine ⟨Text.lines [], ?_⟩
    rw [weightsFile, ← List.append_nil (formatList (ys.map Text.ofNat)),
      lines_formatList isNumeral_ofNat, lines_formatList isNumeral_ofNat]
  obtain ⟨rest, hlines⟩ := hlines
  obtain ⟨_, _, _, _, heq, -, hvals, -, -⟩ := readWeights_eq_ok_iff.mp h
  obtain ⟨-, htail⟩ := List.cons.inj (hlines.symm.trans heq)
  obtain ⟨rfl, -⟩ := List.cons.inj htail
  rcases eq_or_ne ys [] with rfl | hne
  · -- a line without a value has one empty field
    have hfields : Text.fields (Text.commaSeparated (([] : List ℕ).map Text.ofNat)) = [[]] := rfl
    rw [hfields, List.mapM_cons, hempty] at hvals
    cases hvals
  · rw [fields_numerals isNumeral_ofNat hne] at hvals
    exact List.forall₂_map_left_iff.mp (Result.mapM_eq_some hvals)

end

/-! ### File sizes -/

/-- `uniq -c`: the lines that are not the same as the one before, and how often they come. -/
def uniqCount : List ℕ → List (ℕ × ℕ)
  | [] => []
  | x :: xs =>
    match uniqCount xs with
    | (n, y) :: rest => if x = y then (n + 1, y) :: rest else (1, x) :: (n, y) :: rest
    | [] => [(1, x)]

/-- The block count of a file, as the script computes it. -/
def sizeBlocks (size : ℕ) : ℕ := if size ≤ 112 then 1 else (size + 208) / 160

/-- `lines`, from the file lengths in the database. -/
def entries (fileLengths : List ℕ) : List (ℕ × ℕ) :=
  uniqCount (((fileLengths.filter (· ≠ 0)).insertionSort (· ≤ ·)).map sizeBlocks)

/-- What `message_sizes.sh` writes. -/
def messageSizes (fileLengths : List ℕ) : Text :=
  weightsFile Text.ofNat ((entries fileLengths).map Prod.fst)
    ((entries fileLengths).map Prod.snd)

/-- Where the entry of a file is. -/
def entryOf (fileLengths : List ℕ) (size : ℕ) : ℕ :=
  (entries fileLengths).findIdx (·.2 = sizeBlocks size)

section

variable {x size : ℕ} {xs fileLengths : List ℕ}

theorem mem_uniqCount : x ∈ (uniqCount xs).map Prod.snd ↔ x ∈ xs := by
  induction xs with
  | nil => rfl
  | cons y xs ih =>
    rw [List.mem_cons, ← ih, uniqCount]
    cases uniqCount xs with
    | nil => simp
    | cons entry rest =>
      by_cases heq : y = entry.2
      · simp [heq]
      · simp [heq]

/-- **Entries.** Every file that is not empty has an entry. -/
theorem getElem?_entryOf (hmem : size ∈ fileLengths) (hne : size ≠ 0) :
    ((entries fileLengths).map Prod.snd)[entryOf fileLengths size]? = some (sizeBlocks size) := by
  have hentry : sizeBlocks size ∈ (entries fileLengths).map Prod.snd := by
    rw [entries, mem_uniqCount]
    apply List.mem_map_of_mem
    rw [List.mem_insertionSort]
    exact List.mem_filter.mpr ⟨hmem, decide_eq_true hne⟩
  obtain ⟨entry, hentry, heq⟩ := List.mem_map.mp hentry
  have hlt : entryOf fileLengths size < (entries fileLengths).length :=
    List.findIdx_lt_length.mpr ⟨entry, hentry, decide_eq_true heq⟩
  have hfound := List.findIdx_getElem (p := fun e : ℕ × ℕ => e.2 = sizeBlocks size) (w := hlt)
  rw [List.getElem?_map, List.getElem?_eq_getElem hlt, Option.map_some]
  exact congrArg some (of_decide_eq_true hfound)

/-- A file is no longer than its blocks. -/
theorem le_sizeBlocks (size : ℕ) : size ≤ sizeBlocks size * 160 := by
  unfold sizeBlocks
  split <;> omega

end

end SignalSim.SamExtractor
