import SignalSim.SamExtractor.Weights

/-!
# Files of weighted values, from the table to the parsers

What `write_weighted` makes of values of any sign, and what the two functions that read its files
make of that.

## Main definitions

* `RepresentsMultiset` — weights and values as the multiset of a list

## Main results

* `writeWeighted_perm` — the file does not depend on the order of the values
* `parsers_represent` — what either parser makes of a file represents the values
-/

namespace SignalSim.SamExtractor

/-- Weights and values are those of the multiset of a list: each different value once and in
order, with the number of its occurrences. -/
structure RepresentsMultiset (values : List ℤ) (weights : List UInt32) (vals : List ℤ) :
    Prop where
  length_eq : weights.length = vals.length
  increasing : vals.Pairwise (· < ·)
  mem_iff : ∀ v, v ∈ vals ↔ v ∈ values
  weight_eq : ∀ (i : ℕ) (w : UInt32) (v : ℤ), weights[i]? = some w → vals[i]? = some v →
    w.toNat = values.count v

variable {hash : HashOrder ℤ} {values : List ℤ}

/-- **The order of the values.** It has no part in the file, nor has that of the hash map. -/
theorem writeWeighted_perm {values' : List ℤ} (h : values'.Perm values) (hash' : HashOrder ℤ) :
    writeWeighted Text.ofInt hash' values' = writeWeighted Text.ofInt hash values := by
  have hcount : (sortedValues values).map (values'.count ·) =
      (sortedValues values).map (values.count ·) :=
    List.map_congr_left fun v _ => h.count_eq v
  simp only [writeWeighted, createWeighted_eq, sortedValues_perm h, hcount]

theorem u32FromStr_ofNat (w : UInt32) : u32FromStr (Text.ofNat w.toNat) = some w := by
  rw [u32FromStr, Text.parseNat_ofNat w.toNat_lt_size, Option.map_some, UInt32.ofNat_toNat]

section Parsers

variable {Dist E T : Type} {new : List UInt32 → Except E Dist} {fromStr : Text → Option T}
  {value : T → ℤ} {weights : List UInt32} {counts : List ℕ} {items : List ℤ}

/-- Two lines of numerals are read number by number, and the weights are up to `new`. -/
theorem readWeights_eq {vals : List T} (hitems : items ≠ [])
    (hlen : weights.length = items.length)
    (hvals : (items.map Text.ofInt).mapM fromStr = some vals)
    (hback : vals.map value = items) (atValue : WeightedParseError E) :
    readWeights atValue new fromStr (formatList ((weights.map UInt32.toNat).map Text.ofNat) ++
      formatList (items.map Text.ofInt)) =
        ((new weights).mapError .weighted).map fun dist => (dist, vals) := by
  have hweights : ((weights.map UInt32.toNat).map Text.ofNat).mapM u32FromStr =
      some weights := by
    rw [List.map_map]
    refine (Result.mapM_map_eq_some_map fun w _ => u32FromStr_ofNat w).trans ?_
    rw [List.map_id']
  have hne : weights.map UInt32.toNat ≠ [] := by
    refine List.ne_nil_of_length_pos ?_
    rw [List.length_map, hlen]
    exact List.length_pos_of_ne_nil hitems
  have hsame : ¬ weights.length ≠ vals.length := by
    rw [hlen, ← hback, List.length_map]
    exact fun h => h rfl
  have hlast : Text.lines (formatList (items.map Text.ofInt)) =
      Text.commaSeparated (items.map Text.ofInt) :: Text.lines [] := by
    rw [← lines_formatList isNumeral_ofInt, List.append_nil]
  rw [readWeights, lines_formatList isNumeral_ofNat, hlast]
  simp only [fields_numerals isNumeral_ofNat hne, fields_numerals isNumeral_ofInt hitems,
    hweights, hvals, Option.elim_some]
  change (if weights.length ≠ vals.length then .error WeightedParseError.panic
    else (new weights).mapError WeightedParseError.weighted >>= fun dist => pure (dist, vals)) = _
  rw [if_neg hsame]
  cases new weights with
  | error e => rfl
  | ok dist => rfl

/-- **Weights files.** What either parser makes of the file of a list of values represents the
list, if the value type can stand for them and the distribution takes the weights; and the
list in any other order has the same file. -/
theorem parsers_represent (hne : values ≠ [])
    (hread : ∀ v ∈ values, (fromStr (Text.ofInt v)).map value = some v)
    (hweights : weights.map UInt32.toNat = (createWeighted hash values).1) {dist : Dist}
    (hnew : new weights = .ok dist) :
    (∃ vals, parseWeightsFile new fromStr (writeWeighted Text.ofInt hash values) =
        .ok (dist, vals) ∧
      Mgen.Dists.parseWeightsFile new fromStr (writeWeighted Text.ofInt hash values) =
        .ok (dist, vals) ∧
      RepresentsMultiset values weights (vals.map value)) ∧
    ∀ (hash' : HashOrder ℤ) (values' : List ℤ), values'.Perm values →
      writeWeighted Text.ofInt hash' values' = writeWeighted Text.ofInt hash values := by
  rw [createWeighted_eq] at hweights
  have hitems : sortedValues values ≠ [] := by
    obtain ⟨v, hv⟩ := List.exists_mem_of_ne_nil values hne
    exact List.ne_nil_of_mem (mem_sortedValues.mpr hv)
  have hlen : weights.length = (sortedValues values).length := by
    rw [← List.length_map UInt32.toNat, hweights, List.length_map]
  obtain ⟨vals, hvals, hback⟩ := Option.map_eq_some_iff.mp
    (mapM_map_eq_some (f := Text.ofInt) (g := fromStr) (h := value)
      fun v hv => hread v (mem_sortedValues.mp hv))
  have hfile : writeWeighted Text.ofInt hash values =
      formatList ((weights.map UInt32.toNat).map Text.ofNat) ++
        formatList ((sortedValues values).map Text.ofInt) := by
    rw [hweights, writeWeighted, createWeighted_eq]
    rfl
  have hparse : ∀ atValue : WeightedParseError E,
      readWeights atValue new fromStr (writeWeighted Text.ofInt hash values) =
        .ok (dist, vals) := by
    intro atValue
    rw [hfile, readWeights_eq hitems hlen hvals hback atValue, hnew]
    rfl
  refine ⟨⟨vals, hparse .panic, hparse .parseNum, ?_⟩, fun hash' values' h =>
    writeWeighted_perm h hash'⟩
  rw [hback]
  constructor
  case length_eq => exact hlen
  case increasing => exact sortedValues_pairwise values
  case mem_iff => exact fun v => mem_sortedValues
  case weight_eq =>
    intro i w v hw hv
    have hi := congrArg (·[i]?) hweights
    simp only [List.getElem?_map, hw, hv, Option.map_some, Option.some_inj] at hi
    exact hi

end Parsers

theorem i32FromStr_ofInt {v : ℤ} (hlow : -2147483648 ≤ v) (hhigh : v < 2147483648) :
    (i32FromStr (Text.ofInt v)).map Int32.toInt = some v := by
  rw [i32FromStr, Text.parseInt_ofInt hlow hhigh, Option.map_some, Option.map_some,
    Int32.toInt_ofInt_of_le hlow (by omega)]

/-- Three values, one of them negative and one twice. -/
theorem parsers_represent_three :
    (∃ vals, parseWeightsFile aliasIndex i32FromStr
        (writeWeighted Text.ofInt ⟨List.reverse, List.reverse_perm⟩ [30, -1, 30]) =
        .ok ([1, 2], vals) ∧
      Mgen.Dists.parseWeightsFile aliasIndex i32FromStr
        (writeWeighted Text.ofInt ⟨List.reverse, List.reverse_perm⟩ [30, -1, 30]) =
        .ok ([1, 2], vals) ∧
      RepresentsMultiset [30, -1, 30] [1, 2] (vals.map Int32.toInt)) ∧
    ∀ (hash' : HashOrder ℤ) (values' : List ℤ), values'.Perm [30, -1, 30] →
      writeWeighted Text.ofInt hash' values' =
        writeWeighted Text.ofInt ⟨List.reverse, List.reverse_perm⟩ [30, -1, 30] := by
  refine parsers_represent (by decide) (fun v hv => ?_) (by decide) (by rfl)
  have hrange : -2147483648 ≤ v ∧ v < 2147483648 := by
    simp only [List.mem_cons, List.not_mem_nil, or_false] at hv
    omega
  exact i32FromStr_ofInt hrange.1 hrange.2

end SignalSim.SamExtractor
