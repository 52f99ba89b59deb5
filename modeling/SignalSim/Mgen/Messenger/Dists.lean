import Mathlib.Algebra.Order.Floor.Defs
import Mathlib.Data.Rat.Floor
import SignalSim.Mgen.Messenger.State
import SignalSim.SamExtractor.WeightedFile

/-!
# Distributions

The distributions of a conversation, `messenger/dists.rs`: how they are made from a configuration,
with the errors, and how they are sampled. The families of distributions come from a library, with
rational numbers for floats.

## Main definitions

* `RandDistr` — what is used of the library, and `RandDistr.Lawful` — what it documents
* `ConfigDistributions.tryInto` — the distributions of a configuration
* `MessageDistribution.sample`, `TimingDistribution.sample`

## Main results

* `ConfigDistributions.tryInto_eq_ok_iff` — when a configuration has distributions
* `exists_readWeights_iff` — when a file of counts is read
-/

namespace SignalSim.Mgen.Dists

open SamExtractor

/-! ### The library -/

/-- A family of distributions with parameters `P` over the values `V`. -/
structure Family (P V R : Type) where
  Dist : Type
  Error : Type
  new : P → Except Error Dist
  sample : Dist → R → V × R

/-- The families, over a generator `R`. -/
structure RandDistr (R : Type) where
  poisson : Family ℚ ℚ R
  binomial : Family (UInt64 × ℚ) UInt64 R
  geometric : Family ℚ UInt64 R
  hypergeometric : Family (UInt64 × UInt64 × UInt64) UInt64 R
  bernoulli : Family ℚ Bool R
  normal : Family (ℚ × ℚ) ℚ R
  logNormal : Family (ℚ × ℚ) ℚ R
  uniform : Family (ℚ × ℚ) ℚ R
  exp : Family ℚ ℚ R
  pareto : Family (ℚ × ℚ) ℚ R
  /-- `WeightedAliasIndex<u32>`. -/
  weighted : Family (List UInt32) ℕ R

variable {R : Type}

/-- A probability is between zero and one. An index takes weights if there are some, the sum cannot
overflow and is not zero, and gives a position in them. -/
structure RandDistr.Lawful (lib : RandDistr R) : Prop where
  bernoulli_new : ∀ p, (∃ d, lib.bernoulli.new p = .ok d) ↔ 0 ≤ p ∧ p ≤ 1
  weighted_new : ∀ ws, (∃ d, lib.weighted.new ws = .ok d) ↔
    ws ≠ [] ∧ (∀ w ∈ ws, w.toNat ≤ 4294967295 / ws.length) ∧ ∃ w ∈ ws, w ≠ 0
  weighted_sample : ∀ ws d rng, lib.weighted.new ws = .ok d →
    (lib.weighted.sample d rng).1 < ws.length

/-! ### Configuration -/

inductive ConfigMessageDistribution
  | poisson (lambda : ℚ)
  | binomial (n : UInt64) (p : ℚ)
  | geometric (p : ℚ)
  | hypergeometric (totalPopulationSize populationWithFeature sampleSize : UInt64)
  | weighted (weightsFile : Text)

inductive ConfigTimingDistribution
  | normal (mean stdDev : ℚ)
  | logNormal (mean stdDev : ℚ)
  | uniform (low high : ℚ)
  | exp (lambda : ℚ)
  | pareto (scale shape : ℚ)
  | weighted (weightsFile : Text)

structure ConfigDistributions where
  m : ConfigMessageDistribution
  i : ConfigTimingDistribution
  w : ConfigTimingDistribution
  aS : ConfigTimingDistribution
  aR : ConfigTimingDistribution
  s : ℚ
  r : ℚ

/-- Why a file of weights cannot be used. -/
inductive WeightsError (E : Type)
  | io
  | parse (e : WeightedParseError E)

inductive DistParameterError (lib : RandDistr R)
  | poisson (e : lib.poisson.Error)
  | binomial (e : lib.binomial.Error)
  | geometric (e : lib.geometric.Error)
  | hypergeometric (e : lib.hypergeometric.Error)
  | bernoulli (e : lib.bernoulli.Error)
  | normal (e : lib.normal.Error)
  | logNormal (e : lib.logNormal.Error)
  | uniform
  /-- `Uniform::new` panics. -/
  | uniformPanic (e : lib.uniform.Error)
  | exp (e : lib.exp.Error)
  | pareto (e : lib.pareto.Error)
  | weightedParseError (e : WeightsError lib.weighted.Error)

/-! ### Distributions -/

inductive MessageDistribution (lib : RandDistr R)
  | poisson (d : lib.poisson.Dist)
  | binomial (d : lib.binomial.Dist)
  | geometric (d : lib.geometric.Dist)
  | hypergeometric (d : lib.hypergeometric.Dist)
  | weighted (d : lib.weighted.Dist) (v : List UInt32)

inductive TimingDistribution (lib : RandDistr R)
  | normal (d : lib.normal.Dist)
  | logNormal (d : lib.logNormal.Dist)
  | uniform (d : lib.uniform.Dist)
  | exp (d : lib.exp.Dist)
  | pareto (d : lib.pareto.Dist)
  | weighted (d : lib.weighted.Dist) (v : List ℚ)

structure Distributions (lib : RandDistr R) where
  m : MessageDistribution lib
  i : TimingDistribution lib
  w : TimingDistribution lib
  aS : TimingDistribution lib
  aR : TimingDistribution lib
  s : lib.bernoulli.Dist
  r : lib.bernoulli.Dist

section TryInto

variable (lib : RandDistr R) (files : Text → Option Text) (f64FromStr : Text → Option ℚ)

/-- `parse_weights_file`, from the name of the file. -/
def loadWeights {T : Type} (fromStr : Text → Option T) (path : Text) :
    Except (WeightsError lib.weighted.Error) (lib.weighted.Dist × List T) := do
  let data ← (files path).elim (.error .io) .ok
  (parseWeightsFile lib.weighted.new fromStr data).mapError .parse

def ConfigMessageDistribution.tryInto :
    ConfigMessageDistribution → Except (DistParameterError lib) (MessageDistribution lib)
  | poisson lambda => ((lib.poisson.new lambda).mapError .poisson).map .poisson
  | binomial n p => ((lib.binomial.new (n, p)).mapError .binomial).map .binomial
  | geometric p => ((lib.geometric.new p).mapError .geometric).map .geometric
  | hypergeometric total feature sampleSize =>
    ((lib.hypergeometric.new (total, feature, sampleSize)).mapError .hypergeometric).map
      .hypergeometric
  | weighted weightsFile =>
    ((loadWeights lib files u32FromStr weightsFile).mapError .weightedParseError).map fun p =>
      .weighted p.1 p.2

def ConfigTimingDistribution.tryInto :
    ConfigTimingDistribution → Except (DistParameterError lib) (TimingDistribution lib)
  | normal mean stdDev => ((lib.normal.new (mean, stdDev)).mapError .normal).map .normal
  | logNormal mean stdDev => ((lib.logNormal.new (mean, stdDev)).mapError .logNormal).map .logNormal
  | uniform low high =>
    if low ≥ high then .error .uniform
    else ((lib.uniform.new (low, high)).mapError .uniformPanic).map .uniform
  | exp lambda => ((lib.exp.new lambda).mapError .exp).map .exp
  | pareto scale shape => ((lib.pareto.new (scale, shape)).mapError .pareto).map .pareto
  | weighted weightsFile =>
    ((loadWeights lib files f64FromStr weightsFile).mapError .weightedParseError).map fun p =>
      .weighted p.1 p.2

def ConfigDistributions.tryInto (config : ConfigDistributions) :
    Except (DistParameterError lib) (Distributions lib) := do
  let m ← config.m.tryInto lib files
  let i ← config.i.tryInto lib files f64FromStr
  let w ← config.w.tryInto lib files f64FromStr
  let aS ← config.aS.tryInto lib files f64FromStr
  let aR ← config.aR.tryInto lib files f64FromStr
  let s ← (lib.bernoulli.new config.s).mapError .bernoulli
  let r ← (lib.bernoulli.new config.r).mapError .bernoulli
  return { m, i, w, aS, aR, s, r }

variable {lib files f64FromStr} {config : ConfigDistributions} {dists : Distributions lib}

/-- All fields are made. -/
theorem ConfigDistributions.tryInto_eq_ok_iff :
    config.tryInto lib files f64FromStr = .ok dists ↔
      config.m.tryInto lib files = .ok dists.m ∧
      config.i.tryInto lib files f64FromStr = .ok dists.i ∧
      config.w.tryInto lib files f64FromStr = .ok dists.w ∧
      config.aS.tryInto lib files f64FromStr = .ok dists.aS ∧
      config.aR.tryInto lib files f64FromStr = .ok dists.aR ∧
      lib.bernoulli.new config.s = .ok dists.s ∧ lib.bernoulli.new config.r = .ok dists.r := by
  constructor
  · intro h
    obtain ⟨m, hm, h⟩ := Result.bind_eq_ok h
    obtain ⟨i, hi, h⟩ := Result.bind_eq_ok h
    obtain ⟨w, hw, h⟩ := Result.bind_eq_ok h
    obtain ⟨aS, haS, h⟩ := Result.bind_eq_ok h
    obtain ⟨aR, haR, h⟩ := Result.bind_eq_ok h
    obtain ⟨s, hs, h⟩ := Result.bind_eq_ok h
    obtain ⟨r, hr, h⟩ := Result.bind_eq_ok h
    obtain rfl := Except.ok.inj h
    exact ⟨hm, hi, hw, haS, haR, Result.mapError_eq_ok.mp hs, Result.mapError_eq_ok.mp hr⟩
  · rintro ⟨hm, hi, hw, haS, haR, hs, hr⟩
    simp only [tryInto, hm, hi, hw, haS, haR, hs, hr, Result.ok_bind, Except.mapError]
    rfl

end TryInto

/-! ### Sampling -/

variable {lib : RandDistr R}

/-- A float `as u64`. -/
def asU64 (x : ℚ) : UInt64 := UInt64.ofNat (min ⌊x⌋.toNat 18446744073709551615)

/-- The blocks of a message, at most as many as a body can have. -/
def capSample (ret : UInt64) : UInt32 :=
  if ret ≤ maxBlocksInBody.toUInt64 then ret.toUInt32 else maxBlocksInBody

@[simp] theorem toNat_capSample (ret : UInt64) :
    (capSample ret).toNat = min ret.toNat maxBlocksInBody.toNat := by
  have hle : ret ≤ maxBlocksInBody.toUInt64 ↔ ret.toNat ≤ maxBlocksInBody.toNat := by
    rw [UInt64.le_iff_toNat_le, UInt32.toNat_toUInt64]
  have hmax := maxBlocksInBody.toNat_lt
  rw [capSample, apply_ite UInt32.toNat, UInt64.toNat_toUInt32]
  simp only [hle]
  split <;> omega

/-- `sample`; `none` is an index that is out of bounds. -/
def MessageDistribution.sample (rng : R) :
    MessageDistribution lib → Option (UInt32 × R)
  | poisson d =>
    let (ret, rng) := lib.poisson.sample d rng
    some (capSample (asU64 ret), rng)
  | binomial d =>
    let (ret, rng) := lib.binomial.sample d rng
    some (capSample ret, rng)
  | geometric d =>
    let (ret, rng) := lib.geometric.sample d rng
    some (capSample ret, rng)
  | hypergeometric d =>
    let (ret, rng) := lib.hypergeometric.sample d rng
    some (capSample ret, rng)
  | weighted d v =>
    let (idx, rng) := lib.weighted.sample d rng
    (v[idx]?).map fun ret => (capSample ret.toUInt64, rng)

/-- `sample`, in seconds; `none` is an index that is out of bounds. -/
def TimingDistribution.sample (rng : R) : TimingDistribution lib → Option (ℚ × R)
  | normal d =>
    let (ret, rng) := lib.normal.sample d rng
    some (max ret 0, rng)
  | logNormal d =>
    let (ret, rng) := lib.logNormal.sample d rng
    some (max ret 0, rng)
  | uniform d =>
    let (ret, rng) := lib.uniform.sample d rng
    some (max ret 0, rng)
  | exp d =>
    let (ret, rng) := lib.exp.sample d rng
    some (max ret 0, rng)
  | pareto d =>
    let (ret, rng) := lib.pareto.sample d rng
    some (max ret 0, rng)
  | weighted d v =>
    let (idx, rng) := lib.weighted.sample d rng
    (v[idx]?).map fun ret => (max ret 0, rng)

theorem MessageDistribution.sample_weighted (d : lib.weighted.Dist) (v : List UInt32) (rng : R) :
    (weighted d v).sample rng = (v[(lib.weighted.sample d rng).1]?).map fun ret =>
      (capSample ret.toUInt64, (lib.weighted.sample d rng).2) := rfl

theorem TimingDistribution.sample_weighted (d : lib.weighted.Dist) (v : List ℚ) (rng : R) :
    (weighted d v).sample rng = (v[(lib.weighted.sample d rng).1]?).map fun ret =>
      (max ret 0, (lib.weighted.sample d rng).2) := rfl

/-! ### Files of weights -/

section Files

variable {Dist E T : Type} {new : List UInt32 → Except E Dist} {fromStr : Text → Option T}
  {atValue : WeightedParseError E} {data : Text} {dist : Dist} {vals : List T}

theorem u32FromStr_eq (c : ℕ) :
    u32FromStr (Text.ofNat c) = if c < UInt32.size then some (UInt32.ofNat c) else none := by
  rw [u32FromStr, Text.parseNat_of_head (Text.head?_ofNat_ne (by decide)), Text.parseDigits_ofNat]
  by_cases h : c < UInt32.size <;> simp [Option.filter, h]

theorem mapM_u32FromStr_eq_some_iff {counts : List ℕ} {ws : List UInt32} :
    (counts.map Text.ofNat).mapM u32FromStr = some ws ↔
      (∀ c ∈ counts, c < UInt32.size) ∧ ws = counts.map UInt32.ofNat := by
  have hread (hsmall : ∀ c ∈ counts, c < UInt32.size) :
      (counts.map Text.ofNat).mapM u32FromStr = some (counts.map UInt32.ofNat) :=
    Result.mapM_map_eq_some_map fun c hc => by rw [u32FromStr_eq, if_pos (hsmall c hc)]
  constructor
  · intro h
    have hall := List.forall₂_map_left_iff.mp (Result.mapM_eq_some h)
    have hsmall : ∀ c ∈ counts, c < UInt32.size := by
      intro c hc
      obtain ⟨w, -, hw⟩ := Result.exists_of_mem_left hall hc
      rw [u32FromStr_eq] at hw
      exact (Option.ite_none_right_eq_some.mp hw).1
    exact ⟨hsmall, Option.some_inj.mp (h.symm.trans (hread hsmall))⟩
  · rintro ⟨hsmall, rfl⟩
    exact hread hsmall

/-- The file of a list of values with their counts is read if the counts are small enough, the
values can be read and the index takes the counts. -/
theorem readWeights_formatList {counts : List ℕ} {items : List ℤ} (hitems : items ≠ [])
    (hlen : counts.length = items.length) :
    readWeights atValue new fromStr
        (formatList (counts.map Text.ofNat) ++ formatList (items.map Text.ofInt)) =
          .ok (dist, vals) ↔
      (∀ c ∈ counts, c < UInt32.size) ∧ (items.map Text.ofInt).mapM fromStr = some vals ∧
        new (counts.map UInt32.ofNat) = .ok dist := by
  have hcounts : counts ≠ [] := by
    refine List.ne_nil_of_length_pos ?_
    rw [hlen]
    exact List.length_pos_of_ne_nil hitems
  have hlines :
      Text.lines (formatList (counts.map Text.ofNat) ++ formatList (items.map Text.ofInt)) =
        [Text.commaSeparated (counts.map Text.ofNat),
          Text.commaSeparated (items.map Text.ofInt)] := by
    rw [lines_formatList isNumeral_ofNat, ← List.append_nil (formatList (items.map Text.ofInt)),
      lines_formatList isNumeral_ofInt]
    rfl
  rw [readWeights_eq_ok_iff, hlines]
  constructor
  · rintro ⟨line0, line1, rest, ws, heq, hws, hvals, -, hnew⟩
    obtain ⟨rfl, htail⟩ := List.cons.inj heq
    obtain ⟨rfl, -⟩ := List.cons.inj htail
    rw [fields_numerals isNumeral_ofNat hcounts] at hws
    rw [fields_numerals isNumeral_ofInt hitems] at hvals
    obtain ⟨hsmall, rfl⟩ := mapM_u32FromStr_eq_some_iff.mp hws
    exact ⟨hsmall, hvals, hnew⟩
  · rintro ⟨hsmall, hvals, hnew⟩
    refine ⟨_, _, _, _, rfl, ?_, ?_, ?_, hnew⟩
    · rw [fields_numerals isNumeral_ofNat hcounts]
      exact mapM_u32FromStr_eq_some_iff.mpr ⟨hsmall, rfl⟩
    · rwa [fields_numerals isNumeral_ofInt hitems]
    · rw [List.length_map, hlen, ← (Result.mapM_eq_some hvals).length_eq, List.length_map]

/-- The index takes the counts of the different values. -/
def Fits {α : Type} [LinearOrder α] (values : List α) : Prop :=
  ∀ v ∈ values, values.count v * (sortedValues values).length ≤ 4294967295

theorem sortedValues_ne_nil {α : Type} [LinearOrder α] {values : List α} (h : values ≠ []) :
    sortedValues values ≠ [] := by
  obtain ⟨v, hv⟩ := List.exists_mem_of_ne_nil values h
  exact List.ne_nil_of_mem (mem_sortedValues.mpr hv)

/-- The weights are the counts, and no count is zero. -/
theorem exists_new_iff {lib : RandDistr R} (hlib : lib.Lawful) {α : Type} [LinearOrder α]
    {values : List α} (hne : values ≠ []) :
    ((∀ c ∈ (sortedValues values).map (values.count ·), c < UInt32.size) ∧
      ∃ d, lib.weighted.new (((sortedValues values).map (values.count ·)).map UInt32.ofNat) =
        .ok d) ↔ Fits values := by
  have hpos := List.length_pos_of_ne_nil (sortedValues_ne_nil hne)
  rw [hlib.weighted_new, List.map_map, List.length_map]
  simp only [List.forall_mem_map, mem_sortedValues, Function.comp_apply]
  constructor
  · rintro ⟨hsmall, -, hle, -⟩ v hv
    have hv' := hle v hv
    rwa [UInt32.toNat_ofNat_of_lt' (hsmall v hv), Nat.le_div_iff_mul_le hpos] at hv'
  · intro hfits
    have hsmall : ∀ v ∈ values, values.count v < UInt32.size := fun v hv =>
      Nat.lt_of_le_of_lt ((Nat.le_mul_of_pos_right _ hpos).trans (hfits v hv)) (by decide)
    refine ⟨hsmall, by simpa using sortedValues_ne_nil hne, fun v hv => ?_, ?_⟩
    · rw [UInt32.toNat_ofNat_of_lt' (hsmall v hv), Nat.le_div_iff_mul_le hpos]
      exact hfits v hv
    · obtain ⟨v, hv⟩ := List.exists_mem_of_ne_nil values hne
      refine ⟨_, List.mem_map_of_mem (mem_sortedValues.mpr hv), fun hzero => ?_⟩
      have hcount := congrArg UInt32.toNat hzero
      rw [Function.comp_apply, UInt32.toNat_ofNat_of_lt' (hsmall v hv)] at hcount
      exact (List.count_pos_iff.mpr hv).ne' hcount

/-- The file of the counts of some values is read exactly if the values can be read and their
counts fit. -/
theorem exists_readWeights_iff {lib : RandDistr R} (hlib : lib.Lawful) {α : Type} [LinearOrder α]
    {values : List α} (hne : values ≠ []) (toInt : α → ℤ)
    {atValue : WeightedParseError lib.weighted.Error} :
    (∃ p, readWeights atValue lib.weighted.new fromStr
      (formatList (((sortedValues values).map (values.count ·)).map Text.ofNat) ++
        formatList (((sortedValues values).map toInt).map Text.ofInt)) = .ok p) ↔
      (∀ v ∈ values, (fromStr (Text.ofInt (toInt v))).isSome) ∧ Fits values := by
  have hitems : (sortedValues values).map toInt ≠ [] := by simpa using sortedValues_ne_nil hne
  have hlen : ((sortedValues values).map (values.count ·)).length =
      ((sortedValues values).map toInt).length := by rw [List.length_map, List.length_map]
  have hread : (∃ vals, (((sortedValues values).map toInt).map Text.ofInt).mapM fromStr =
      some vals) ↔ ∀ v ∈ values, (fromStr (Text.ofInt (toInt v))).isSome := by
    simp only [Result.exists_mapM_iff, List.forall_mem_map, mem_sortedValues]
  rw [← hread, ← exists_new_iff hlib hne, Prod.exists]
  simp only [readWeights_formatList hitems hlen]
  constructor
  · rintro ⟨d, vals, hsmall, hvals, hnew⟩
    exact ⟨⟨vals, hvals⟩, hsmall, d, hnew⟩
  · rintro ⟨⟨vals, hvals⟩, hsmall, d, hnew⟩
    exact ⟨d, vals, hsmall, hvals, hnew⟩

end Files

/-! ### What is sampled -/

section Sampled

variable {lib : RandDistr R} {files : Text → Option Text} {f64FromStr : Text → Option ℚ}

/-- A position that the index of a file gives is one of a value. -/
theorem getElem?_isSome_of_loadWeights (hlib : lib.Lawful) {T : Type} {fromStr : Text → Option T}
    {path : Text} {p : lib.weighted.Dist × List T}
    (h : loadWeights lib files fromStr path = .ok p) (rng : R) :
    ∃ v ∈ p.2, p.2[(lib.weighted.sample p.1 rng).1]? = some v := by
  obtain ⟨data, -, h⟩ := Result.bind_eq_ok h
  obtain ⟨_, _, _, ws, -, -, -, hlen, hnew⟩ :=
    readWeights_eq_ok_iff.mp (Result.mapError_eq_ok.mp h)
  have hlt := hlib.weighted_sample ws p.1 rng hnew
  rw [hlen] at hlt
  exact ⟨_, List.getElem_mem hlt, List.getElem?_eq_getElem hlt⟩

theorem loadWeights_eq {T : Type} {fromStr : Text → Option T} {path data : Text}
    (hfile : files path = some data) : loadWeights lib files fromStr path =
      (parseWeightsFile lib.weighted.new fromStr data).mapError .parse := by
  rw [loadWeights, hfile]
  rfl

/-- What is read of the file of some values are these values. -/
theorem exists_of_loadWeights {T : Type} {fromStr : Text → Option T} {path : Text}
    {counts : List ℕ} {items : List ℤ} (hitems : items ≠ []) (hlen : counts.length = items.length)
    (hfile : files path = some
      (formatList (counts.map Text.ofNat) ++ formatList (items.map Text.ofInt)))
    {p : lib.weighted.Dist × List T} (h : loadWeights lib files fromStr path = .ok p) :
    ∀ y ∈ p.2, ∃ v ∈ items, fromStr (Text.ofInt v) = some y := by
  rw [loadWeights_eq hfile, Result.mapError_eq_ok] at h
  obtain ⟨-, hvals, -⟩ := (readWeights_formatList hitems hlen).mp h
  intro y hy
  obtain ⟨v, hv, hread⟩ := Result.exists_of_mem_right
    (List.forall₂_map_left_iff.mp (Result.mapM_eq_some hvals)) hy
  exact ⟨v, hv, hread⟩

end Sampled

end SignalSim.Mgen.Dists
