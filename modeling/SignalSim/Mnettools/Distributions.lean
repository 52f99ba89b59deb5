import SignalSim.Mgen.Messenger.Dists
import SignalSim.SamExtractor.Rates

/-!
# The distributions of a user

`process.rs` and `message-lens.rs` write what they find out about a user into the user's directory.
`User.save` names the files in the configuration of a simulated user, and the messenger makes its
distributions of them.

## Main definitions

* `userFiles` — the files of a user
* `saveDistributions` — the distributions in a configuration

## Main results

* `fitted_loads` — when the messenger accepts what was written, and what it samples then
-/

namespace SignalSim.Mnettools

open SamExtractor Mgen.Dists

/-- A file in the directory of a user. -/
def distFile (distsPath name : Text) : Text := distsPath ++ '/' :: (name ++ ".dat".toList)

/-- The lists of times, with the names of their files. -/
def timeLists (fitted : Fitted) : List (Text × List ℤ) :=
  [(['I'], fitted.idleDist), (['W'], fitted.activeDist), (['A', 's'], fitted.aSDist),
    (['A', 'r'], fitted.aRDist)]

/-- The files of weights of a user, with the block counts of the messages. -/
def userFiles (sizesHash : HashOrder ℕ) (hash : HashOrder ℤ) (distsPath : Text) (sizes : List ℕ)
    (fitted : Fitted) : List (Text × Text) :=
  (distFile distsPath "sizes".toList, writeWeighted Text.ofNat sizesHash sizes) ::
    (timeLists fitted).map fun p => (distFile distsPath p.1, writeWeighted Text.ofInt hash p.2)

/-- `distributions` of the configuration, with the contents of `S.dat` and `R.dat`. -/
def saveDistributions (distsPath : Text) (s r : ℚ) : ConfigDistributions where
  m := .weighted (distFile distsPath "sizes".toList)
  i := .weighted (distFile distsPath ['I'])
  w := .weighted (distFile distsPath ['W'])
  aS := .weighted (distFile distsPath ['A', 's'])
  aR := .weighted (distFile distsPath ['A', 'r'])
  s := s
  r := r

/-! ### The rates and the lists -/

section Fit

variable {labeled : List LabeledMessage} {idle : ℕ} {fitted : Fitted}

/-- The fraction of transitions is a probability. -/
theorem sProb_mem (h : fit labeled idle = some fitted) : 0 ≤ fitted.sProb ∧ fitted.sProb ≤ 1 := by
  obtain ⟨-, h⟩ := Option.ite_none_right_eq_some.mp h
  rw [← Option.some_inj.mp h]
  dsimp only
  unfold sendTransitionFrac
  dsimp only
  split
  case isTrue => exact ⟨le_rfl, zero_le_one⟩
  case isFalse hne =>
    have hpos : (0 : ℚ) < (labeled.countP fun m => m.idleSent : ℕ) :=
      Nat.cast_pos.mpr (Nat.pos_of_ne_zero hne)
    have hle : (labeled.countP fun m => m.idleSent && m.state = .active) ≤
        labeled.countP fun m => m.idleSent :=
      List.countP_mono_left fun m _ hm => ((Bool.and_eq_true _ _).mp hm).1
    refine ⟨div_nonneg (Nat.cast_nonneg _) hpos.le, ?_⟩
    rw [Option.getD_some, div_le_one hpos]
    exact Nat.cast_le.mpr hle

/-- No list of times is empty. -/
theorem timeLists_ne_nil (h : fit labeled idle = some fitted) :
    ∀ p ∈ timeLists fitted, p.2 ≠ [] := by
  have hdefault : ∀ (dist : List ℤ) (default : ℤ), orDefault dist default ≠ [] := by
    intro dist default
    unfold orDefault
    split
    · assumption
    · exact List.cons_ne_nil _ _
  obtain ⟨-, h⟩ := Option.ite_none_right_eq_some.mp h
  rw [← Option.some_inj.mp h]
  simp [timeLists, hdefault]

end Fit

/-! ### Loading -/

section Load

variable {R : Type} {lib : Mgen.Dists.RandDistr R} {files : Text → Option Text}
  {f64FromStr : Text → Option ℚ} {sizesHash : HashOrder ℕ} {hash : HashOrder ℤ} {path : Text}

/-- Every sample is one of the times, with zero for negative ones. -/
def SamplesTimes (d : TimingDistribution lib) (values : List ℤ) : Prop :=
  ∀ rng, ∃ t ∈ values, (d.sample rng).map Prod.fst = some (max (t : ℚ) 0)

/-- Every sample is one of the sizes, or the largest one that a body can have. -/
def SamplesSizes (d : MessageDistribution lib) (sizes : List ℕ) : Prop :=
  ∀ rng, ∃ n ∈ sizes, (d.sample rng).map (·.1.toNat) = some (min n Mgen.maxBlocksInBody.toNat)

theorem writeWeighted_times (values : List ℤ) : writeWeighted Text.ofInt hash values =
    formatList (((sortedValues values).map (values.count ·)).map Text.ofNat) ++
      formatList (((sortedValues values).map id).map Text.ofInt) := by
  rw [writeWeighted, createWeighted_eq, List.map_id]
  rfl

theorem writeWeighted_sizes (sizes : List ℕ) : writeWeighted Text.ofNat sizesHash sizes =
    formatList (((sortedValues sizes).map (sizes.count ·)).map Text.ofNat) ++
      formatList (((sortedValues sizes).map fun n : ℕ => (n : ℤ)).map Text.ofInt) := by
  have hitems : ((sortedValues sizes).map fun n : ℕ => (n : ℤ)).map Text.ofInt =
      (sortedValues sizes).map Text.ofNat := by
    rw [List.map_map]
    rfl
  rw [hitems, writeWeighted, createWeighted_eq]
  rfl

/-- Loading a file of times. -/
theorem exists_tryInto_times_iff (hlib : lib.Lawful) {values : List ℤ} (hne : values ≠ [])
    (hfloat : ∀ v ∈ values, f64FromStr (Text.ofInt v) = some (v : ℚ))
    (hfile : files path = some (writeWeighted Text.ofInt hash values)) :
    (∃ d, (ConfigTimingDistribution.weighted path).tryInto lib files f64FromStr = .ok d) ↔
      Fits values := by
  have hall : ∀ v ∈ values, (f64FromStr (Text.ofInt (id v))).isSome := by
    intro v hv
    rw [id_eq, hfloat v hv]
    rfl
  rw [ConfigTimingDistribution.tryInto, Result.exists_map_mapError_iff, loadWeights_eq hfile,
    writeWeighted_times]
  simp only [Result.mapError_eq_ok]
  exact (exists_readWeights_iff hlib hne id).trans (and_iff_right hall)

/-- A sample of a file of times is one of them, or zero. -/
theorem samplesTimes_of_tryInto (hlib : lib.Lawful) {values : List ℤ} (hne : values ≠ [])
    (hfloat : ∀ v ∈ values, f64FromStr (Text.ofInt v) = some (v : ℚ))
    (hfile : files path = some (writeWeighted Text.ofInt hash values))
    {d : TimingDistribution lib}
    (h : (ConfigTimingDistribution.weighted path).tryInto lib files f64FromStr = .ok d) :
    SamplesTimes d values := by
  intro rng
  obtain ⟨p, hp, rfl⟩ := Result.map_eq_ok h
  have hp := Result.mapError_eq_ok.mp hp
  obtain ⟨y, hy, hget⟩ := getElem?_isSome_of_loadWeights hlib hp rng
  rw [writeWeighted_times] at hfile
  obtain ⟨v, hv, hread⟩ := exists_of_loadWeights (by simpa using sortedValues_ne_nil hne)
    (by simp) hfile hp y hy
  rw [List.map_id, mem_sortedValues] at hv
  rw [hfloat v hv] at hread
  refine ⟨v, hv, ?_⟩
  rw [TimingDistribution.sample_weighted, hget, ← Option.some_inj.mp hread]
  rfl

/-- Loading the file of sizes. -/
theorem exists_tryInto_sizes_iff (hlib : lib.Lawful) {sizes : List ℕ} (hne : sizes ≠ [])
    (hfile : files path = some (writeWeighted Text.ofNat sizesHash sizes)) :
    (∃ d, (ConfigMessageDistribution.weighted path).tryInto lib files = .ok d) ↔
      (∀ n ∈ sizes, n < UInt32.size) ∧ Fits sizes := by
  have hread : ∀ n : ℕ, (u32FromStr (Text.ofInt n)).isSome ↔ n < UInt32.size := by
    intro n
    have hn : Text.ofInt n = Text.ofNat n := rfl
    rw [hn, u32FromStr_eq]
    split <;> simp_all
  rw [ConfigMessageDistribution.tryInto, Result.exists_map_mapError_iff, loadWeights_eq hfile,
    writeWeighted_sizes]
  simp only [Result.mapError_eq_ok]
  refine (exists_readWeights_iff hlib hne fun n : ℕ => (n : ℤ)).trans ?_
  simp only [hread]

/-- A sample of the file of sizes is one of them, or the largest size there is. -/
theorem samplesSizes_of_tryInto (hlib : lib.Lawful) {sizes : List ℕ} (hne : sizes ≠ [])
    (hfile : files path = some (writeWeighted Text.ofNat sizesHash sizes))
    {d : MessageDistribution lib}
    (h : (ConfigMessageDistribution.weighted path).tryInto lib files = .ok d) :
    SamplesSizes d sizes := by
  intro rng
  obtain ⟨p, hp, rfl⟩ := Result.map_eq_ok h
  have hp := Result.mapError_eq_ok.mp hp
  obtain ⟨y, hy, hget⟩ := getElem?_isSome_of_loadWeights hlib hp rng
  rw [writeWeighted_sizes] at hfile
  obtain ⟨v, hv, hread⟩ := exists_of_loadWeights (by simpa using sortedValues_ne_nil hne)
    (by simp) hfile hp y hy
  obtain ⟨n, hn, rfl⟩ := List.mem_map.mp hv
  refine ⟨n, mem_sortedValues.mp hn, ?_⟩
  have hy : y.toNat = n := toNat_of_u32FromStr hread
  rw [MessageDistribution.sample_weighted, hget, Option.map_some, Option.map_some, toNat_capSample,
    UInt32.toNat_toUInt64, hy]

/-- **Fitted distributions.** What is written for a user is accepted by the messenger exactly if
the rate of transitions on receiving is at most one, the sizes are 32-bit numbers, and the counts
of each list fit. Every sample is then one of those that were found. -/
theorem fitted_loads (hlib : lib.Lawful) {labeled : List LabeledMessage} {idle : ℕ}
    {fitted : Fitted} (hfit : fit labeled idle = some fitted) {sizes : List ℕ} (hne : sizes ≠ [])
    (hfloat : ∀ p ∈ timeLists fitted, ∀ v ∈ p.2, f64FromStr (Text.ofInt v) = some (v : ℚ))
    (hfiles : ∀ p ∈ userFiles sizesHash hash path sizes fitted, files p.1 = some p.2) :
    ((∃ dists, (saveDistributions path fitted.sProb fitted.rProb).tryInto lib files f64FromStr =
        .ok dists) ↔
      (receiveTransitionCount labeled ≤ idle ∨ idle = 0) ∧ (∀ n ∈ sizes, n < UInt32.size) ∧
        Fits sizes ∧ ∀ p ∈ timeLists fitted, Fits p.2) ∧
    ∀ dists, (saveDistributions path fitted.sProb fitted.rProb).tryInto lib files f64FromStr =
        .ok dists →
      SamplesSizes dists.m sizes ∧ SamplesTimes dists.i fitted.idleDist ∧
        SamplesTimes dists.w fitted.activeDist ∧ SamplesTimes dists.aS fitted.aSDist ∧
        SamplesTimes dists.aR fitted.aRDist := by
  have hnil := timeLists_ne_nil hfit
  simp only [userFiles, List.forall_mem_cons, List.forall_mem_map] at hfiles
  obtain ⟨hm, htimes⟩ := hfiles
  simp only [timeLists, List.forall_mem_cons, List.not_mem_nil, false_implies, implies_true,
    and_true] at hnil hfloat htimes ⊢
  obtain ⟨hiNil, hwNil, hsNil, hrNil⟩ := hnil
  obtain ⟨hiFloat, hwFloat, hsFloat, hrFloat⟩ := hfloat
  obtain ⟨hi, hw, hs, hr⟩ := htimes
  have hrate : (∃ d, lib.bernoulli.new fitted.rProb = .ok d) ↔
      receiveTransitionCount labeled ≤ idle ∨ idle = 0 := by
    rw [hlib.bernoulli_new, fit_eq_some hfit, rProb_le_one_iff]
    exact and_iff_right (rProb_nonneg _ _)
  have hprob := (hlib.bernoulli_new _).mpr (sProb_mem hfit)
  have hsizes := exists_tryInto_sizes_iff hlib hne hm
  have hidle := exists_tryInto_times_iff hlib hiNil hiFloat hi
  have hactive := exists_tryInto_times_iff hlib hwNil hwFloat hw
  have hsent := exists_tryInto_times_iff hlib hsNil hsFloat hs
  have hreceived := exists_tryInto_times_iff hlib hrNil hrFloat hr
  refine ⟨⟨?_, ?_⟩, ?_⟩
  · rintro ⟨dists, h⟩
    obtain ⟨hdm, hdi, hdw, hds, hdr, -, hrprob⟩ := ConfigDistributions.tryInto_eq_ok_iff.mp h
    obtain ⟨hlt, hfits⟩ := hsizes.mp ⟨_, hdm⟩
    exact ⟨hrate.mp ⟨_, hrprob⟩, hlt, hfits, hidle.mp ⟨_, hdi⟩, hactive.mp ⟨_, hdw⟩,
      hsent.mp ⟨_, hds⟩, hreceived.mp ⟨_, hdr⟩⟩
  · rintro ⟨hle, hlt, hfits, hfi, hfw, hfs, hfr⟩
    obtain ⟨m, hdm⟩ := hsizes.mpr ⟨hlt, hfits⟩
    obtain ⟨i, hdi⟩ := hidle.mpr hfi
    obtain ⟨w, hdw⟩ := hactive.mpr hfw
    obtain ⟨aS, hds⟩ := hsent.mpr hfs
    obtain ⟨aR, hdr⟩ := hreceived.mpr hfr
    obtain ⟨s, hsprob⟩ := hprob
    obtain ⟨r, hrprob⟩ := hrate.mpr hle
    exact ⟨⟨m, i, w, aS, aR, s, r⟩, ConfigDistributions.tryInto_eq_ok_iff.mpr
      ⟨hdm, hdi, hdw, hds, hdr, hsprob, hrprob⟩⟩
  · intro dists h
    obtain ⟨hdm, hdi, hdw, hds, hdr, -, -⟩ := ConfigDistributions.tryInto_eq_ok_iff.mp h
    exact ⟨samplesSizes_of_tryInto hlib hne hm hdm,
      samplesTimes_of_tryInto hlib hiNil hiFloat hi hdi,
      samplesTimes_of_tryInto hlib hwNil hwFloat hw hdw,
      samplesTimes_of_tryInto hlib hsNil hsFloat hs hds,
      samplesTimes_of_tryInto hlib hrNil hrFloat hr hdr⟩

end Load

/-! ### A user -/

/-- A family that takes all parameters and samples one value. -/
def constFamily (P : Type) {V : Type} (v : V) : Family P V ℕ :=
  ⟨P, Unit, .ok, fun _ rng => (v, rng)⟩

/-- A library over a generator that counts. -/
def countingLibrary : RandDistr ℕ where
  poisson := constFamily ℚ 1
  binomial := constFamily (UInt64 × ℚ) 1
  geometric := constFamily ℚ 1
  hypergeometric := constFamily (UInt64 × UInt64 × UInt64) 1
  bernoulli := ⟨ℚ, Unit, fun p => if 0 ≤ p ∧ p ≤ 1 then .ok p else .error (),
    fun p rng => (decide (1 / 2 ≤ p), rng)⟩
  normal := constFamily (ℚ × ℚ) 1
  logNormal := constFamily (ℚ × ℚ) 1
  uniform := constFamily (ℚ × ℚ) 1
  exp := constFamily ℚ 1
  pareto := constFamily (ℚ × ℚ) 1
  weighted := ⟨List UInt32, Unit, aliasIndex, fun ws rng => (rng % ws.length, rng + 1)⟩

/-- The weights that `aliasIndex` takes. -/
theorem aliasIndex_eq_ok_iff {ws d : List UInt32} : aliasIndex ws = .ok d ↔
    (ws ≠ [] ∧ (∀ w ∈ ws, w.toNat ≤ 4294967295 / ws.length) ∧ ∃ w ∈ ws, w ≠ 0) ∧ ws = d := by
  have hcond : (ws = [] ∨ ws.any (4294967295 / ws.length < ·.toNat) ∨ ws.all (· = 0)) ↔
      ¬ (ws ≠ [] ∧ (∀ w ∈ ws, w.toNat ≤ 4294967295 / ws.length) ∧ ∃ w ∈ ws, w ≠ 0) := by
    simp only [List.any_eq_true, List.all_eq_true, decide_eq_true_eq, not_and_or, not_not,
      not_forall, not_exists, Nat.not_le, exists_prop, ← imp_iff_not_or]
  unfold aliasIndex
  by_cases h : ws = [] ∨ ws.any (4294967295 / ws.length < ·.toNat) ∨ ws.all (· = 0)
  · rw [if_pos h]
    exact iff_of_false nofun fun hd => hcond.mp h hd.1
  · rw [if_neg h, Except.ok.injEq]
    exact (and_iff_right (not_not.mp (mt hcond.mpr h))).symm

theorem countingLibrary_lawful : countingLibrary.Lawful where
  bernoulli_new p := by
    by_cases h : 0 ≤ p ∧ p ≤ 1
    · exact iff_of_true ⟨p, if_pos h⟩ h
    · refine iff_of_false ?_ h
      rintro ⟨d, hd⟩
      cases (if_neg h).symm.trans hd
  weighted_new ws := by
    constructor
    · rintro ⟨d, hd⟩
      exact (aliasIndex_eq_ok_iff.mp hd).1
    · exact fun h => ⟨ws, aliasIndex_eq_ok_iff.mpr ⟨h, rfl⟩⟩
  weighted_sample ws d rng h := by
    obtain ⟨⟨hne, -⟩, rfl⟩ := aliasIndex_eq_ok_iff.mp h
    exact Nat.mod_lt rng (List.length_pos_of_ne_nil hne)

/-- One answer, after two seconds in an Active minute. -/
def answerLabel : LabeledMessage := ⟨.active, false, .received, false, 2000000000, none⟩

def answerFit : Fitted := ⟨[3600], [0], [3600], [2], 0, 1 / 2⟩

/-- Integers as floats. -/
def readFloat (t : Text) : Option ℚ := (Text.parseInt 9007199254740992 t).map fun z : ℤ => (z : ℚ)

def sortedOrder (α : Type) : HashOrder α := ⟨id, fun _ => .refl _⟩

def answerFiles : Text → Option Text :=
  fun path =>
    (userFiles (sortedOrder ℕ) (sortedOrder ℤ) "7".toList [1, 1, 40] answerFit).lookup path

theorem fitted_loads_answer :
    fit [answerLabel] 2 = some answerFit ∧
      ∃ dists, (saveDistributions "7".toList 0 (1 / 2)).tryInto countingLibrary answerFiles
        readFloat = .ok dists ∧ SamplesSizes dists.m [1, 1, 40] ∧ SamplesTimes dists.aR [2] := by
  have hfit : fit [answerLabel] 2 = some answerFit := by decide +kernel
  have hfloat : ∀ p ∈ timeLists answerFit, ∀ v ∈ p.2, readFloat (Text.ofInt v) = some (v : ℚ) := by
    have hrange : ∀ p ∈ timeLists answerFit, ∀ v ∈ p.2, 0 ≤ v ∧ v < 3601 := by decide +kernel
    intro p hp v hv
    obtain ⟨hlow, hhigh⟩ := hrange p hp v hv
    rw [readFloat, Text.parseInt_ofInt (by omega) (by omega)]
    rfl
  have hfiles : ∀ p ∈ userFiles (sortedOrder ℕ) (sortedOrder ℤ) "7".toList [1, 1, 40] answerFit,
      answerFiles p.1 = some p.2 := by decide +kernel
  obtain ⟨hiff, hsamples⟩ := fitted_loads countingLibrary_lawful hfit (List.cons_ne_nil 1 [1, 40])
    hfloat hfiles
  obtain ⟨dists, hdists⟩ := hiff.mpr (by
    unfold Fits
    decide +kernel)
  obtain ⟨hm, -, -, -, hr⟩ := hsamples dists hdists
  exact ⟨hfit, dists, hdists, hm, hr⟩

end SignalSim.Mnettools
