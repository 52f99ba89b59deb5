import SignalSim.Foundations.Argmax
import SignalSim.Foundations.Text

/-!
# Labelling the minutes of a user

`get_states` of `get_w.py`: ten hidden Markov models are fitted to the counters of a user from
ten random starting states, the one with the best score predicts a component for each minute,
and the components become labels. What `hmmlearn` computes is a parameter. The scores are
collected beside the models, but a model whose scoring fails leaves no score, so the index of
the best score need not be that of the best model.

## Main definitions

* `PoissonHMM` — what the code calls of a model
* `PoissonHMM.getStates` — the labels and the rates of the model used
* `PoissonHMM.LabelsBest` — the best model is used, and its labels mark the busier component

## Main results

* `PoissonHMM.labelsBest_iff` — this holds exactly if no scoring fails before the best
-/

namespace SignalSim.Hmm

/-! ### The models -/

/-- What `get_states` calls of a model: `fit` of the model made with a `random_state`, and
`score` and `predict`, which may raise. Each gets the counters and the lengths of the runs. -/
structure PoissonHMM (Model Score Rate : Type) where
  fit : ℕ → List ℤ → List ℤ → Model
  score : Model → List ℤ → List ℤ → Option Score
  predict : Model → List ℤ → List ℤ → Option (List (Fin 2))
  lambdas : Model → Fin 2 → Rate

/-- The two lists of the loop over the starting states. -/
structure Training (Model Score : Type) where
  scores : List Score
  models : List Model

/-- What `get_states` returns. -/
inductive States
  /-- The bare `return` for empty counters. -/
  | empty
  /-- `None, None`. -/
  | unpredicted
  | labelled (states lambdas : Text)

namespace PoissonHMM

variable {Model Score Rate : Type}

section Definitions

variable (hmm : PoissonHMM Model Score Rate) (str : Rate → Text) (counts lens : List ℤ)

/-- A pass of the loop: the model is kept in any case, its score if there is one. -/
def train (training : Training Model Score) (idx : ℕ) : Training Model Score :=
  let model := hmm.fit idx counts lens
  { models := training.models ++ [model]
    scores := match hmm.score model counts lens with
      | some score => training.scores ++ [score]
      | none => training.scores }

/-- Ten different random starting states. -/
def trained : Training Model Score := (List.range 10).foldl (hmm.train counts lens) ⟨[], []⟩

variable [LinearOrder Score]

/-- `models[np.argmax(scores)]`; without a score `np.argmax` raises. -/
def bestModel : Option Model := do
  let idx ← argmax (hmm.trained counts lens).scores
  (hmm.trained counts lens).models[idx]?

/-- The model was scored, and no model that was scored has a larger score. -/
def IsBest (model : Model) : Prop :=
  ∃ score, hmm.score model counts lens = some score ∧ ∀ idx < 10, ∀ other,
    hmm.score (hmm.fit idx counts lens) counts lens = some other → other ≤ score

/-- A model with the best score before which no scoring has failed. -/
def ScoredUpToBest : Prop :=
  ∃ idx < 10, hmm.IsBest counts lens (hmm.fit idx counts lens) ∧
    ∀ i < idx, (hmm.score (hmm.fit i counts lens) counts lens).isSome

variable [LinearOrder Rate]

/-- The labels from the predicted components: the other way around if the first component is
the one with the larger rate. -/
def labels (model : Model) (states : List (Fin 2)) : List ℕ :=
  if hmm.lambdas model 1 < hmm.lambdas model 0 then
    states.map fun s => if s = 0 then 1 else 0
  else states.map fun s => s.val

/-- `get_states`; `none` if it raises. -/
def getStates : Option States :=
  if counts.length = 0 ∨ lens.length = 0 then some .empty
  else do
    let model ← hmm.bestModel counts lens
    match hmm.predict model counts lens with
    | none => return .unpredicted
    | some states =>
      return .labelled (Text.commaSeparated ((hmm.labels model states).map Text.ofNat))
        (Text.commaSeparated [str (hmm.lambdas model 0), str (hmm.lambdas model 1)])

/-- A line of labels has 1 exactly for the minutes of the component with the larger rate. -/
def Marks (model : Model) (states : List (Fin 2)) (line : Text) : Prop :=
  ∃ labels : List Text, line = Text.commaSeparated labels ∧ labels.length = states.length ∧
    (∀ label ∈ labels, label = ['0'] ∨ label = ['1']) ∧
    ∀ busier idle, hmm.lambdas model idle < hmm.lambdas model busier →
      ∀ i : ℕ, labels[i]? = some ['1'] ↔ states[i]? = some busier

/-- The labels come from a model with the best score, and mark its busier component. -/
def LabelsBest : Prop :=
  ∃ model, hmm.bestModel counts lens = some model ∧ hmm.IsBest counts lens model ∧
    ∀ line lambdas, hmm.getStates str counts lens = some (.labelled line lambdas) →
      ∃ states, hmm.predict model counts lens = some states ∧ hmm.Marks model states line

end Definitions

variable {hmm : PoissonHMM Model Score Rate} {str : Rate → Text} {counts lens : List ℤ}

/-- After some passes: all models, and the scores of those that have one. -/
theorem foldl_train (idxs : List ℕ) (training : Training Model Score) :
    idxs.foldl (hmm.train counts lens) training =
      ⟨training.scores ++ (idxs.map (hmm.fit · counts lens)).filterMap (hmm.score · counts lens),
        training.models ++ idxs.map (hmm.fit · counts lens)⟩ := by
  induction idxs generalizing training with
  | nil => simp
  | cons idx idxs ih =>
    rw [List.foldl_cons, ih, train, List.map_cons, List.filterMap_cons]
    cases hmm.score (hmm.fit idx counts lens) counts lens with
    | none => simp only [List.append_assoc, List.singleton_append]
    | some score => simp only [List.append_assoc, List.singleton_append]

theorem trained_eq : hmm.trained counts lens =
    ⟨((List.range 10).map (hmm.fit · counts lens)).filterMap (hmm.score · counts lens),
      (List.range 10).map (hmm.fit · counts lens)⟩ :=
  foldl_train (List.range 10) ⟨[], []⟩

section Best

variable [LinearOrder Score]

theorem isBest_iff {model : Model} : hmm.IsBest counts lens model ↔
    ∃ r, hmm.score model counts lens = some r ∧
      ∀ y ∈ (List.range 10).map (hmm.fit · counts lens), ∀ s,
        hmm.score y counts lens = some s → s ≤ r := by
  simp only [IsBest, List.forall_mem_map, List.mem_range]

/-- **The model.** The one used is a best one exactly if no scoring fails before a best one. -/
theorem bestModel_isBest_iff
    (hscored : ∃ idx < 10, (hmm.score (hmm.fit idx counts lens) counts lens).isSome) :
    (∃ model, hmm.bestModel counts lens = some model ∧ hmm.IsBest counts lens model) ↔
      hmm.ScoredUpToBest counts lens := by
  have hne : ((List.range 10).map (hmm.fit · counts lens)).filterMap
      (hmm.score · counts lens) ≠ [] := by
    obtain ⟨idx, hidx, hsome⟩ := hscored
    obtain ⟨score, hscore⟩ := Option.isSome_iff_exists.mp hsome
    refine List.ne_nil_of_mem (List.mem_filterMap.mpr ⟨_, ?_, hscore⟩)
    exact List.mem_map_of_mem (List.mem_range.mpr hidx)
  obtain ⟨j, hj⟩ := Option.isSome_iff_exists.mp (argmax_isSome hne)
  have hbest := argmax_filterMap_iff hj
  have hmodel : hmm.bestModel counts lens =
      ((List.range 10).map (hmm.fit · counts lens))[j]? := by
    rw [bestModel, trained_eq, hj]
    rfl
  rw [hmodel]
  constructor
  · rintro ⟨model, hat, hmax⟩
    obtain ⟨r, hr, hmax⟩ := isBest_iff.mp hmax
    obtain ⟨i, x, r', hx, hr', hmax', hbefore⟩ := hbest.mp ⟨model, r, hat, hr, hmax⟩
    obtain ⟨hi, rfl⟩ := List.getElem?_eq_some_iff.mp hx
    have hten : i < 10 := by simpa using hi
    rw [List.getElem_map, List.getElem_range] at hr'
    refine ⟨i, hten, isBest_iff.mpr ⟨r', hr', hmax'⟩, fun k hk => ?_⟩
    refine hbefore _ (List.mem_take_iff_getElem.mpr ⟨k, by omega, ?_⟩)
    rw [List.getElem_map, List.getElem_range]
  · rintro ⟨idx, hidx, hmax, hbefore⟩
    obtain ⟨r, hr, hmax⟩ := isBest_iff.mp hmax
    have hat : ((List.range 10).map (hmm.fit · counts lens))[idx]? =
        some (hmm.fit idx counts lens) := by
      rw [List.getElem?_map, List.getElem?_range hidx]
      rfl
    have hscores : ∀ y ∈ ((List.range 10).map (hmm.fit · counts lens)).take idx,
        (hmm.score y counts lens).isSome := by
      intro y hy
      obtain ⟨k, hk, rfl⟩ := List.mem_take_iff_getElem.mp hy
      rw [List.getElem_map, List.getElem_range]
      exact hbefore k (by omega)
    obtain ⟨model, r', hx, hr', hmax'⟩ := hbest.mpr ⟨idx, _, r, hat, hr, hmax, hscores⟩
    exact ⟨model, hx, isBest_iff.mpr ⟨r', hr', hmax'⟩⟩

end Best

section Labels

variable [LinearOrder Rate] {model : Model} {states : List (Fin 2)}

/-- The label of a predicted component. -/
def label (hmm : PoissonHMM Model Score Rate) (model : Model) (s : Fin 2) : ℕ :=
  if hmm.lambdas model 1 < hmm.lambdas model 0 then (if s = 0 then 1 else 0) else s.val

theorem labels_eq_map : hmm.labels model states = states.map (hmm.label model) := by
  unfold labels label
  split
  · rfl
  · rfl

theorem ofNat_label (s : Fin 2) :
    Text.ofNat (hmm.label model s) = ['0'] ∨ Text.ofNat (hmm.label model s) = ['1'] := by
  rw [label]
  split_ifs
  · exact .inr rfl
  · exact .inl rfl
  · match s with
    | 0 => exact .inl rfl
    | 1 => exact .inr rfl

/-- Which component gets a 1: the one with the larger rate. -/
theorem ofNat_label_eq_one_iff {busier idle : Fin 2}
    (h : hmm.lambdas model idle < hmm.lambdas model busier) (s : Fin 2) :
    Text.ofNat (hmm.label model s) = ['1'] ↔ s = busier := by
  have hzero : Text.ofNat 0 ≠ ['1'] := by decide
  have hone : Text.ofNat 1 = ['1'] := by decide
  rw [label]
  match busier, idle, h with
  | 0, 0, h | 1, 1, h => exact absurd h (lt_irrefl _)
  | 0, 1, h =>
    rw [if_pos h]
    match s with
    | 0 => simp [hone]
    | 1 => simp [hzero]
  | 1, 0, h =>
    rw [if_neg (not_lt_of_gt h)]
    match s with
    | 0 => simp [hzero]
    | 1 => simp [hone]

/-- **The labels.** Whichever model is used, its labels mark its busier component. -/
theorem marks_labels :
    hmm.Marks model states (Text.commaSeparated ((hmm.labels model states).map Text.ofNat)) := by
  refine ⟨_, rfl, ?_, ?_, ?_⟩
  · rw [labels_eq_map, List.length_map, List.length_map]
  · rw [labels_eq_map, List.map_map]
    exact List.forall_mem_map.mpr fun s _ => ofNat_label s
  · intro busier idle h i
    rw [labels_eq_map, List.map_map, List.getElem?_map, Option.map_eq_some_iff]
    constructor
    · rintro ⟨s, hs, hlabel⟩
      rwa [← (ofNat_label_eq_one_iff h s).mp hlabel]
    · exact fun hs => ⟨busier, hs, (ofNat_label_eq_one_iff h busier).mpr rfl⟩

end Labels

section Main

variable [LinearOrder Score] [LinearOrder Rate]

/-- Labels that are returned are those of the model used. -/
theorem getStates_eq_labelled {line lambdas : Text}
    (h : hmm.getStates str counts lens = some (.labelled line lambdas)) :
    ∃ model states, hmm.bestModel counts lens = some model ∧
      hmm.predict model counts lens = some states ∧ hmm.Marks model states line := by
  unfold getStates at h
  split at h
  · cases h
  obtain ⟨model, hmodel, h⟩ := Option.bind_eq_some_iff.mp h
  cases hpredict : hmm.predict model counts lens with
  | none =>
    rw [hpredict] at h
    cases h
  | some states =>
    rw [hpredict] at h
    cases h
    exact ⟨model, states, hmodel, hpredict, marks_labels⟩

/-- **The labels of a user.** They come from a best model, and mark the minutes of its busier
component, exactly if no scoring fails before a best one. -/
theorem labelsBest_iff
    (hscored : ∃ idx < 10, (hmm.score (hmm.fit idx counts lens) counts lens).isSome) :
    hmm.LabelsBest str counts lens ↔ hmm.ScoredUpToBest counts lens := by
  rw [← bestModel_isBest_iff hscored]
  constructor
  · rintro ⟨model, hmodel, hbest, -⟩
    exact ⟨model, hmodel, hbest⟩
  · rintro ⟨model, hmodel, hbest⟩
    refine ⟨model, hmodel, hbest, fun line lambdas h => ?_⟩
    obtain ⟨used, states, hused, hpredict, hmarks⟩ := getStates_eq_labelled h
    obtain rfl := Option.some_inj.mp (hmodel.symm.trans hused)
    exact ⟨states, hpredict, hmarks⟩

end Main

end PoissonHMM

/-- Ten models known by their starting states: scoring fails for the first, and the third has
the best score. The first component has the larger rate. -/
def gappedHMM : PoissonHMM ℕ ℤ ℕ where
  fit idx _ _ := idx
  score model _ _ := match model with
    | 0 => none
    | 1 => some (-10)
    | 2 => some (-5)
    | _ => some (-20)
  predict model counts _ := some (counts.map fun n => if n = 0 then 1 else
    if model = 2 then 0 else 1)
  lambdas _ s := if s = 0 then 3 else 0

/-- The labels come from the second model instead. -/
theorem not_labelsBest_gappedHMM :
    (∃ idx < 10, (gappedHMM.score (gappedHMM.fit idx [0, 4, 0] [3]) [0, 4, 0] [3]).isSome) ∧
      ¬ gappedHMM.LabelsBest Text.ofNat [0, 4, 0] [3] := by
  refine ⟨⟨1, by decide, rfl⟩, ?_⟩
  rintro ⟨model, hmodel, ⟨score, hscore, hmax⟩, -⟩
  have hused : gappedHMM.bestModel [0, 4, 0] [3] = some 1 := by decide
  cases hmodel.symm.trans hused
  cases hscore
  exact absurd (hmax 2 (by decide) (-5) rfl) (by decide)

/-- Where only the model after the best one cannot be scored, nothing is shifted. -/
def trailingHMM : PoissonHMM ℕ ℤ ℕ :=
  { gappedHMM with score := fun model _ _ => if model = 3 then none else some (-model) }

theorem labelsBest_trailingHMM : trailingHMM.LabelsBest Text.ofNat [0, 4, 0] [3] := by
  refine (PoissonHMM.labelsBest_iff ⟨0, by decide, by decide⟩).mpr ?_
  refine ⟨0, by decide, ⟨0, rfl, fun idx _ other h => ?_⟩, fun i hi => absurd hi i.not_lt_zero⟩
  simp only [trailingHMM, Option.ite_none_left_eq_some, Option.some_inj] at h
  omega

end SignalSim.Hmm
