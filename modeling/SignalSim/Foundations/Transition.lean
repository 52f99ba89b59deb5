import Mathlib.Tactic.ByContra
import Mathlib.Logic.Basic

/-!
# Labelled transition systems and their runs

A system is a partial step function: in a state, a label either is not enabled or
leads to one next state. All nondeterminism (scheduling, the environment, sampled
values) sits in the choice of labels, so a run is a list of labels and can be
evaluated.

Two things can be said of a run: that every state it visits satisfies a property
(`Always`), and that every step it takes meets a condition on the state before the
step and the label (`Along`). The rules below relate the two.

## Main results

* `System.invariant_along` — an invariant preserved by the steps that meet a
  condition holds after every run that meets it throughout
* `System.always_iff_along` — when an invariant implies a property and a step that
  breaks the condition breaks the property, a run keeps the property exactly if it
  meets the condition
* `System.along_of_not_persistent` — when a step that breaks the condition leads to a
  flaw that no later step removes, a run that ends without the flaw met it
-/

namespace SignalSim

variable {σ α : Type*}

/-- A transition system, deterministic for each label. -/
structure System (σ α : Type*) where
  step : σ → α → Option σ

namespace System

variable (M : System σ α)

/-- The state after a list of labels, if each of them is enabled in turn. -/
def run : σ → List α → Option σ
  | s, [] => some s
  | s, a :: as => (M.step s a).bind fun t => run t as

/-- Every step of the run meets the condition `C`. -/
def Along (C : σ → α → Prop) : σ → List α → Prop
  | _, [] => True
  | s, a :: as => ∀ t, M.step s a = some t → C s a ∧ Along C t as

/-- Every state the run visits satisfies `P`. -/
def Always (P : σ → Prop) : σ → List α → Prop
  | s, [] => P s
  | s, a :: as => P s ∧ ∀ t, M.step s a = some t → Always P t as

variable {M} {C : σ → α → Prop} {I P : σ → Prop} {s t u : σ} {a : α} {as bs : List α}

@[simp] theorem run_cons : M.run s (a :: as) = (M.step s a).bind fun t => M.run t as := rfl

theorem run_cons_eq_some :
    M.run s (a :: as) = some t ↔ ∃ u, M.step s a = some u ∧ M.run u as = some t := by
  rw [run_cons, Option.bind_eq_some_iff]

theorem run_append :
    M.run s (as ++ bs) = (M.run s as).bind fun t => M.run t bs := by
  induction as generalizing s with
  | nil => rfl
  | cons a as ih =>
    rw [List.cons_append, run_cons, run_cons, Option.bind_assoc]
    congr 1
    funext t
    exact ih

instance decidableAlong [∀ s a, Decidable (C s a)] :
    ∀ (s : σ) (as : List α), Decidable (M.Along C s as)
  | _, [] => .isTrue trivial
  | s, a :: as =>
    match h : M.step s a with
    -- a run that stops here has no step left to check
    | none => .isTrue fun t ht => by simp [h] at ht
    | some t =>
      have := decidableAlong t as
      decidable_of_iff (C s a ∧ M.Along C t as) (by simp [Along, h])

instance decidableAlways [DecidablePred P] :
    ∀ (s : σ) (as : List α), Decidable (M.Always P s as)
  | s, [] => inferInstanceAs (Decidable (P s))
  | s, a :: as =>
    match h : M.step s a with
    | none => decidable_of_iff (P s) (by simp [Always, h])
    | some t =>
      have := decidableAlways t as
      decidable_of_iff (P s ∧ M.Always P t as) (by simp [Always, h])

theorem along_cons (h : M.step s a = some t) :
    M.Along C s (a :: as) ↔ C s a ∧ M.Along C t as := by
  constructor
  · intro hC
    exact hC t h
  · intro hC u hu
    obtain rfl := Option.some_inj.mp (h.symm.trans hu)
    exact hC

/-- Steps that meet two conditions, one of them under the other. -/
theorem Along.mp {D : σ → α → Prop} (h : M.Along (fun s a => D s a → C s a) s as)
    (hD : M.Along D s as) : M.Along C s as := by
  induction as generalizing s with
  | nil => trivial
  | cons a as ih =>
    intro t ht
    obtain ⟨ha, has⟩ := h t ht
    obtain ⟨hDa, hDas⟩ := hD t ht
    exact ⟨ha hDa, ih has hDas⟩

/-- A condition that every step meets asks for nothing. -/
theorem along_of_forall (h : ∀ s a, C s a) : M.Along C s as := by
  induction as generalizing s with
  | nil => trivial
  | cons a as ih => exact fun t _ => ⟨h s a, ih⟩

theorem Always.head (h : M.Always P s as) : P s := by
  cases as with
  | nil => exact h
  | cons a as => exact h.1

theorem Always.last (h : M.Always P s as) (hrun : M.run s as = some t) : P t := by
  induction as generalizing s with
  | nil => exact Option.some_inj.mp hrun ▸ h
  | cons a as ih =>
    obtain ⟨u, hu, hrun⟩ := run_cons_eq_some.mp hrun
    exact ih (h.2 u hu) hrun

/-- **Invariant rule.** What the steps that meet a condition preserve holds at the end
of every run that meets it throughout. -/
theorem invariant_along (hstep : ∀ s a t, I s → C s a → M.step s a = some t → I t)
    (hs : I s) (hC : M.Along C s as) (hrun : M.run s as = some t) : I t := by
  induction as generalizing s with
  | nil => exact Option.some_inj.mp hrun ▸ hs
  | cons a as ih =>
    obtain ⟨u, hu, hrun⟩ := run_cons_eq_some.mp hrun
    obtain ⟨ha, has⟩ := hC u hu
    exact ih (hstep s a u hs ha hu) has hrun

/-- The invariant rule for an invariant of all steps. -/
theorem invariant (hstep : ∀ s a t, I s → M.step s a = some t → I t)
    (hs : I s) (hrun : M.run s as = some t) : I t :=
  invariant_along (C := fun _ _ => True) (fun s a t hI _ => hstep s a t hI) hs
    (along_of_forall fun _ _ => trivial) hrun

/-- The invariant rule, for every state on the way. -/
theorem always_of_along (hstep : ∀ s a t, I s → C s a → M.step s a = some t → I t)
    (hP : ∀ s, I s → P s) (hs : I s) (hC : M.Along C s as) : M.Always P s as := by
  induction as generalizing s with
  | nil => exact hP s hs
  | cons a as ih =>
    constructor
    · exact hP s hs
    · intro t ht
      obtain ⟨ha, has⟩ := hC t ht
      exact ih (hstep s a t hs ha ht) has

/-- A run that keeps `P` meets every condition whose breach breaks `P`. -/
theorem along_of_always (hbreak : ∀ s a t, I s → M.step s a = some t → P t → C s a)
    (hstep : ∀ s a t, I s → M.step s a = some t → I t) (hs : I s)
    (hP : M.Always P s as) : M.Along C s as := by
  induction as generalizing s with
  | nil => trivial
  | cons a as ih =>
    intro t ht
    have hPt := hP.2 t ht
    exact ⟨hbreak s a t hs ht hPt.head, ih (hstep s a t hs ht) hPt⟩

/-- **Exactness rule.** Let `I` be invariant, let `I` and `J` together be preserved by
the steps that meet `C` and imply `P`, and let every step that breaks `C` break `P`.
Then the runs that keep `P` are those that meet `C`. -/
theorem always_iff_along {J : σ → Prop} (hI : ∀ s a t, I s → M.step s a = some t → I t)
    (hJ : ∀ s a t, I s → J s → C s a → M.step s a = some t → J t)
    (hP : ∀ s, I s → J s → P s)
    (hbreak : ∀ s a t, I s → M.step s a = some t → P t → C s a)
    (hIs : I s) (hJs : J s) : M.Always P s as ↔ M.Along C s as := by
  constructor
  · -- the first breach of `C` would break `P`
    exact along_of_always hbreak hI hIs
  · -- without a breach both invariants last
    apply always_of_along (I := fun s => I s ∧ J s) ?_ (fun s h => hP s h.1 h.2) ⟨hIs, hJs⟩
    intro s a t h hC ht
    exact ⟨hI s a t h.1 ht, hJ s a t h.1 h.2 hC ht⟩

/-- **Persistence rule.** In a run that meets `D`, if every step that breaks `C` leads to a
flaw and no step removes a flaw, then a run that ends without a flaw met `C` throughout. -/
theorem along_of_not_persistent_along {D : σ → α → Prop} {B : σ → Prop}
    (hI : ∀ s a t, I s → M.step s a = some t → I t)
    (hbad : ∀ s a t, I s → M.step s a = some t → ¬ C s a → B t)
    (hkeep : ∀ s a t, I s → B s → D s a → M.step s a = some t → B t)
    (hs : I s) (hD : M.Along D s as) (hrun : M.run s as = some t) (ht : ¬ B t) :
    M.Along C s as := by
  -- a flaw at any point of the run is still there at its end
  have persists : ∀ (as : List α) (s : σ), I s ∧ B s → M.Along D s as →
      M.run s as = some t → B t := by
    intro as s hIB hD hrun
    exact (invariant_along (I := fun s => I s ∧ B s)
      (fun s a u h hDa hu => ⟨hI s a u h.1 hu, hkeep s a u h.1 h.2 hDa hu⟩) hIB hD hrun).2
  induction as generalizing s with
  | nil => trivial
  | cons a as ih =>
    intro u hu
    obtain ⟨u', hu', hrun⟩ := run_cons_eq_some.mp hrun
    obtain rfl : u' = u := Option.some_inj.mp (hu'.symm.trans hu)
    have hIu := hI s a u' hs hu
    have hDu := (hD u' hu).2
    constructor
    · by_contra hC
      exact ht (persists as u' ⟨hIu, hbad s a u' hs hu hC⟩ hDu hrun)
    · exact ih hIu hDu hrun

/-- The persistence rule for all runs. -/
theorem along_of_not_persistent {B : σ → Prop}
    (hI : ∀ s a t, I s → M.step s a = some t → I t)
    (hbad : ∀ s a t, I s → M.step s a = some t → ¬ C s a → B t)
    (hkeep : ∀ s a t, I s → B s → M.step s a = some t → B t)
    (hs : I s) (hrun : M.run s as = some t) (ht : ¬ B t) : M.Along C s as :=
  along_of_not_persistent_along (D := fun _ _ => True) hI hbad
    (fun s a t hIs hB _ => hkeep s a t hIs hB) hs (along_of_forall fun _ _ => trivial) hrun ht

end System

end SignalSim
