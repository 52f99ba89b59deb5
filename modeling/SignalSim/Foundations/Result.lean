import Mathlib.Data.List.Forall2

/-!
# Results that can be errors

How a sequence of computations that can fail succeeds, and how it fails, with an error or without.

## Main results

* `Result.bind_eq_ok`, `Result.bind_eq_error`
* `Result.mapM_eq_ok`, `Result.mapM_eq_error` — the same for a computation on each element
* `Result.foldlM_eq_error`, `Result.foldlM_invariant` — how a loop fails, and what it keeps
* `Result.mapM_eq_some`, `Result.exists_mapM_eq_some` — a computation on each element that may
  have no result
* `Result.exists_of_mem_right`, `Result.pairwise_right` — from the elements to their results
-/

namespace SignalSim.Result

variable {ε δ α β : Type} {x : Except ε α} {f : α → Except ε β} {e : ε} {b : β}
  {xs : List α} {ys : List β}

theorem pure_eq_ok (a : α) : (pure a : Except ε α) = .ok a := rfl

theorem ok_bind (a : α) : (Except.ok a >>= f) = f a := rfl

theorem bind_eq_ok (h : x >>= f = .ok b) : ∃ a, x = .ok a ∧ f a = .ok b := by
  cases x with
  | error e => cases h
  | ok a => exact ⟨a, rfl, h⟩

theorem bind_eq_error (h : x >>= f = .error e) :
    x = .error e ∨ ∃ a, x = .ok a ∧ f a = .error e := by
  cases x with
  | error e' =>
    cases h
    exact .inl rfl
  | ok a => exact .inr ⟨a, rfl, h⟩

theorem map_eq_ok {g : α → β} (h : x.map g = .ok b) : ∃ a, x = .ok a ∧ g a = b := by
  cases x with
  | error e => cases h
  | ok a => exact ⟨a, rfl, Except.ok.inj h⟩

theorem map_eq_error {g : α → β} (h : x.map g = .error e) : x = .error e := by
  cases x with
  | error e' =>
    cases h
    rfl
  | ok a => cases h

theorem mapM_eq_ok (h : xs.mapM f = .ok ys) : List.Forall₂ (fun x y => f x = .ok y) xs ys := by
  induction xs generalizing ys with
  | nil =>
    cases h
    exact .nil
  | cons x xs ih =>
    rw [List.mapM_cons] at h
    obtain ⟨y, hy, h⟩ := bind_eq_ok h
    obtain ⟨ys', hys, h⟩ := bind_eq_ok h
    cases h
    exact .cons hy (ih hys)

theorem mapM_eq_error (h : xs.mapM f = .error e) : ∃ x ∈ xs, f x = .error e := by
  induction xs with
  | nil => cases h
  | cons x xs ih =>
    rw [List.mapM_cons] at h
    rcases bind_eq_error h with hx | ⟨y, -, h⟩
    · exact ⟨x, List.mem_cons_self, hx⟩
    · rcases bind_eq_error h with hxs | ⟨ys, -, h⟩
      · obtain ⟨x', hx', herr⟩ := ih hxs
        exact ⟨x', List.mem_cons_of_mem _ hx', herr⟩
      · cases h

/-- A loop fails at one of its steps. -/
theorem foldlM_eq_error {γ : Type} {step : γ → α → Except ε γ} {c : γ}
    (h : xs.foldlM step c = .error e) : ∃ x ∈ xs, ∃ c', step c' x = .error e := by
  induction xs generalizing c with
  | nil => cases h
  | cons x xs ih =>
    rw [List.foldlM_cons] at h
    rcases bind_eq_error h with hx | ⟨c', -, h⟩
    · exact ⟨x, List.mem_cons_self, c, hx⟩
    · obtain ⟨x', hx', herr⟩ := ih h
      exact ⟨x', List.mem_cons_of_mem x hx', herr⟩

/-- What holds at the start of a loop and is kept by its steps holds at the end. -/
theorem foldlM_invariant {γ : Type} (P : γ → Prop) {step : γ → α → Except ε γ} {c c' : γ}
    (hstep : ∀ x ∈ xs, ∀ c c', step c x = .ok c' → P c → P c') (hc : P c)
    (h : xs.foldlM step c = .ok c') : P c' := by
  induction xs generalizing c with
  | nil => exact Except.ok.inj h ▸ hc
  | cons x xs ih =>
    rw [List.foldlM_cons] at h
    obtain ⟨c₁, hc₁, h⟩ := bind_eq_ok h
    exact ih (fun x hx => hstep x (List.mem_cons_of_mem _ hx))
      (hstep x List.mem_cons_self c c₁ hc₁ hc) h

theorem toOption_eq_some {a : α} : x.toOption = some a ↔ x = .ok a := by
  cases x <;> simp [Except.toOption]

theorem mapError_eq_ok {g : ε → δ} {a : α} : x.mapError g = .ok a ↔ x = .ok a := by
  cases x <;> simp [Except.mapError]

theorem exists_map_mapError_iff {γ : Type} {g : ε → δ} {k : α → γ} :
    (∃ c, (x.mapError g).map k = .ok c) ↔ ∃ a, x = .ok a := by
  cases x with
  | error e => exact iff_of_false (fun ⟨_, h⟩ => nomatch h) fun ⟨_, h⟩ => nomatch h
  | ok a => exact iff_of_true ⟨_, rfl⟩ ⟨a, rfl⟩

theorem mapError_eq_error {g : ε → δ} {d : δ} :
    x.mapError g = .error d ↔ ∃ e, x = .error e ∧ g e = d := by
  cases x <;> simp [Except.mapError]

theorem mapError_bind (g : ε → δ) (x : Except ε α) (f : α → Except ε β) :
    (x >>= f).mapError g = x.mapError g >>= fun a => (f a).mapError g := by
  cases x <;> rfl

/-! ### Without an error -/

section

variable {g g' : α → Option β}

theorem mapM_eq_some (h : xs.mapM g = some ys) : List.Forall₂ (fun x y => g x = some y) xs ys := by
  induction xs generalizing ys with
  | nil =>
    obtain rfl := Option.some_inj.mp h
    exact .nil
  | cons x xs ih =>
    rw [List.mapM_cons] at h
    obtain ⟨y, hy, h⟩ := Option.bind_eq_some_iff.mp h
    obtain ⟨ys', hys, h⟩ := Option.bind_eq_some_iff.mp h
    obtain rfl := Option.some_inj.mp h
    exact .cons hy (ih hys)

theorem exists_mapM_eq_some (h : ∀ x ∈ xs, (g x).isSome) : ∃ ys, xs.mapM g = some ys := by
  induction xs with
  | nil => exact ⟨[], rfl⟩
  | cons x xs ih =>
    obtain ⟨y, hy⟩ := Option.isSome_iff_exists.mp (h x List.mem_cons_self)
    obtain ⟨ys, hys⟩ := ih fun x' hx' => h x' (List.mem_cons_of_mem x hx')
    refine ⟨y :: ys, ?_⟩
    rw [List.mapM_cons, hy, hys]
    rfl

theorem exists_mapM_iff : (∃ ys, xs.mapM g = some ys) ↔ ∀ x ∈ xs, (g x).isSome := by
  refine ⟨?_, exists_mapM_eq_some⟩
  rintro ⟨ys, h⟩
  induction xs generalizing ys with
  | nil => exact fun x hx => absurd hx List.not_mem_nil
  | cons x xs ih =>
    rw [List.mapM_cons] at h
    obtain ⟨y, hy, h⟩ := Option.bind_eq_some_iff.mp h
    obtain ⟨ys', hys, -⟩ := Option.bind_eq_some_iff.mp h
    exact List.forall_mem_cons.mpr ⟨Option.isSome_iff_exists.mpr ⟨y, hy⟩, ih ys' hys⟩

/-- Elements that were mapped before, with a result for each. -/
theorem mapM_map_eq_some_map {γ : Type*} {f : γ → α} {h : γ → β} {cs : List γ}
    (hg : ∀ c ∈ cs, g (f c) = some (h c)) : (cs.map f).mapM g = some (cs.map h) := by
  induction cs with
  | nil => rfl
  | cons c cs ih =>
    rw [List.map_cons, List.mapM_cons, hg c List.mem_cons_self,
      ih fun d hd => hg d (List.mem_cons_of_mem c hd)]
    rfl

theorem mapM_congr (h : ∀ x ∈ xs, g x = g' x) : xs.mapM g = xs.mapM g' := by
  induction xs with
  | nil => rfl
  | cons x xs ih =>
    rw [List.mapM_cons, List.mapM_cons, h x List.mem_cons_self,
      ih fun x' hx' => h x' (List.mem_cons_of_mem x hx')]

end

/-! ### Each result belongs to an element -/

section

variable {α β : Type*} {R : α → β → Prop} {xs : List α} {ys : List β}

theorem exists_of_mem_right (h : List.Forall₂ R xs ys) {y : β} (hy : y ∈ ys) :
    ∃ x ∈ xs, R x y := by
  induction h with
  | nil => cases hy
  | @cons x y' xs ys hxy _ ih =>
    rcases List.mem_cons.mp hy with rfl | hy
    · exact ⟨x, List.mem_cons_self, hxy⟩
    · obtain ⟨x', hx', hR⟩ := ih hy
      exact ⟨x', List.mem_cons_of_mem x hx', hR⟩

theorem exists_of_mem_left (h : List.Forall₂ R xs ys) {x : α} (hx : x ∈ xs) :
    ∃ y ∈ ys, R x y := by
  induction h with
  | nil => cases hx
  | @cons x' y xs ys hxy _ ih =>
    rcases List.mem_cons.mp hx with rfl | hx
    · exact ⟨y, List.mem_cons_self, hxy⟩
    · obtain ⟨y', hy', hR⟩ := ih hx
      exact ⟨y', List.mem_cons_of_mem y hy', hR⟩

/-- What corresponds to something is something. -/
theorem exists_of_rel {a : α} {o : Option β} (h : Option.Rel R (some a) o) :
    ∃ y, o = some y ∧ R a y := by
  cases h with
  | some hR => exact ⟨_, rfl, hR⟩

/-- Lists that correspond do so at every position. -/
theorem getElem?_of_forall₂ (h : List.Forall₂ R xs ys) {i : ℕ} {x : α} (hx : xs[i]? = some x) :
    ∃ y, ys[i]? = some y ∧ R x y := by
  induction h generalizing i with
  | nil => cases hx
  | cons hxy _ ih =>
    cases i with
    | zero =>
      obtain rfl := Option.some_inj.mp hx
      exact ⟨_, rfl, hxy⟩
    | succ i => exact ih hx

/-- What holds between any two elements passes to their results. -/
theorem pairwise_right {S : α → α → Prop} {T : β → β → Prop} (h : List.Forall₂ R xs ys)
    (hpass : ∀ x x' y y', S x x' → R x y → R x' y' → T y y') (hxs : xs.Pairwise S) :
    ys.Pairwise T := by
  induction h with
  | nil => exact .nil
  | @cons x y xs ys hxy hrest ih =>
    obtain ⟨hx, hxs⟩ := List.pairwise_cons.mp hxs
    refine List.pairwise_cons.mpr ⟨?_, ih hxs⟩
    intro y' hy'
    obtain ⟨x', hx', hR⟩ := exists_of_mem_right hrest hy'
    exact hpass x x' y y' (hx x' hx') hxy hR

end

end SignalSim.Result
