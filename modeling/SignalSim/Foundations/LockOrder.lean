import Mathlib.Data.List.Nodup
import Mathlib.Logic.Function.Basic
import Mathlib.Logic.Relation
import Mathlib.Order.WellFounded
import SignalSim.Foundations.RwLock

/-!
# Lock orders

Tasks that use a family of first-come-first-served locks. What a task has of the locks at a
moment is its `LockUse`: the locks it holds, and at most one that it has asked for and not yet
taken up. The locks keep track of these uses (`Tracks`) when every task asks only for a lock
it has no part in.

If the locks are ranked, and every task asks only for a lock above all that it holds, then no
task waits for itself, and every task that waits, waits in the end for one that holds a lock
and waits for none.

## Main definitions

* `Waiting`, `WaitsFor` — being in the queue of a lock; being there behind a task
* `LockOp` — what a step of a task does to the locks
* `Tracks` — the locks are as the tasks use them
* `Ordered` — every task respects the ranks

## Main results

* `Tracks.apply` — a step that fits the uses before and after it keeps the locks as they are used
* `Tracks.exists_waitsFor` — where a task waits, one holds a lock and waits for none
* `Tracks.not_waitsFor_self` — no cycle of tasks that wait for each other
-/

namespace SignalSim

open Function (update)

/-- What a task has of the locks: those it holds, and one it has asked for. -/
structure LockUse (L : Type*) where
  held : List (L × Access)
  wants : Option (L × Access)

namespace LockUse

variable {L : Type*}

/-- A task that has nothing to do with the locks. -/
def none : LockUse L := ⟨[], .none⟩

/-- The locks at which the task is, as holder or in the queue. -/
def At (v : LockUse L) (c : L × Access) : Prop := c ∈ v.held ∨ v.wants = some c

variable {hs : List (L × Access)} {c d : L × Access}

@[simp] theorem at_mk_none : (⟨hs, .none⟩ : LockUse L).At c ↔ c ∈ hs := by
  simp [At]

@[simp] theorem at_mk_some : (⟨hs, some d⟩ : LockUse L).At c ↔ c ∈ hs ∨ c = d := by
  rw [At, Option.some_inj, @eq_comm _ d]

@[simp] theorem not_at_none : ¬ (none : LockUse L).At c := by
  simp [none]

end LockUse

/-- What a step of a task does to the locks, besides taking up the one it has asked for. -/
inductive LockOp (L : Type*)
  | ask (l : L) (a : Access)
  | drop (l : L)
  | keep

variable {n : ℕ} {L T α : Type*}

/-- `t` is in the queue of a lock. -/
def Waiting (locks : L → RwLock n T) (t : T) : Prop := ∃ l a, (t, a) ∈ (locks l).queue

/-- `t` is in the queue of a lock that `u` holds, or behind `u` in the queue. -/
inductive WaitsFor (locks : L → RwLock n T) (t u : T) : Prop
  | holder {l a b} : (t, a) ∈ (locks l).queue → (u, b) ∈ (locks l).holders → WaitsFor locks t u
  | ahead {l a b} {i j : ℕ} : (locks l).queue[i]? = some (t, a) →
      (locks l).queue[j]? = some (u, b) → j < i → WaitsFor locks t u

/-- The locks are as the tasks use them, and no task is at a lock twice. -/
structure Tracks (locks : L → RwLock n T) (use : T → LockUse L) : Prop where
  mem_entries : ∀ t l a, (t, a) ∈ (locks l).entries ↔ (use t).At (l, a)
  granted : ∀ t l a, (l, a) ∈ (use t).held → (t, a) ∈ (locks l).holders
  nodup : ∀ l, ((locks l).entries.map Prod.fst).Nodup

/-- Every task asks for a lock above those it holds. -/
def Ordered [LT α] (rank : L → α) (v : LockUse L) : Prop :=
  ∀ c ∈ v.held, ∀ d, v.wants = some d → rank c.1 < rank d.1

namespace LockOp

/-- The locks after the step. -/
def apply [DecidableEq L] [DecidableEq T] (t : T) (locks : L → RwLock n T) :
    LockOp L → L → RwLock n T
  | ask l a => update locks l ((locks l).acquire t a)
  | drop l => update locks l ((locks l).leave t)
  | keep => locks

/-- The step leads from one use of the locks to another. A lock asked for is a new one. -/
def Fits (v w : LockUse L) : LockOp L → Prop
  | ask l a => (∀ b, ¬ v.At (l, b)) ∧ ∀ c, w.At c ↔ v.At c ∨ c = (l, a)
  | drop l => ∀ c, w.At c ↔ v.At c ∧ c.1 ≠ l
  | keep => ∀ c, w.At c ↔ v.At c

end LockOp

variable {locks : L → RwLock n T} {use : T → LockUse L} {t u v : T} {l l' : L} {a b : Access}

theorem WaitsFor.waiting (h : WaitsFor locks t u) : Waiting locks t := by
  cases h with
  | holder ht _ => exact ⟨_, _, ht⟩
  | ahead ht _ _ => exact ⟨_, _, List.mem_of_getElem? ht⟩

namespace Tracks

/-- Locks that nobody uses. -/
theorem new : Tracks (fun _ : L => (RwLock.new : RwLock n T)) fun _ => LockUse.none where
  mem_entries t l a := by simp
  granted t l a h := nomatch h
  nodup l := List.nodup_nil

section

variable [DecidableEq T] {w : LockUse L}

/-- A task goes on without touching a lock; it may take up the lock it has asked for. -/
theorem stay (h : Tracks locks use) (hat : ∀ c, w.At c ↔ (use t).At c)
    (hheld : ∀ l a, (l, a) ∈ w.held → (t, a) ∈ (locks l).holders) :
    Tracks locks (update use t w) where
  mem_entries u l a := by
    rcases eq_or_ne u t with rfl | hu
    · rw [Function.update_self, hat]
      exact h.mem_entries u l a
    · rw [Function.update_of_ne hu]
      exact h.mem_entries u l a
  granted u l a := by
    rcases eq_or_ne u t with rfl | hu
    · rw [Function.update_self]
      exact hheld l a
    · rw [Function.update_of_ne hu]
      exact h.granted u l a
  nodup := h.nodup

variable [DecidableEq L]

/-- A task asks for a lock at which it is not. -/
theorem acquire (h : Tracks locks use) (hnew : ∀ a, ¬ (use t).At (l, a))
    (hat : ∀ c, w.At c ↔ (use t).At c ∨ c = (l, b))
    (hheld : ∀ l a, (l, a) ∈ w.held → (t, a) ∈ (locks l).holders) :
    Tracks (update locks l ((locks l).acquire t b)) (update use t w) where
  mem_entries u k a := by
    have hmem := h.mem_entries u k a
    rcases eq_or_ne k l with rfl | hk
    · rw [Function.update_self, RwLock.entries_acquire, List.mem_append, List.mem_singleton, hmem]
      rcases eq_or_ne u t with rfl | hu
      · rw [Function.update_self, hat, Prod.mk_right_inj, Prod.mk_right_inj]
      · rw [Function.update_of_ne hu]
        exact or_iff_left fun heq => hu (Prod.mk_inj.mp heq).1
    · rw [Function.update_of_ne hk, hmem]
      rcases eq_or_ne u t with rfl | hu
      · rw [Function.update_self, hat]
        exact (or_iff_left fun heq => hk (Prod.mk_inj.mp heq).1).symm
      · rw [Function.update_of_ne hu]
  granted u k a := by
    -- asking takes no lock from anybody
    have hold : (u, a) ∈ (locks k).holders →
        (u, a) ∈ (update locks l ((locks l).acquire t b) k).holders := by
      intro hmem
      rcases eq_or_ne k l with rfl | hk
      · rw [Function.update_self]
        exact RwLock.mem_holders_acquire hmem
      · rwa [Function.update_of_ne hk]
    rcases eq_or_ne u t with rfl | hu
    · rw [Function.update_self]
      exact fun hmem => hold (hheld k a hmem)
    · rw [Function.update_of_ne hu]
      exact fun hmem => hold (h.granted u k a hmem)
  nodup k := by
    rcases eq_or_ne k l with rfl | hk
    · rw [Function.update_self, RwLock.entries_acquire, ← List.concat_eq_append, List.map_concat]
      apply (h.nodup k).concat
      -- an entry of the task would be a use of the lock
      intro hmem
      obtain ⟨⟨u, a⟩, hentry, rfl⟩ := List.mem_map.mp hmem
      exact hnew a ((h.mem_entries u k a).mp hentry)
    · rw [Function.update_of_ne hk]
      exact h.nodup k

/-- A task leaves a lock, whether it holds it or not. -/
theorem leave (h : Tracks locks use) (hat : ∀ c, w.At c ↔ (use t).At c ∧ c.1 ≠ l)
    (hheld : ∀ l a, (l, a) ∈ w.held → (t, a) ∈ (locks l).holders) :
    Tracks (update locks l ((locks l).leave t)) (update use t w) where
  mem_entries u k a := by
    have hmem := h.mem_entries u k a
    rcases eq_or_ne k l with rfl | hk
    · rw [Function.update_self, RwLock.entries_leave, List.mem_filter, hmem, decide_eq_true_iff]
      rcases eq_or_ne u t with rfl | hu
      · rw [Function.update_self, hat]
        simp
      · rw [Function.update_of_ne hu]
        exact and_iff_left hu
    · rw [Function.update_of_ne hk, hmem]
      rcases eq_or_ne u t with rfl | hu
      · rw [Function.update_self, hat]
        exact (and_iff_left hk).symm
      · rw [Function.update_of_ne hu]
  granted u k a := by
    rcases eq_or_ne k l with rfl | hk
    · rw [Function.update_self]
      rcases eq_or_ne u t with rfl | hu
      · rw [Function.update_self]
        exact fun hmem => absurd rfl ((hat (k, a)).mp (.inl hmem)).2
      · rw [Function.update_of_ne hu]
        exact fun hmem => RwLock.mem_holders_leave (h.granted u k a hmem) hu
    · rw [Function.update_of_ne hk]
      rcases eq_or_ne u t with rfl | hu
      · rw [Function.update_self]
        exact hheld k a
      · rw [Function.update_of_ne hu]
        exact h.granted u k a
  nodup k := by
    rcases eq_or_ne k l with rfl | hk
    · rw [Function.update_self, RwLock.entries_leave]
      exact (h.nodup k).sublist (List.filter_sublist.map _)
    · rw [Function.update_of_ne hk]
      exact h.nodup k

/-- **Step rule.** The locks are as they are used after a step whose guards were the task's
before it. -/
theorem apply (h : Tracks locks use) {op : LockOp L} (hfits : op.Fits (use t) w)
    (hheld : ∀ l a, (l, a) ∈ w.held → (t, a) ∈ (locks l).holders) :
    Tracks (op.apply t locks) (update use t w) := by
  cases op with
  | ask l a => exact h.acquire hfits.1 hfits.2 hheld
  | drop l => exact h.leave hfits hheld
  | keep => exact h.stay hfits hheld

end

/-! ### Who waits for whom -/

theorem not_mem_holders_of_mem_queue (h : Tracks locks use) (ht : (t, a) ∈ (locks l).queue) :
    (t, b) ∉ (locks l).holders := by
  -- a task is at a lock once, as a holder or in the queue
  have hnodup := h.nodup l
  rw [RwLock.entries, List.map_append] at hnodup
  exact fun hb => List.disjoint_of_nodup_append hnodup (List.mem_map.mpr ⟨_, hb, rfl⟩)
    (List.mem_map.mpr ⟨_, ht, rfl⟩)

/-- A task is in a queue only for the lock it has asked for. -/
theorem wants_of_mem_queue (h : Tracks locks use) (ht : (t, a) ∈ (locks l).queue) :
    (use t).wants = some (l, a) := by
  rcases (h.mem_entries t l a).mp (RwLock.mem_entries.mpr (.inr ht)) with hheld | hwants
  · exact absurd (h.granted t l a hheld) (h.not_mem_holders_of_mem_queue ht)
  · exact hwants

/-- A task that waits for no lock has all at which it is. -/
theorem mem_holders_of_at (h : Tracks locks use) (ht : ¬ Waiting locks t)
    (hat : (use t).At (l, a)) : (t, a) ∈ (locks l).holders := by
  rcases RwLock.mem_entries.mp ((h.mem_entries t l a).mpr hat) with hmem | hmem
  · exact hmem
  · exact absurd ⟨l, a, hmem⟩ ht

/-- A task has one place in the queues. -/
theorem place_unique (h : Tracks locks use) {i j : ℕ} (hi : (locks l).queue[i]? = some (t, a))
    (hj : (locks l').queue[j]? = some (t, b)) : l = l' ∧ i = j := by
  have hwants := h.wants_of_mem_queue (List.mem_of_getElem? hi)
  rw [h.wants_of_mem_queue (List.mem_of_getElem? hj), Option.some_inj, Prod.mk_inj] at hwants
  obtain ⟨rfl, rfl⟩ := hwants
  have hnodup := (List.Nodup.of_map _ (h.nodup l')).of_append_right
  exact ⟨rfl, (List.getElem?_inj (List.getElem?_eq_some_iff.mp hi).1 hnodup).mp
    (hi.trans hj.symm)⟩

variable [Preorder α] {rank : L → α}

/-- A waiting task that holds a lock waits for a lock above it. -/
theorem rank_lt (h : Tracks locks use) (hord : ∀ t, Ordered rank (use t))
    (hheld : (t, a) ∈ (locks l).holders) (hqueue : (t, b) ∈ (locks l').queue) :
    rank l < rank l' := by
  have hwants := h.wants_of_mem_queue hqueue
  rcases (h.mem_entries t l a).mp (RwLock.mem_entries.mpr (.inl hheld)) with hmem | hmem
  · exact hord t (l, a) hmem (l', b) hwants
  · -- the lock it waits for it does not hold
    rw [hmem, Option.some_inj, Prod.mk_inj] at hwants
    obtain ⟨rfl, rfl⟩ := hwants
    exact absurd hheld (h.not_mem_holders_of_mem_queue hqueue)

/-- **Progress.** Behind every waiting task there is one that holds a lock and waits for
none. -/
theorem exists_waitsFor [WellFoundedGT α] (h : Tracks locks use)
    (hord : ∀ t, Ordered rank (use t)) (hn : 0 < n) (ht : Waiting locks t) :
    ∃ u, Relation.TransGen (WaitsFor locks) t u ∧ ¬ Waiting locks u ∧
      ∃ l a, (u, a) ∈ (locks l).holders := by
  obtain ⟨l, a, ht⟩ := ht
  -- the induction goes up the ranks
  induction hr : rank l using WellFoundedGT.induction generalizing t l a with
  | ind r ih =>
    obtain ⟨⟨u, b⟩, hu⟩ := RwLock.exists_holder hn ht
    -- a lock with a queue has a holder, which may itself wait, for a lock of higher rank
    have hwaits : WaitsFor locks t u := .holder ht hu
    by_cases huw : Waiting locks u
    · obtain ⟨l', c, hq⟩ := huw
      have hlt := h.rank_lt hord hu hq
      obtain ⟨v, huv, hv⟩ := ih (rank l') (hr ▸ hlt) l' c hq rfl
      exact ⟨v, .head hwaits huv, hv⟩
    · exact ⟨u, .single hwaits, huw, l, b, hu⟩

/-- Waiting tasks stand in the order of their locks, and in that of the queue at one lock. -/
theorem place_lt (h : Tracks locks use) (hord : ∀ t, Ordered rank (use t)) {j : ℕ}
    (htu : Relation.TransGen (WaitsFor locks) t u) (hj : (locks l').queue[j]? = some (u, b)) :
    ∃ l a i, (locks l).queue[i]? = some (t, a) ∧
      (rank l < rank l' ∨ l = l' ∧ j < i) := by
  have step : ∀ {t u : T} {l' b} {j : ℕ}, WaitsFor locks t u → (locks l').queue[j]? = some (u, b) →
      ∃ l a i, (locks l).queue[i]? = some (t, a) ∧ (rank l < rank l' ∨ l = l' ∧ j < i) := by
    intro t u l' b j htu hj
    cases htu with
    | @holder l a c ht hu =>
      obtain ⟨i, hi⟩ := List.mem_iff_getElem?.mp ht
      exact ⟨l, a, i, hi, .inl (h.rank_lt hord hu (List.mem_of_getElem? hj))⟩
    | @ahead l a c i k ht hu hlt =>
      obtain ⟨rfl, rfl⟩ := h.place_unique hu hj
      exact ⟨l, a, i, ht, .inr ⟨rfl, hlt⟩⟩
  induction htu using Relation.TransGen.head_induction_on with
  | single htu => exact step htu hj
  | head htv _ ih =>
    obtain ⟨l, a, i, hi, hlt⟩ := ih
    obtain ⟨k, c, m, hm, hlt'⟩ := step htv hi
    refine ⟨k, c, m, hm, ?_⟩
    -- two steps up the ranks, or towards the head of one queue
    rcases hlt' with hlt' | ⟨rfl, hmi⟩
    · rcases hlt with hlt | ⟨rfl, -⟩
      · exact .inl (hlt'.trans hlt)
      · exact .inl hlt'
    · rcases hlt with hlt | ⟨rfl, hij⟩
      · exact .inl hlt
      · exact .inr ⟨rfl, hij.trans hmi⟩

/-- **Acyclicity.** No task waits for itself. -/
theorem not_waitsFor_self (h : Tracks locks use) (hord : ∀ t, Ordered rank (use t)) :
    ¬ Relation.TransGen (WaitsFor locks) t t := by
  intro hcycle
  -- the task would stand before its own place
  obtain ⟨u, htu, -⟩ := Relation.TransGen.head'_iff.mp hcycle
  obtain ⟨l, a, ht⟩ := htu.waiting
  obtain ⟨j, hj⟩ := List.mem_iff_getElem?.mp ht
  obtain ⟨k, b, i, hi, hlt⟩ := h.place_lt hord hcycle hj
  obtain ⟨rfl, rfl⟩ := h.place_unique hi hj
  rcases hlt with hlt | ⟨-, hlt⟩
  · exact lt_irrefl _ hlt
  · exact lt_irrefl _ hlt

end Tracks

end SignalSim
