import Mathlib.Algebra.Order.BigOperators.Group.List
import Mathlib.Algebra.Order.Ring.Nat
import Mathlib.Tactic.Common

/-!
# First-come-first-served reader-writer locks

A lock with `n` permits, of which a reader takes one and a writer all. Whoever asks for
it queues up behind those who asked before; the head of the queue gets the lock as soon as its
permits are there, whether or not it is being run at that time. So a writer in the queue blocks
every later reader.

## Main definitions

* `RwLock` — the holders and the queue, whose head the free permits do not suffice for
* `RwLock.acquire` — a task asks for the lock
* `RwLock.leave` — a task drops its guard, or its place in the queue

## Main results

* `RwLock.entries_acquire`, `RwLock.entries_leave` — who is at a lock, in the order of arrival
* `RwLock.mem_holders_acquire`, `RwLock.mem_holders_leave` — nobody loses the lock to another
* `RwLock.exists_holder` — nobody waits for a lock that nobody holds
-/

namespace SignalSim

/-- What a task wants with a lock. -/
inductive Access
  | read
  | write
  deriving DecidableEq

/-- How many of the `n` permits it takes. -/
def Access.permits (n : ℕ) : Access → ℕ
  | read => 1
  | write => n

variable {n : ℕ} {T : Type*}

/-- The permits of a list of holders. -/
def permitsUsed (n : ℕ) (hs : List (T × Access)) : ℕ := (hs.map fun e => e.2.permits n).sum

/-- A lock with `n` permits: who holds it and who waits for it, in the order of arrival. -/
structure RwLock (n : ℕ) (T : Type*) where
  holders : List (T × Access)
  queue : List (T × Access)
  fits : permitsUsed n holders ≤ n
  settled : ∀ e ∈ queue.head?, n < permitsUsed n holders + e.2.permits n

theorem Access.permits_le (hn : 0 < n) (a : Access) : a.permits n ≤ n := by
  cases a with
  | read => exact hn
  | write => exact le_refl n

@[simp] theorem permitsUsed_nil : permitsUsed n ([] : List (T × Access)) = 0 := rfl

theorem permitsUsed_concat (hs : List (T × Access)) (e : T × Access) :
    permitsUsed n (hs ++ [e]) = permitsUsed n hs + e.2.permits n := by
  simp [permitsUsed]

theorem permitsUsed_filter_le (p : T × Access → Bool) (hs : List (T × Access)) :
    permitsUsed n (hs.filter p) ≤ permitsUsed n hs :=
  (List.filter_sublist.map _).sum_le_sum fun _ _ => Nat.zero_le _

namespace RwLock

/-- Nobody is there. -/
def new : RwLock n T := ⟨[], [], Nat.zero_le n, fun _ h => nomatch h⟩

theorem settled_cons {hs es : List (T × Access)} {e : T × Access}
    (h : ¬ permitsUsed n (hs ++ [e]) ≤ n) :
    ∀ f ∈ (e :: es).head?, n < permitsUsed n hs + f.2.permits n := by
  rintro f ⟨⟩
  rw [permitsUsed_concat] at h
  exact Nat.lt_of_not_le h

/-- The head of the queue gets the lock for as long as its permits are there. -/
def settle (hs : List (T × Access)) (h : permitsUsed n hs ≤ n) : List (T × Access) → RwLock n T
  | [] => ⟨hs, [], h, fun _ h => nomatch h⟩
  | e :: es =>
    -- strictly in order: nobody is let through past the head
    if he : permitsUsed n (hs ++ [e]) ≤ n then settle (hs ++ [e]) he es
    else ⟨hs, e :: es, h, settled_cons he⟩

/-- `t` asks for the lock. -/
def acquire (x : RwLock n T) (t : T) (a : Access) : RwLock n T :=
  settle x.holders x.fits (x.queue ++ [(t, a)])

/-- `t` drops what it has of the lock, its guard or its place in the queue. -/
def leave [DecidableEq T] (x : RwLock n T) (t : T) : RwLock n T :=
  settle (x.holders.filter fun e => e.1 ≠ t) (Nat.le_trans (permitsUsed_filter_le _ _) x.fits)
    (x.queue.filter fun e => e.1 ≠ t)

/-- All who are at the lock, the holders first. -/
def entries (x : RwLock n T) : List (T × Access) := x.holders ++ x.queue

variable {x : RwLock n T} {t u : T} {a b : Access} {hs es : List (T × Access)} {e : T × Access}

theorem mem_entries : e ∈ x.entries ↔ e ∈ x.holders ∨ e ∈ x.queue := List.mem_append

@[simp] theorem entries_new : (new : RwLock n T).entries = [] := rfl

/-- Settling moves the border between holders and queue, nothing else. -/
theorem entries_settle (h : permitsUsed n hs ≤ n) : (settle hs h es).entries = hs ++ es := by
  induction es generalizing hs with
  | nil => rfl
  | cons e es ih =>
    unfold settle
    split
    · rw [ih]
      exact List.append_cons hs e es |>.symm
    · rfl

/-- It moves it in one direction. -/
theorem mem_holders_settle (h : permitsUsed n hs ≤ n) (he : e ∈ hs) :
    e ∈ (settle hs h es).holders := by
  induction es generalizing hs with
  | nil => exact he
  | cons f es ih =>
    unfold settle
    split
    · exact ih _ (List.mem_append_left [f] he)
    · exact he

@[simp] theorem entries_acquire : (x.acquire t a).entries = x.entries ++ [(t, a)] := by
  rw [acquire, entries_settle, entries, List.append_assoc]

theorem mem_holders_acquire (he : e ∈ x.holders) : e ∈ (x.acquire t a).holders :=
  mem_holders_settle x.fits he

/-- Nobody waits for a lock that nobody holds. -/
theorem exists_holder (hn : 0 < n) (he : e ∈ x.queue) : ∃ f, f ∈ x.holders := by
  apply List.exists_mem_of_ne_nil
  intro hnil
  obtain ⟨f, fs, hq⟩ := List.exists_cons_of_ne_nil (List.ne_nil_of_mem he)
  -- a free lock has the permits for the head of its queue
  have hblocked := x.settled f (by rw [hq]; rfl)
  rw [hnil, permitsUsed_nil, Nat.zero_add] at hblocked
  exact Nat.not_lt_of_le (f.2.permits_le hn) hblocked

section

variable [DecidableEq T]

@[simp] theorem entries_leave :
    (x.leave t).entries = x.entries.filter fun e => e.1 ≠ t := by
  rw [leave, entries_settle, entries, List.filter_append]

theorem mem_holders_leave (he : e ∈ x.holders) (ht : e.1 ≠ t) : e ∈ (x.leave t).holders :=
  mem_holders_settle _ (List.mem_filter.mpr ⟨he, decide_eq_true ht⟩)

end

end RwLock

end SignalSim
