import Mathlib.Data.List.Basic
import Mathlib.Logic.Function.Basic
import SignalSim.Foundations.Fifo
import SignalSim.Foundations.Transition
import SignalSim.Mgen.Updater

/-!
# The sender task of a client

`send_messages` of `mgen-server.rs` with its variables: the current socket, the notify that goes
with it and the cached message, which the loop assigns one by one. Around it are the handshake
tasks of the client's connections, each of which makes a new notify, spawns a reader with it and
sends it with the write half to the updater, and the receivers of other clients that put messages
on the channel. Handshake tasks may overtake each other.

A message is written with `write_all_to` and then flushed; either may fail. Connections are
numbered in the order of their handshakes, notifies in the order in which they are made.

## Main definitions

* `SendMessages` — the variables of the task and what it has done
* `SendMessages.step` — one step of the task or around it

## Main results

* `SendMessages.sender_accounts` — no message is lost or overtaken, and a failure ends only the
  reader of the connection that failed
-/

namespace SignalSim.Mgen

open Function (update)

/-- Where `send_messages` is. -/
inductive SendTask (M : Type)
  /-- Waits for its first socket. -/
  | starting
  /-- At the head of the loop. -/
  | looping
  /-- Waits for a message. -/
  | receiving
  | writing (message : M)
  | flushing (message : M)
  /-- Shuts the failed socket down. -/
  | shutdown
  /-- Waits for the next socket. -/
  | reconnecting
  /-- The expectation "message channel closed" failed. -/
  | panicked
  deriving DecidableEq

/-- The message that is being written. -/
def SendTask.inHand {M : Type} : SendTask M → List M
  | writing m | flushing m => [m]
  | _ => []

/-- What the task has written to a socket it took: the message that was cached then, and the
messages since. -/
structure SocketUse (M : Type) where
  socket : ℕ
  cached : Option M
  writes : List M
  deriving DecidableEq

/-- The task, its channel and updater, and the client's connections. -/
structure SendMessages (M : Type) where
  task : SendTask M
  currentSocket : Option ℕ
  currentWatch : Option ℕ
  messageCache : Option M
  msgRcv : Fifo M
  /-- No receiver holds a sending end of the channel any more. -/
  closed : Bool
  socketUpdater : Updater (ℕ × ℕ)
  /-- How many connections of the client there have been, and how many notifies. -/
  connections : ℕ
  notifies : ℕ
  /-- The handshake task of a connection that still has the write half, with its notify. -/
  handshake : ℕ → Option ℕ
  /-- The notify that ends the reader of a connection. -/
  readerNotify : ℕ → Option ℕ
  notified : ℕ → Bool
  /-- The messages that were written and flushed. -/
  sent : List M
  /-- The sockets taken, the latest one first. -/
  uses : List (SocketUse M)
  /-- The failures: the socket, and the notify that was notified. -/
  failures : List (Option ℕ × Option ℕ)

inductive SendAction (M : Type)
  /-- Another client's receiver puts a message on the channel. -/
  | enqueue (message : M)
  | close
  /-- A handshake: a new notify, and a reader that waits for it. -/
  | connect
  /-- `socket_updater.send((wr, socket_notify))` -/
  | handOver (connection : ℕ)
  /-- `socket_updater.recv()` -/
  | takeSocket
  /-- The head of the loop. -/
  | loop
  /-- `msg_rcv.recv()` -/
  | receive
  /-- `msg_rcv.recv()` on a closed channel. -/
  | receiveClosed
  | written
  | writeError
  | flushed
  | flushError
  | shutdown
  deriving DecidableEq

namespace SendMessages

variable {M : Type}

/-- The newly registered client: its first socket is in the updater, its first reader waits. -/
def init : SendMessages M where
  task := .starting
  currentSocket := none
  currentWatch := none
  messageCache := none
  msgRcv := .empty
  closed := false
  socketUpdater := Updater.new.send (0, 0)
  connections := 1
  notifies := 1
  handshake _ := none
  readerNotify := update (fun _ => none) 0 (some 0)
  notified _ := false
  sent := []
  uses := []
  failures := []

/-- A message is written to the current socket. -/
def recordWrite (m : M) : List (SocketUse M) → List (SocketUse M)
  | [] => []
  | use :: uses => { use with writes := use.writes ++ [m] } :: uses

section

variable (s : SendMessages M)

/-- A handshake task makes a notify and spawns a reader. -/
def connect : SendMessages M :=
  { s with
    connections := s.connections + 1
    notifies := s.notifies + 1
    handshake := update s.handshake s.connections (some s.notifies)
    readerNotify := update s.readerNotify s.connections (some s.notifies) }

/-- A handshake task sends the write half and the notify. -/
def handOver (connection socketNotify : ℕ) : SendMessages M :=
  { s with
    handshake := update s.handshake connection none
    socketUpdater := s.socketUpdater.send (connection, socketNotify) }

/-- `(current_socket, current_watch) = socket_updater.recv()` -/
def takeSocket (socket watch : ℕ) : SendMessages M :=
  { s with
    task := .looping
    currentSocket := some socket
    currentWatch := some watch
    socketUpdater := s.socketUpdater.recv.2
    uses := ⟨socket, s.messageCache, []⟩ :: s.uses }

/-- The write of a message begins. -/
def beginWrite (m : M) : SendMessages M :=
  { s with task := .writing m, uses := recordWrite m s.uses }

/-- The message is cached and the reader of the socket notified. -/
def fail (m : M) : SendMessages M :=
  { s with
    task := .shutdown
    messageCache := some m
    notified := s.currentWatch.elim s.notified fun watch => update s.notified watch true
    failures := (s.currentSocket, s.currentWatch) :: s.failures }

/-- One step. -/
def step (s : SendMessages M) : SendAction M → Option (SendMessages M)
  | .enqueue m => if s.closed then none else some { s with msgRcv := s.msgRcv.push m }
  | .close => some { s with closed := true }
  | .connect => some s.connect
  | .handOver c => (s.handshake c).map fun socketNotify => s.handOver c socketNotify
  | .takeSocket =>
    match s.task, s.socketUpdater.recv.1 with
    | .starting, some (socket, watch) | .reconnecting, some (socket, watch) =>
      some (s.takeSocket socket watch)
    | _, _ => none
  | .loop =>
    match s.task, s.messageCache with
    -- the message is moved out of the cache
    | .looping, some m => some ({ s with messageCache := none }.beginWrite m)
    | .looping, none => some { s with task := .receiving }
    | _, _ => none
  | .receive =>
    match s.task, s.msgRcv.pop? with
    | .receiving, some (m, q) => some ({ s with msgRcv := q }.beginWrite m)
    | _, _ => none
  | .receiveClosed =>
    match s.task with
    | .receiving =>
      if s.closed ∧ s.msgRcv.pending = [] then some { s with task := .panicked } else none
    | _ => none
  | .written =>
    match s.task with
    | .writing m => some { s with task := .flushing m }
    | _ => none
  | .flushed =>
    match s.task with
    | .flushing m => some { s with task := .looping, messageCache := none, sent := s.sent ++ [m] }
    | _ => none
  | .writeError =>
    match s.task with
    | .writing m => some (s.fail m)
    | _ => none
  | .flushError =>
    match s.task with
    | .flushing m => some (s.fail m)
    | _ => none
  | .shutdown =>
    match s.task with
    | .shutdown => some { s with task := .reconnecting }
    | _ => none

end

/-- The ways in which the task and what is around it step. -/
inductive Step (s : SendMessages M) : SendAction M → SendMessages M → Prop
  | enqueue {m} : Step s (.enqueue m) { s with msgRcv := s.msgRcv.push m }
  | close : Step s .close { s with closed := true }
  | connect : Step s .connect s.connect
  | handOver {c n} : s.handshake c = some n → Step s (.handOver c) (s.handOver c n)
  | takeSocket {k w} : s.task = .starting ∨ s.task = .reconnecting →
      s.socketUpdater.object = some (k, w) → Step s .takeSocket (s.takeSocket k w)
  | loopCached {m} : s.task = .looping → s.messageCache = some m →
      Step s .loop ({ s with messageCache := none }.beginWrite m)
  | loop : s.task = .looping → s.messageCache = none →
      Step s .loop { s with task := .receiving }
  | receive {m q} : s.task = .receiving → s.msgRcv.pop? = some (m, q) →
      Step s .receive ({ s with msgRcv := q }.beginWrite m)
  | receiveClosed : s.task = .receiving → Step s .receiveClosed { s with task := .panicked }
  | written {m} : s.task = .writing m → Step s .written { s with task := .flushing m }
  | flushed {m} : s.task = .flushing m → Step s .flushed
      { s with task := .looping, messageCache := none, sent := s.sent ++ [m] }
  | fail {a m} :
      (a = .writeError ∧ s.task = .writing m) ∨ (a = .flushError ∧ s.task = .flushing m) →
      Step s a (s.fail m)
  | shutdown : s.task = .shutdown → Step s .shutdown { s with task := .reconnecting }

variable {s t : SendMessages M} {a : SendAction M}

/-- **Inversion.** What a step can have been. -/
theorem step_cases (h : s.step a = some t) : Step s a t := by
  cases a with
  | enqueue m =>
    obtain ⟨-, ⟨⟩⟩ := Option.ite_none_left_eq_some.mp h
    exact .enqueue
  | close => exact Option.some_inj.mp h ▸ .close
  | connect => exact Option.some_inj.mp h ▸ .connect
  | handOver c =>
    obtain ⟨n, hn, rfl⟩ := Option.map_eq_some_iff.mp h
    exact .handOver hn
  | takeSocket =>
    simp only [step, Updater.recv_fst] at h
    split at h
    · exact Option.some_inj.mp h ▸ .takeSocket (.inl ‹_›) ‹_›
    · exact Option.some_inj.mp h ▸ .takeSocket (.inr ‹_›) ‹_›
    · cases h
  | loop =>
    simp only [step] at h
    split at h
    · exact Option.some_inj.mp h ▸ .loopCached ‹_› ‹_›
    · exact Option.some_inj.mp h ▸ .loop ‹_› ‹_›
    · cases h
  | receive =>
    simp only [step] at h
    split at h
    · exact Option.some_inj.mp h ▸ .receive ‹_› ‹_›
    · cases h
  | receiveClosed =>
    simp only [step] at h
    split at h
    · obtain ⟨-, ⟨⟩⟩ := Option.ite_none_right_eq_some.mp h
      exact .receiveClosed ‹_›
    · cases h
  | written =>
    simp only [step] at h
    split at h
    · exact Option.some_inj.mp h ▸ .written ‹_›
    · cases h
  | flushed =>
    simp only [step] at h
    split at h
    · exact Option.some_inj.mp h ▸ .flushed ‹_›
    · cases h
  | writeError =>
    simp only [step] at h
    split at h
    · exact Option.some_inj.mp h ▸ .fail (.inl ⟨rfl, ‹_›⟩)
    · cases h
  | flushError =>
    simp only [step] at h
    split at h
    · exact Option.some_inj.mp h ▸ .fail (.inr ⟨rfl, ‹_›⟩)
    · cases h
  | shutdown =>
    simp only [step] at h
    split at h
    · exact Option.some_inj.mp h ▸ .shutdown ‹_›
    · cases h

/-! ### What every step preserves -/

/-- The message that the task has: the cached one, or the one being written. -/
def held (s : SendMessages M) : List M := s.task.inHand ++ s.messageCache.toList

/-- What is written to a socket first is the message that was cached when it was taken. -/
def CachedFirst (use : SocketUse M) : Prop := ∀ m ∈ use.cached, ∀ w ∈ use.writes.head?, w = m

/-- The messages: those taken from the channel are sent or held, and a cached message is the
first to be written to the next socket. -/
structure Accounted (s : SendMessages M) : Prop where
  received_eq : s.msgRcv.received = s.sent ++ s.held
  one : s.task.inHand = [] ∨ s.messageCache = none
  waiting : s.task = .starting ∨ s.task = .receiving → s.messageCache = none
  cachedFirst : ∀ use ∈ s.uses, CachedFirst use
  unused : ∀ use ∈ s.uses.head?, use.writes = [] →
    (s.task = .looping ∧ s.messageCache = use.cached) ∨
      ((s.task = .receiving ∨ s.task = .panicked) ∧ use.cached = none)

theorem mem_recordWrite {m : M} {uses : List (SocketUse M)} {use : SocketUse M}
    (h : use ∈ recordWrite m uses) :
    use ∈ uses ∨ ∃ use₀ ∈ uses.head?, use = { use₀ with writes := use₀.writes ++ [m] } := by
  cases uses with
  | nil => cases h
  | cons use₀ uses =>
    rcases List.mem_cons.mp h with rfl | h
    · exact .inr ⟨use₀, rfl, rfl⟩
    · exact .inl (List.mem_cons_of_mem _ h)

/-- A write to the current socket begins with a message that was cached if the socket is
unused. -/
theorem Accounted.recordWrite {m : M} (hs : s.Accounted)
    (hcached : ∀ use ∈ s.uses.head?, use.writes = [] → ∀ c ∈ use.cached, c = m) :
    ∀ use ∈ recordWrite m s.uses, CachedFirst use := by
  intro use huse
  rcases mem_recordWrite huse with huse | ⟨use₀, huse₀, rfl⟩
  · exact hs.cachedFirst use huse
  · intro c hc w hw
    by_cases hnil : use₀.writes = []
    · -- the first message that goes to this socket
      obtain rfl : m = w := by simpa [hnil] using hw
      exact (hcached use₀ huse₀ hnil c hc).symm
    · rw [List.head?_append_of_ne_nil _ hnil] at hw
      exact hs.cachedFirst use₀ (List.mem_of_mem_head? huse₀) c hc w hw

/-- A socket that has been written to is not unused. -/
theorem writes_ne_nil_of_recordWrite {m : M} {use : SocketUse M}
    (h : use ∈ (SendMessages.recordWrite m s.uses).head?) : use.writes ≠ [] := by
  cases huses : s.uses with
  | nil =>
    rw [huses] at h
    cases h
  | cons use₀ uses =>
    rw [huses] at h
    obtain rfl := Option.some_inj.mp h
    exact List.append_ne_nil_of_right_ne_nil _ (List.cons_ne_nil _ _)

theorem accounted_step (hs : s.Accounted) (h : Step s a t) : t.Accounted := by
  obtain ⟨hreceived, hone, hwaiting, hfirst, hunused⟩ := hs
  cases h with
  | enqueue => exact ⟨by simpa [held] using hreceived, hone, hwaiting, hfirst, hunused⟩
  | close | connect | handOver => exact ⟨hreceived, hone, hwaiting, hfirst, hunused⟩
  | @takeSocket k w htask _ =>
    have hinHand : s.task.inHand = [] := by
      rcases htask with h | h <;> rw [h] <;> rfl
    refine ⟨?_, .inl rfl, (by simp [SendMessages.takeSocket]), ?_, ?_⟩
    · rw [held, hinHand] at hreceived
      exact hreceived
    · -- nothing has been written to the socket just taken
      intro use huse
      rcases List.mem_cons.mp huse with rfl | huse
      · intro c _ w hw
        cases hw
      · exact hfirst use huse
    · intro use huse _
      obtain rfl := Option.some_inj.mp huse
      exact .inl ⟨rfl, rfl⟩
  | @loopCached m htask hcache =>
    refine ⟨?_, .inr rfl, fun _ => rfl, ?_, ?_⟩
    · simpa [held, htask, hcache, beginWrite, SendTask.inHand] using hreceived
    · apply Accounted.recordWrite ⟨hreceived, hone, hwaiting, hfirst, hunused⟩
      intro use huse hnil c hc
      -- the cache is that of the time when the socket was taken
      rcases hunused use huse hnil with ⟨-, hsame⟩ | ⟨htask', -⟩
      · rw [hsame, hc] at hcache
        exact Option.some_inj.mp hcache
      · simp [htask] at htask'
    · intro use huse hnil
      exact absurd hnil (writes_ne_nil_of_recordWrite huse)
  | loop htask hcache =>
    refine ⟨?_, .inl rfl, fun _ => hcache, hfirst, ?_⟩
    · simpa [held, htask, hcache, SendTask.inHand] using hreceived
    · intro use huse hnil
      rcases hunused use huse hnil with ⟨-, hsame⟩ | ⟨htask', -⟩
      · exact .inr ⟨.inl rfl, hsame ▸ hcache⟩
      · simp [htask] at htask'
  | @receive m q htask hq =>
    have hcache := hwaiting (.inr htask)
    refine ⟨?_, .inr hcache, (by simp [beginWrite]), ?_, ?_⟩
    · have hnew := (Fifo.pop?_eq_some hq).2.1
      simpa [held, htask, hcache, beginWrite, SendTask.inHand, hnew] using hreceived
    · apply Accounted.recordWrite ⟨hreceived, hone, hwaiting, hfirst, hunused⟩
      intro use huse hnil c hc
      -- a message is taken from the channel only if none was cached
      rcases hunused use huse hnil with ⟨htask', -⟩ | ⟨-, hnone⟩
      · simp [htask] at htask'
      · rw [hnone] at hc
        cases hc
    · intro use huse hnil
      exact absurd hnil (writes_ne_nil_of_recordWrite huse)
  | receiveClosed htask =>
    refine ⟨?_, .inl rfl, (by simp), hfirst, ?_⟩
    · simpa [held, htask, SendTask.inHand] using hreceived
    · intro use huse hnil
      rcases hunused use huse hnil with ⟨htask', -⟩ | ⟨-, hnone⟩
      · simp [htask] at htask'
      · exact .inr ⟨.inr rfl, hnone⟩
  | @written m htask =>
    refine ⟨?_, ?_, (by simp), hfirst, ?_⟩
    · simpa [held, htask, SendTask.inHand] using hreceived
    · simpa [htask, SendTask.inHand] using hone
    · intro use huse hnil
      simpa [htask] using hunused use huse hnil
  | @flushed m htask =>
    have hcache : s.messageCache = none := by simpa [htask, SendTask.inHand] using hone
    refine ⟨?_, .inl rfl, fun _ => rfl, hfirst, ?_⟩
    · simpa [held, htask, hcache, SendTask.inHand] using hreceived
    · intro use huse hnil
      simpa [htask] using hunused use huse hnil
  | @fail _ m htask =>
    -- either way the message was at hand, and some message has been written to the socket
    have hinHand : s.task.inHand = [m] := by
      rcases htask with ⟨-, h⟩ | ⟨-, h⟩ <;> rw [h] <;> rfl
    have hcache : s.messageCache = none := by simpa [hinHand] using hone
    refine ⟨?_, .inl rfl, (by simp [SendMessages.fail]), hfirst, ?_⟩
    · rw [held, hinHand, hcache] at hreceived
      exact hreceived
    · intro use huse hnil
      rcases htask with ⟨-, h⟩ | ⟨-, h⟩ <;> simpa [h] using hunused use huse hnil
  | shutdown htask =>
    refine ⟨?_, .inl rfl, (by simp), hfirst, ?_⟩
    · simpa [held, htask, SendTask.inHand] using hreceived
    · intro use huse hnil
      simpa [htask] using hunused use huse hnil

theorem Accounted.init : (init : SendMessages M).Accounted :=
  ⟨rfl, .inl rfl, fun _ => rfl, (by simp [SendMessages.init]), (by simp [SendMessages.init])⟩

/-- The connections: every notify belongs to one reader, and wherever a socket and a notify are
together they come from one connection. -/
structure Paired (s : SendMessages M) : Prop where
  unused : ∀ c, s.connections ≤ c → s.readerNotify c = none
  lt : ∀ c n, s.readerNotify c = some n → n < s.notifies
  injective : ∀ c c' n, s.readerNotify c = some n → s.readerNotify c' = some n → c = c'
  handshake : ∀ c n, s.handshake c = some n → s.readerNotify c = some n
  object : ∀ k w, s.socketUpdater.object = some (k, w) → s.readerNotify k = some w
  current : s.task = .starting ∨ ∃ k w,
    s.currentSocket = some k ∧ s.currentWatch = some w ∧ s.readerNotify k = some w
  failed : ∀ f ∈ s.failures, ∃ k w, f = (some k, some w) ∧ s.readerNotify k = some w
  notified : ∀ w, s.notified w = true → ∃ k, (some k, some w) ∈ s.failures

theorem paired_step (hs : s.Paired) (h : Step s a t) : t.Paired := by
  cases h with
  | connect =>
    obtain ⟨hunused, hlt, hinj, hhandshake, hobject, hcurrent, hfailed, hnotified⟩ := hs
    -- the new connection has a new notify, so what is known of the others stays
    have hkeep : ∀ c n, s.readerNotify c = some n → s.connect.readerNotify c = some n := by
      intro c n hc
      have hne : c ≠ s.connections := by
        rintro rfl
        rw [hunused _ (Nat.le_refl _)] at hc
        cases hc
      exact (Function.update_of_ne hne _ _).trans hc
    have hcases : ∀ c n, s.connect.readerNotify c = some n →
        (c = s.connections ∧ n = s.notifies) ∨ s.readerNotify c = some n := by
      intro c n hc
      by_cases hne : c = s.connections
      · subst hne
        simp only [SendMessages.connect, Function.update_self, Option.some_inj] at hc
        exact .inl ⟨rfl, hc.symm⟩
      · simp only [SendMessages.connect, Function.update_of_ne hne] at hc
        exact .inr hc
    refine ⟨?_, ?_, ?_, ?_, fun k w h => hkeep k w (hobject k w h), ?_, ?_, hnotified⟩
    · intro c hc
      have hne : c ≠ s.connections := Nat.ne_of_gt (Nat.lt_of_succ_le hc)
      simp only [SendMessages.connect, Function.update_of_ne hne]
      exact hunused c (Nat.le_of_succ_le hc)
    · intro c n hc
      rcases hcases c n hc with ⟨-, rfl⟩ | hc
      · exact Nat.lt_succ_self _
      · exact Nat.lt_succ_of_lt (hlt c n hc)
    · intro c c' n hc hc'
      rcases hcases c n hc with ⟨rfl, rfl⟩ | hc
      · rcases hcases c' _ hc' with ⟨rfl, -⟩ | hc'
        · rfl
        · exact absurd (hlt c' _ hc') (Nat.lt_irrefl _)
      · rcases hcases c' _ hc' with ⟨rfl, rfl⟩ | hc'
        · exact absurd (hlt c _ hc) (Nat.lt_irrefl _)
        · exact hinj c c' n hc hc'
    · intro c n hc
      by_cases hne : c = s.connections
      · subst hne
        simpa [SendMessages.connect] using hc
      · simp only [SendMessages.connect, Function.update_of_ne hne] at hc
        exact hkeep c n (hhandshake c n hc)
    · rcases hcurrent with htask | ⟨k, w, hk, hw, hread⟩
      · exact .inl htask
      · exact .inr ⟨k, w, hk, hw, hkeep k w hread⟩
    · intro f hf
      obtain ⟨k, w, hfk, hread⟩ := hfailed f hf
      exact ⟨k, w, hfk, hkeep k w hread⟩
  | @handOver c n hc =>
    refine { hs with handshake := ?_, object := ?_ }
    · intro c' n' hc'
      by_cases hne : c' = c
      · subst hne
        simp [SendMessages.handOver] at hc'
      · simp only [SendMessages.handOver, Function.update_of_ne hne] at hc'
        exact hs.handshake c' n' hc'
    · intro k w hobj
      obtain ⟨rfl, rfl⟩ := Prod.mk.inj (Option.some_inj.mp hobj)
      exact hs.handshake c n hc
  | @takeSocket k w _ hobj =>
    refine { hs with object := ?_, current := .inr ⟨k, w, rfl, rfl, hs.object k w hobj⟩ }
    intro k' w' hobj'
    simp [SendMessages.takeSocket] at hobj'
  | @fail _ m htask =>
    obtain ⟨k, w, hk, hw, hread⟩ := hs.current.resolve_left (by
      rcases htask with ⟨-, h⟩ | ⟨-, h⟩ <;> simp [h])
    refine { hs with current := .inr ⟨k, w, hk, hw, hread⟩, failed := ?_, notified := ?_ }
    · intro f hf
      rcases List.mem_cons.mp hf with hf | hf
      · exact ⟨k, w, by rw [hf, hk, hw], hread⟩
      · exact hs.failed f hf
    · -- the notify is that of the socket that failed
      intro w' hw'
      simp only [SendMessages.fail, hw, hk, Option.elim_some] at hw' ⊢
      by_cases hne : w' = w
      · subst hne
        exact ⟨k, List.mem_cons_self⟩
      · rw [Function.update_of_ne hne] at hw'
        obtain ⟨k', hk'⟩ := hs.notified w' hw'
        exact ⟨k', List.mem_cons_of_mem _ hk'⟩
  | enqueue | close => exact { hs with }
  | loopCached htask _ | loop htask _ | receive htask _ | receiveClosed htask | written htask
  | flushed htask | shutdown htask =>
    exact { hs with current := .inr (hs.current.resolve_left (by simp [htask])) }

theorem Paired.init : (init : SendMessages M).Paired := by
  have hnotify : ∀ c n, (SendMessages.init : SendMessages M).readerNotify c = some n →
      c = 0 ∧ n = 0 := by
    intro c n hc
    by_cases hne : c = 0
    · subst hne
      simp only [SendMessages.init, Function.update_self, Option.some_inj] at hc
      exact ⟨rfl, hc.symm⟩
    · simp [SendMessages.init, hne] at hc
  refine ⟨?_, ?_, ?_, nofun, ?_, .inl rfl, (by simp [SendMessages.init]), nofun⟩
  · intro c hc
    have hne : c ≠ 0 := Nat.ne_of_gt hc
    simp [SendMessages.init, hne]
  · intro c n hc
    obtain ⟨-, rfl⟩ := hnotify c n hc
    exact Nat.one_pos
  · intro c c' n hc hc'
    rw [(hnotify c n hc).1, (hnotify c' n hc').1]
  · intro k w hobj
    obtain ⟨rfl, rfl⟩ := Prod.mk.inj (Option.some_inj.mp hobj)
    rfl

end SendMessages

/-- The sender task and what is around it as a transition system. -/
def sendSystem (M : Type) : System (SendMessages M) (SendAction M) := ⟨SendMessages.step⟩

namespace SendMessages

variable {M : Type} {as : List (SendAction M)} {t : SendMessages M}

/-- **The sender accounts for every message.** What was put on the channel was sent, is held by
the task, or is waiting. A cached message is the first one that is written to the next socket.
The current socket and the current notify are of one connection, so a failure notifies the
reader of the connection that failed and no other, and no reader is notified without one. -/
theorem sender_accounts (hrun : (sendSystem M).run init as = some t) :
    t.msgRcv.log = t.sent ++ t.held ++ t.msgRcv.pending ∧
    (t.task.inHand = [] ∨ t.messageCache = none) ∧
    (∀ use ∈ t.uses, CachedFirst use) ∧
    (t.task = .starting ∨ ∃ k w,
      t.currentSocket = some k ∧ t.currentWatch = some w ∧ t.readerNotify k = some w) ∧
    (∀ f ∈ t.failures, ∃ k w, f = (some k, some w) ∧ ∀ c, t.readerNotify c = some w ↔ c = k) ∧
    ∀ c w, t.readerNotify c = some w → t.notified w = true → (some c, some w) ∈ t.failures := by
  have hacc : t.Accounted := System.invariant
    (fun s a t hs h => accounted_step hs (step_cases h)) Accounted.init hrun
  have hpair : t.Paired := System.invariant
    (fun s a t hs h => paired_step hs (step_cases h)) Paired.init hrun
  refine ⟨?_, hacc.one, hacc.cachedFirst, hpair.current, ?_, ?_⟩
  · rw [← hacc.received_eq, Fifo.received_append_pending]
  · intro f hf
    obtain ⟨k, w, rfl, hread⟩ := hpair.failed f hf
    refine ⟨k, w, rfl, fun c => ⟨fun hc => hpair.injective c k w hc hread, ?_⟩⟩
    rintro rfl
    exact hread
  · intro c w hc hw
    obtain ⟨k, hk⟩ := hpair.notified w hw
    obtain ⟨k', w', heq, hread⟩ := hpair.failed _ hk
    obtain ⟨⟨⟩, ⟨⟩⟩ := Prod.mk.inj heq
    rwa [hpair.injective c k w hc hread]

/-- Two connections after the first one; the earlier of them hands over its socket last. The
flush of a message fails, and it is sent on the socket that was handed over last. -/
def overtakenRun : List (SendAction ℕ) :=
  [.takeSocket, .enqueue 7, .enqueue 8, .loop, .receive, .written, .connect, .connect,
    .handOver 2, .flushError, .shutdown, .handOver 1, .takeSocket, .loop, .written, .flushed]

theorem sender_accounts_overtaken : ∃ t, (sendSystem ℕ).run init overtakenRun = some t ∧
    t.sent = [7] ∧ t.currentSocket = some 1 ∧ t.failures = [(some 0, some 0)] ∧
    t.msgRcv.log = t.sent ++ t.held ++ t.msgRcv.pending := by
  obtain ⟨t, hrun⟩ : ∃ t, (sendSystem ℕ).run init overtakenRun = some t := ⟨_, rfl⟩
  refine ⟨t, hrun, ?_, ?_, ?_, (sender_accounts hrun).1⟩
  all_goals
    obtain rfl := Option.some_inj.mp hrun
    rfl

end SendMessages

end SignalSim.Mgen
