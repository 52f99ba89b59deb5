import Mathlib.Data.Fintype.Order
import SignalSim.Foundations.LockOrder
import SignalSim.Mgen.Server.Model

/-!
# The locks of the server

The handshake tasks and the message receivers of `mgen-server.rs` once more, as far as they use
the locks `writer_db`, `snd_db` and those of the group tables, and now with every acquisition
and every drop of a guard as a step of its own. A stage of a task is a point between two such
steps; a stage named for an acquisition is the await in it. A step takes up the lock that the
stage awaits, if any, does what the code does under the guards it has, and ends with asking for
a lock, dropping a guard or neither.

Guards that the code does not drop by name live to the end of their statement
(`snd_db.read().await[..].clone()`, `group_snds.write().await.insert(..)`) or of their block
(`read_writer_db` of a known client, `write_snd_db`).

The number of readers that a lock admits is a parameter.

## Main definitions

* `LockedServer` — the locks, the tables under them and the stages of the tasks
* `LockedServer.step` — one step of a task or of its surroundings
* `HandlerStage.use`, `ReceiverStage.use` — what a task has of the locks at each stage

## Main results

* `LockedServer.invariant_run` — the locks are always as the stages say
* `LockedServer.deadlock_free` — behind every task that waits for a lock there is one that can
  step, and no task waits for itself
-/

namespace SignalSim.Mgen

open Function (update)

/-- The locks of the server. -/
inductive ServerLock
  | writerDb
  | sndDb
  /-- The lock of a group table, by the connection that created it. -/
  | groupSnds (group : ℕ)
  deriving DecidableEq

/-- Nested guards are taken in this order. -/
def ServerLock.rank : ServerLock → Fin 3
  | writerDb => 0
  | sndDb => 1
  | groupSnds _ => 2

/-- The tasks of a connection that take locks. -/
inductive LockTask
  /-- `handle_handshake`. -/
  | handler (i : ℕ)
  /-- `get_messages`, spawned by `spawn_message_receiver`. -/
  | receiver (i : ℕ)
  deriving DecidableEq

/-- Where `handle_handshake` is. -/
inductive HandlerStage
  | absent
  /-- In the TLS handshake or in `get_handshake`. -/
  | accepting
  /-- In `writer_db.read().await`. -/
  | readWriterDb (h : Handshake)
  /-- Known client, with `read_writer_db`: in `snd_db.read().await`. -/
  | known (h : Handshake)
  /-- Known client, with `read_writer_db` and the table of its group. -/
  | respawn (h : Handshake) (group : ℕ)
  /-- The function ends or unwinds, and drops `read_writer_db`. -/
  | dropWriterDb
  /-- New client, without guards. -/
  | register (h : Handshake)
  /-- New client: in `snd_db.read().await`. -/
  | readSndDb (h : Handshake)
  /-- New client, with the table of its group. -/
  | joinGroup (h : Handshake) (group : ℕ)
  /-- New client: in `group_snds.write().await`. -/
  | writeGroup (h : Handshake) (group : ℕ)
  /-- New client whose group has no table. -/
  | createGroup (h : Handshake)
  /-- New client: in `snd_db.write().await`. -/
  | writeSndDb (h : Handshake)
  /-- New client, with `write_snd_db`: in `group_snds.write().await`. -/
  | writeNewGroup (h : Handshake) (group : ℕ)
  /-- New client: its channel is in the table, the block of `write_snd_db` ends. -/
  | dropSndDb (h : Handshake) (group : ℕ)
  /-- New client, about to spawn its tasks. -/
  | spawn (h : Handshake) (group : ℕ)
  /-- New client: its tasks are spawned. -/
  | publish (h : Handshake)
  /-- New client: in `writer_db.write().await`. -/
  | writeWriterDb (h : Handshake)
  | finished
  deriving DecidableEq

/-- Where `get_messages` is. -/
inductive ReceiverStage
  | absent
  | spawned (group : ℕ)
  /-- In `phase_notify.notified().await`. -/
  | waiting (group : ℕ)
  /-- Notified that the registration phase is over. -/
  | woken (group : ℕ)
  /-- In `global_db.read().await`. -/
  | readGlobalDb (group : ℕ)
  /-- In the loop, with its copy of the table. -/
  | receiving (db : GroupSnds)
  /-- Ended by its socket notify. -/
  | terminated

/-- What a handshake task has of the locks. -/
def HandlerStage.use : HandlerStage → LockUse ServerLock
  | readWriterDb _ => ⟨[], some (.writerDb, .read)⟩
  | known _ => ⟨[(.writerDb, .read)], some (.sndDb, .read)⟩
  | respawn _ _ => ⟨[(.writerDb, .read)], none⟩
  | dropWriterDb => ⟨[(.writerDb, .read)], none⟩
  | readSndDb _ => ⟨[], some (.sndDb, .read)⟩
  | writeGroup _ g => ⟨[], some (.groupSnds g, .write)⟩
  | writeSndDb _ => ⟨[], some (.sndDb, .write)⟩
  | writeNewGroup _ g => ⟨[(.sndDb, .write)], some (.groupSnds g, .write)⟩
  | dropSndDb _ _ => ⟨[(.sndDb, .write)], none⟩
  | writeWriterDb _ => ⟨[], some (.writerDb, .write)⟩
  | _ => .none

/-- What a receiver has of the locks. -/
def ReceiverStage.use : ReceiverStage → LockUse ServerLock
  | readGlobalDb g => ⟨[], some (.groupSnds g, .read)⟩
  | _ => .none

/-- What `notify_waiters` does to a receiver. -/
def ReceiverStage.wake : ReceiverStage → ReceiverStage
  | waiting g => woken g
  | r => r

/-- The locks, the tables under them and the tasks. -/
structure LockedServer (n : ℕ) where
  /-- How many connections have been accepted. -/
  accepted : ℕ
  phaseOver : Bool
  /-- `REGISTRATION_PHASE` of the handshake task of a connection. -/
  registration : ℕ → Bool
  handler : ℕ → HandlerStage
  receiver : ℕ → ReceiverStage
  locks : ServerLock → RwLock n LockTask
  /-- The updaters of the known clients, by the connection that created them. -/
  writerDb : AList fun _ : Handshake => ℕ
  sndDb : AList fun _ : ID => ℕ
  groupSnds : ℕ → GroupSnds

/-- The steps of the tasks and of their surroundings. -/
inductive LockAction
  /-- The main task accepts a connection. -/
  | accept
  /-- The main task ends the registration phase. -/
  | endRegistration
  /-- The TLS handshake and `get_handshake` succeed. -/
  | handshake (i : ℕ) (h : Handshake)
  /-- The TLS handshake or `get_handshake` fails. -/
  | refuse (i : ℕ)
  /-- The handshake task goes on. -/
  | handle (i : ℕ)
  /-- The receiver is polled for the first time. -/
  | poll (i : ℕ)
  /-- The receiver goes on. -/
  | receive (i : ℕ)
  /-- `select!` drops the receiver, whatever it awaits. -/
  | terminate (i : ℕ)

namespace LockedServer

variable {n : ℕ}

/-- The server before the first connection. -/
def init : LockedServer n where
  accepted := 0
  phaseOver := false
  registration _ := false
  handler _ := .absent
  receiver _ := .absent
  locks _ := .new
  writerDb := ∅
  sndDb := ∅
  groupSnds _ := ∅

section

variable (s : LockedServer n) (i : ℕ)

/-- The main task accepts the next connection and spawns its handshake task. -/
def accept : LockedServer n :=
  { s with
    accepted := s.accepted + 1
    registration := update s.registration s.accepted (!s.phaseOver)
    handler := update s.handler s.accepted .accepting }

/-- `phase_notify.notify_waiters()`. -/
def endRegistration : LockedServer n :=
  { s with phaseOver := true, receiver := fun j => (s.receiver j).wake }

def setHandler (p : HandlerStage) : LockedServer n := { s with handler := update s.handler i p }

def setReceiver (r : ReceiverStage) : LockedServer n :=
  { s with receiver := update s.receiver i r }

/-- A task asks for a lock. -/
def acquire (t : LockTask) (l : ServerLock) (a : Access) : LockedServer n :=
  { s with locks := update s.locks l ((s.locks l).acquire t a) }

/-- A task drops its guard of a lock, or its request. -/
def leave (t : LockTask) (l : ServerLock) : LockedServer n :=
  { s with locks := update s.locks l ((s.locks l).leave t) }

/-- The handshake task asks for a lock. -/
def ask (l : ServerLock) (a : Access) (p : HandlerStage) : LockedServer n :=
  (s.acquire (.handler i) l a).setHandler i p

/-- The handshake task drops a guard. -/
def release (l : ServerLock) (p : HandlerStage) : LockedServer n :=
  (s.leave (.handler i) l).setHandler i p

/-- The client's channel goes into the table of a group. -/
def insertSnd (h : Handshake) (g : ℕ) : LockedServer n :=
  { s with groupSnds := update s.groupSnds g ((s.groupSnds g).insert h.sender i) }

/-- `entry(group).or_insert_with(..)`. -/
def orInsertGroup (h : Handshake) : LockedServer n :=
  { s with
    sndDb := if (s.sndDb.lookup h.group).isSome then s.sndDb else s.sndDb.insert h.group i }

def insertUpdater (h : Handshake) : LockedServer n :=
  { s with writerDb := s.writerDb.insert h i }

/-- The task has got the lock. -/
def Granted (t : LockTask) (l : ServerLock) (a : Access) : Prop := (t, a) ∈ (s.locks l).holders

instance (t : LockTask) (l : ServerLock) (a : Access) : Decidable (s.Granted t l a) :=
  inferInstanceAs (Decidable (_ ∈ _))

/-- The next step of a handshake task. -/
def handle : Option (LockedServer n) :=
  match s.handler i with
  | .readWriterDb h =>
    if s.Granted (.handler i) .writerDb .read then
      match s.writerDb.lookup h with
      | some _ => some (s.ask i .sndDb .read (.known h))
      | none => some (s.release i .writerDb (.register h))
    else none
  | .known h =>
    if s.Granted (.handler i) .sndDb .read then
      match s.sndDb.lookup h.group with
      | some g => some (s.release i .sndDb (.respawn h g))
      -- indexing panics, and unwinding drops the guards one after the other
      | none => some (s.release i .sndDb .dropWriterDb)
    else none
  | .respawn _ g => some ((s.setHandler i .dropWriterDb).setReceiver i (.spawned g))
  | .dropWriterDb => some (s.release i .writerDb .finished)
  | .register h =>
    if s.registration i then some (s.ask i .sndDb .read (.readSndDb h))
    -- the panic of a late registration
    else some (s.setHandler i .finished)
  | .readSndDb h =>
    if s.Granted (.handler i) .sndDb .read then
      match s.sndDb.lookup h.group with
      | some g => some (s.release i .sndDb (.joinGroup h g))
      | none => some (s.release i .sndDb (.createGroup h))
    else none
  | .joinGroup h g => some (s.ask i (.groupSnds g) .write (.writeGroup h g))
  | .writeGroup h g =>
    if s.Granted (.handler i) (.groupSnds g) .write then
      some ((s.insertSnd i h g).release i (.groupSnds g) (.spawn h g))
    else none
  | .createGroup h => some (s.ask i .sndDb .write (.writeSndDb h))
  | .writeSndDb h =>
    if s.Granted (.handler i) .sndDb .write then
      let g := (s.sndDb.lookup h.group).getD i
      some ((s.orInsertGroup i h).ask i (.groupSnds g) .write (.writeNewGroup h g))
    else none
  | .writeNewGroup h g =>
    if s.Granted (.handler i) (.groupSnds g) .write then
      some ((s.insertSnd i h g).release i (.groupSnds g) (.dropSndDb h g))
    else none
  | .dropSndDb h g => some (s.release i .sndDb (.spawn h g))
  | .spawn h g => some ((s.setHandler i (.publish h)).setReceiver i (.spawned g))
  | .publish h => some (s.ask i .writerDb .write (.writeWriterDb h))
  | .writeWriterDb h =>
    if s.Granted (.handler i) .writerDb .write then
      some ((s.insertUpdater i h).release i .writerDb .finished)
    else none
  | _ => none

/-- The next step of a receiver. -/
def receive : Option (LockedServer n) :=
  match s.receiver i with
  | .woken g =>
    some ((s.acquire (.receiver i) (.groupSnds g) .read).setReceiver i (.readGlobalDb g))
  | .readGlobalDb g =>
    if s.Granted (.receiver i) (.groupSnds g) .read then
      some ((s.leave (.receiver i) (.groupSnds g)).setReceiver i (.receiving (s.groupSnds g)))
    else none
  | _ => none

/-- The receiver is dropped; a request that it has in a queue goes with it. -/
def terminate : Option (LockedServer n) :=
  match s.receiver i with
  | .absent | .terminated => none
  | .readGlobalDb g =>
    some ((s.leave (.receiver i) (.groupSnds g)).setReceiver i .terminated)
  | _ => some (s.setReceiver i .terminated)

/-- One step. -/
def step (s : LockedServer n) : LockAction → Option (LockedServer n)
  | .accept => some s.accept
  | .endRegistration => if s.phaseOver then none else some s.endRegistration
  | .handshake i h =>
    if s.handler i = .accepting then some (s.ask i .writerDb .read (.readWriterDb h)) else none
  | .refuse i => if s.handler i = .accepting then some (s.setHandler i .finished) else none
  | .handle i => s.handle i
  | .poll i =>
    match s.receiver i with
    | .spawned g => some (s.setReceiver i (.waiting g))
    | _ => none
  | .receive i => s.receive i
  | .terminate i => s.terminate i

/-- What a task has of the locks. -/
def use : LockTask → LockUse ServerLock
  | .handler i => (s.handler i).use
  | .receiver i => (s.receiver i).use

/-- The task can go on without anything from its surroundings. -/
def CanStep : LockTask → Prop
  | .handler i => (s.step (.handle i)).isSome
  | .receiver i => (s.step (.receive i)).isSome

end

/-- The tasks and their locks as a transition system. -/
def system (n : ℕ) : System (LockedServer n) LockAction := ⟨step⟩

end LockedServer

/-! ### The control-flow graph -/

namespace HandlerStage

/-- The edges of the control-flow graph of `handle_handshake`, with what they do to the locks. -/
inductive Edge : HandlerStage → LockOp ServerLock → HandlerStage → Prop
  | refuse : Edge accepting .keep finished
  | handshake {h} : Edge accepting (.ask .writerDb .read) (readWriterDb h)
  | findUpdater {h} : Edge (readWriterDb h) (.ask .sndDb .read) (known h)
  | findNoUpdater {h} : Edge (readWriterDb h) (.drop .writerDb) (register h)
  | cloneTable {h g} : Edge (known h) (.drop .sndDb) (respawn h g)
  | missGroup {h} : Edge (known h) (.drop .sndDb) dropWriterDb
  | respawn {h g} : Edge (respawn h g) .keep dropWriterDb
  | dropWriterDb : Edge dropWriterDb (.drop .writerDb) finished
  | lateRegistration {h} : Edge (register h) .keep finished
  | register {h} : Edge (register h) (.ask .sndDb .read) (readSndDb h)
  | findGroup {h g} : Edge (readSndDb h) (.drop .sndDb) (joinGroup h g)
  | findNoGroup {h} : Edge (readSndDb h) (.drop .sndDb) (createGroup h)
  | joinGroup {h g} : Edge (joinGroup h g) (.ask (.groupSnds g) .write) (writeGroup h g)
  | insertSnd {h g} : Edge (writeGroup h g) (.drop (.groupSnds g)) (spawn h g)
  | createGroup {h} : Edge (createGroup h) (.ask .sndDb .write) (writeSndDb h)
  | enterGroup {h g} : Edge (writeSndDb h) (.ask (.groupSnds g) .write) (writeNewGroup h g)
  | insertFirstSnd {h g} : Edge (writeNewGroup h g) (.drop (.groupSnds g)) (dropSndDb h g)
  | dropSndDb {h g} : Edge (dropSndDb h g) (.drop .sndDb) (spawn h g)
  | spawn {h g} : Edge (spawn h g) .keep (publish h)
  | publish {h} : Edge (publish h) (.ask .writerDb .write) (writeWriterDb h)
  | insertUpdater {h} : Edge (writeWriterDb h) (.drop .writerDb) finished

/-- The task may have spawned its receiver. -/
def Spawned : HandlerStage → Prop
  | dropWriterDb | publish _ | writeWriterDb _ | finished => True
  | _ => False

variable {p q : HandlerStage} {op : LockOp ServerLock}

/-- Every edge does to the locks what lies between the stages at its ends. -/
theorem Edge.fits (h : Edge p op q) : op.Fits p.use q.use := by
  cases h <;> simp [LockOp.Fits, use] <;> grind

/-- A guard comes from the stage before. -/
theorem Edge.held (h : Edge p op q) {c : ServerLock × Access} (hc : c ∈ q.use.held) :
    p.use.At c := by
  cases h <;> simp_all [use, LockUse.none]

theorem Edge.ne_absent (h : Edge p op q) : p ≠ absent := by
  cases h <;> exact HandlerStage.noConfusion

theorem Edge.spawned_mono (h : Edge p op q) (hp : p.Spawned) : q.Spawned := by
  cases h <;> first | exact hp | trivial

/-- Guards are nested in the order of the ranks. -/
theorem ordered_use (p : HandlerStage) : Ordered ServerLock.rank p.use := by
  intro c hc d hd
  cases p <;> simp [use, LockUse.none] at hc hd
  all_goals
    subst hc hd
    simp [ServerLock.rank]

end HandlerStage

namespace LockedServer

variable {n : ℕ} {s t : LockedServer n} {i : ℕ} {p : HandlerStage} {op : LockOp ServerLock}

/-! ### What a step does -/

/-- The handshake task goes along an edge, with the lock that it awaited. The receiver is
spawned on the way or not at all. -/
structure HandlerStep (s : LockedServer n) (i : ℕ) (t : LockedServer n) (op : LockOp ServerLock)
    (p : HandlerStage) : Prop where
  edge : (s.handler i).Edge op p
  granted : ∀ l a, (s.handler i).use.wants = some (l, a) → s.Granted (.handler i) l a
  accepted : t.accepted = s.accepted
  locks : t.locks = op.apply (.handler i) s.locks
  handler : t.handler = update s.handler i p
  receiver : t.receiver = s.receiver ∨
    ¬ (s.handler i).Spawned ∧ p.Spawned ∧ ∃ g, t.receiver = update s.receiver i (.spawned g)

/-- The receiver goes on from one stage to another. -/
structure ReceiverStep (s : LockedServer n) (i : ℕ) (t : LockedServer n)
    (op : LockOp ServerLock) (r : ReceiverStage) : Prop where
  spawned : s.receiver i ≠ .absent
  fits : op.Fits (s.receiver i).use r.use
  held : r.use.held = []
  accepted : t.accepted = s.accepted
  locks : t.locks = op.apply (.receiver i) s.locks
  handler : t.handler = s.handler
  receiver : t.receiver = update s.receiver i r

/-- A step that leaves the receiver alone. -/
theorem HandlerStep.of_edge {q : HandlerStage} (hq : s.handler i = q) (hedge : q.Edge op p)
    (hgranted : ∀ l a, q.use.wants = some (l, a) → s.Granted (.handler i) l a)
    (haccepted : t.accepted = s.accepted) (hlocks : t.locks = op.apply (.handler i) s.locks)
    (hhandler : t.handler = update s.handler i p) (hreceiver : t.receiver = s.receiver) :
    HandlerStep s i t op p := by
  subst hq
  exact ⟨hedge, hgranted, haccepted, hlocks, hhandler, .inl hreceiver⟩

/-- A step that spawns the receiver. -/
theorem HandlerStep.of_spawn {q : HandlerStage} {g : ℕ} (hq : s.handler i = q)
    (hedge : q.Edge .keep p) (hwants : q.use.wants = none) (hold : ¬ q.Spawned)
    (hnew : p.Spawned) :
    HandlerStep s i ((s.setHandler i p).setReceiver i (.spawned g)) .keep p := by
  subst hq
  refine ⟨hedge, fun l a hw => ?_, rfl, rfl, rfl, .inr ⟨hold, hnew, g, rfl⟩⟩
  rw [hwants] at hw
  cases hw

theorem granted_of_wants {l l' : ServerLock} {a a' : Access} {τ : LockTask}
    (hg : s.Granted τ l a) (hw : some (l, a) = some (l', a')) : s.Granted τ l' a' := by
  obtain ⟨rfl, rfl⟩ := Prod.mk_inj.mp (Option.some_inj.mp hw)
  exact hg

/-- **Inversion.** Every step of a handshake task goes along an edge of the graph. -/
theorem handle_cases (h : s.handle i = some t) : ∃ op p, HandlerStep s i t op p := by
  have noWant {l : ServerLock} {a : Access} (hw : none = some (l, a)) :
      s.Granted (.handler i) l a := nomatch hw
  unfold handle at h
  split at h
  -- `readWriterDb`: the updater of the client is there or not
  case h_1 hs hp =>
    obtain ⟨hg, h⟩ := Option.ite_none_right_eq_some.mp h
    have wants {l a} := @granted_of_wants _ s _ l _ a _ hg
    split at h <;> obtain rfl := Option.some_inj.mp h
    · exact ⟨_, _, .of_edge hp .findUpdater (fun _ _ => wants) rfl rfl rfl rfl⟩
    · exact ⟨_, _, .of_edge hp .findNoUpdater (fun _ _ => wants) rfl rfl rfl rfl⟩
  -- `known`: so is the table of the group
  case h_2 hs hp =>
    obtain ⟨hg, h⟩ := Option.ite_none_right_eq_some.mp h
    have wants {l a} := @granted_of_wants _ s _ l _ a _ hg
    split at h <;> obtain rfl := Option.some_inj.mp h
    · exact ⟨_, _, .of_edge hp .cloneTable (fun _ _ => wants) rfl rfl rfl rfl⟩
    · exact ⟨_, _, .of_edge hp .missGroup (fun _ _ => wants) rfl rfl rfl rfl⟩
  -- `respawn`
  case h_3 hs g hp =>
    obtain rfl := Option.some_inj.mp h
    exact ⟨_, _, .of_spawn hp .respawn rfl id trivial⟩
  -- `dropWriterDb`
  case h_4 hp =>
    obtain rfl := Option.some_inj.mp h
    exact ⟨_, _, .of_edge hp .dropWriterDb (fun _ _ => noWant) rfl rfl rfl rfl⟩
  -- `register`: the registration phase is not over, or it is
  case h_5 hs hp =>
    split at h <;> obtain rfl := Option.some_inj.mp h
    · exact ⟨_, _, .of_edge hp .register (fun _ _ => noWant) rfl rfl rfl rfl⟩
    · exact ⟨_, _, .of_edge hp .lateRegistration (fun _ _ => noWant) rfl rfl rfl rfl⟩
  -- `readSndDb`: the group has a table or not
  case h_6 hs hp =>
    obtain ⟨hg, h⟩ := Option.ite_none_right_eq_some.mp h
    have wants {l a} := @granted_of_wants _ s _ l _ a _ hg
    split at h <;> obtain rfl := Option.some_inj.mp h
    · exact ⟨_, _, .of_edge hp .findGroup (fun _ _ => wants) rfl rfl rfl rfl⟩
    · exact ⟨_, _, .of_edge hp .findNoGroup (fun _ _ => wants) rfl rfl rfl rfl⟩
  -- `joinGroup`
  case h_7 hs g hp =>
    obtain rfl := Option.some_inj.mp h
    exact ⟨_, _, .of_edge hp .joinGroup (fun _ _ => noWant) rfl rfl rfl rfl⟩
  -- `writeGroup`
  case h_8 hs g hp =>
    obtain ⟨hg, h⟩ := Option.ite_none_right_eq_some.mp h
    obtain rfl := Option.some_inj.mp h
    exact ⟨_, _, .of_edge hp .insertSnd (fun _ _ => granted_of_wants hg) rfl rfl rfl rfl⟩
  -- `createGroup`
  case h_9 hs hp =>
    obtain rfl := Option.some_inj.mp h
    exact ⟨_, _, .of_edge hp .createGroup (fun _ _ => noWant) rfl rfl rfl rfl⟩
  -- `writeSndDb`
  case h_10 hs hp =>
    obtain ⟨hg, h⟩ := Option.ite_none_right_eq_some.mp h
    obtain rfl := Option.some_inj.mp h
    exact ⟨_, _, .of_edge hp .enterGroup (fun _ _ => granted_of_wants hg) rfl rfl rfl rfl⟩
  -- `writeNewGroup`
  case h_11 hs g hp =>
    obtain ⟨hg, h⟩ := Option.ite_none_right_eq_some.mp h
    obtain rfl := Option.some_inj.mp h
    exact ⟨_, _, .of_edge hp .insertFirstSnd (fun _ _ => granted_of_wants hg) rfl rfl rfl rfl⟩
  -- `dropSndDb`
  case h_12 hs g hp =>
    obtain rfl := Option.some_inj.mp h
    exact ⟨_, _, .of_edge hp .dropSndDb (fun _ _ => noWant) rfl rfl rfl rfl⟩
  -- `spawn`
  case h_13 hs g hp =>
    obtain rfl := Option.some_inj.mp h
    exact ⟨_, _, .of_spawn hp .spawn rfl id trivial⟩
  -- `publish`
  case h_14 hs hp =>
    obtain rfl := Option.some_inj.mp h
    exact ⟨_, _, .of_edge hp .publish (fun _ _ => noWant) rfl rfl rfl rfl⟩
  -- `writeWriterDb`
  case h_15 hs hp =>
    obtain ⟨hg, h⟩ := Option.ite_none_right_eq_some.mp h
    obtain rfl := Option.some_inj.mp h
    exact ⟨_, _, .of_edge hp .insertUpdater (fun _ _ => granted_of_wants hg) rfl rfl rfl rfl⟩
  -- every other stage waits for something else
  case h_16 => cases h

theorem receive_cases (h : s.receive i = some t) : ∃ op r, ReceiverStep s i t op r := by
  unfold receive at h
  split at h
  case h_1 g hr =>
    obtain rfl := Option.some_inj.mp h
    refine ⟨.ask (.groupSnds g) .read, _, ?_, ?_, rfl, rfl, rfl, rfl, rfl⟩ <;>
      simp [hr, LockOp.Fits, ReceiverStage.use]
  case h_2 g hr =>
    obtain ⟨hg, h⟩ := Option.ite_none_right_eq_some.mp h
    obtain rfl := Option.some_inj.mp h
    refine ⟨.drop (.groupSnds g), _, ?_, ?_, rfl, rfl, rfl, rfl, rfl⟩ <;>
      simp +contextual [hr, LockOp.Fits, ReceiverStage.use]
  case h_3 => cases h

theorem terminate_cases (h : s.terminate i = some t) : ∃ op r, ReceiverStep s i t op r := by
  unfold terminate at h
  split at h
  case h_1 | h_2 => cases h
  case h_3 g hr =>
    obtain rfl := Option.some_inj.mp h
    refine ⟨.drop (.groupSnds g), _, ?_, ?_, rfl, rfl, rfl, rfl, rfl⟩ <;>
      simp +contextual [hr, LockOp.Fits, ReceiverStage.use]
  case h_4 habsent _ hread =>
    obtain rfl := Option.some_inj.mp h
    refine ⟨.keep, .terminated, habsent, ?_, rfl, rfl, rfl, rfl, rfl⟩
    -- at the other awaits the receiver has nothing to do with the locks
    cases hr : s.receiver i with
    | readGlobalDb g => exact absurd hr (hread g)
    | _ => simp [LockOp.Fits, ReceiverStage.use]

/-- **Inversion.** What a step can have been. -/
theorem step_cases {a : LockAction} (h : s.step a = some t) :
    t = s.accept ∨ t = s.endRegistration ∨ (∃ i op p, HandlerStep s i t op p) ∨
      ∃ i op r, ReceiverStep s i t op r := by
  cases a with
  | accept => exact .inl (Option.some_inj.mp h).symm
  | endRegistration =>
    obtain ⟨-, h⟩ := Option.ite_none_left_eq_some.mp h
    exact .inr (.inl (Option.some_inj.mp h).symm)
  | handshake i hs =>
    obtain ⟨hp, h⟩ := Option.ite_none_right_eq_some.mp h
    obtain rfl := Option.some_inj.mp h
    exact .inr (.inr (.inl ⟨i, _, _, .of_edge hp .handshake nofun rfl rfl rfl rfl⟩))
  | refuse i =>
    obtain ⟨hp, h⟩ := Option.ite_none_right_eq_some.mp h
    obtain rfl := Option.some_inj.mp h
    exact .inr (.inr (.inl ⟨i, _, _, .of_edge hp .refuse nofun rfl rfl rfl rfl⟩))
  | handle i => exact .inr (.inr (.inl ⟨i, handle_cases h⟩))
  | poll i =>
    simp only [step] at h
    split at h
    case h_1 g hr =>
      obtain rfl := Option.some_inj.mp h
      refine .inr (.inr (.inr ⟨i, .keep, .waiting g, ?_, ?_, rfl, rfl, rfl, rfl, rfl⟩)) <;>
        simp [hr, LockOp.Fits, ReceiverStage.use]
    case h_2 => cases h
  | receive i => exact .inr (.inr (.inr ⟨i, receive_cases h⟩))
  | terminate i => exact .inr (.inr (.inr ⟨i, terminate_cases h⟩))

/-! ### The invariant -/

/-- The locks are as the stages of the tasks say, and no task is spawned twice. -/
structure Invariant (s : LockedServer n) : Prop where
  tracks : Tracks s.locks s.use
  absent : ∀ i, s.accepted ≤ i → s.handler i = .absent
  unspawned : ∀ i, ¬ (s.handler i).Spawned → s.receiver i = .absent

theorem use_handler (hh : t.handler = update s.handler i p) (hr : t.receiver = s.receiver) :
    t.use = update s.use (.handler i) p.use := by
  funext τ
  cases τ with
  | handler j =>
    rw [use, hh]
    by_cases hj : j = i <;> simp [hj, use]
  | receiver j =>
    simp [use, hr]

theorem use_receiver {r : ReceiverStage} (hr : t.receiver = update s.receiver i r)
    (hh : t.handler = s.handler) : t.use = update s.use (.receiver i) r.use := by
  funext τ
  cases τ with
  | handler j =>
    simp [use, hh]
  | receiver j =>
    rw [use, hr]
    by_cases hj : j = i <;> simp [hj, use]

theorem invariant_init : Invariant (init : LockedServer n) where
  tracks := by
    have hnone : (init : LockedServer n).use = fun _ => LockUse.none := by
      funext τ
      cases τ <;> rfl
    rw [hnone]
    exact .new
  absent _ _ := rfl
  unspawned _ _ := rfl

theorem Invariant.accept (h : Invariant s) : Invariant s.accept where
  tracks := by
    -- neither stage of the new task has anything to do with the locks
    have huse : s.accept.use = update s.use (.handler s.accepted) HandlerStage.accepting.use :=
      use_handler rfl rfl
    rw [huse]
    apply h.tracks.stay
    · intro c
      rw [use, h.absent _ le_rfl]
      rfl
    · exact fun _ _ hc => nomatch hc
  absent i hi := by
    have hlt : s.accepted < i := hi
    exact (Function.update_of_ne hlt.ne' ..).trans (h.absent i hlt.le)
  unspawned i hi := by
    rcases eq_or_ne i s.accepted with rfl | hne
    · apply h.unspawned
      rw [h.absent _ le_rfl]
      exact id
    · have hsame : s.accept.handler i = s.handler i := Function.update_of_ne hne ..
      rw [hsame] at hi
      exact h.unspawned i hi

theorem Invariant.endRegistration (h : Invariant s) : Invariant s.endRegistration where
  tracks := by
    have huse : s.endRegistration.use = s.use := by
      funext τ
      cases τ with
      | handler j => rfl
      | receiver j =>
        simp only [use, LockedServer.endRegistration]
        cases s.receiver j <;> rfl
    rw [huse]
    exact h.tracks
  absent := h.absent
  unspawned i hi := by
    have hr := h.unspawned i hi
    simp only [LockedServer.endRegistration, hr, ReceiverStage.wake]

theorem Invariant.handlerStep (h : Invariant s) (hstep : HandlerStep s i t op p) :
    Invariant t where
  tracks := by
    -- a guard that the task has now it had before, or it is the lock that it was granted
    have hwaits : ∀ l a, (l, a) ∈ p.use.held → (LockTask.handler i, a) ∈ (s.locks l).holders := by
      intro l a hc
      rcases hstep.edge.held hc with hheld | hwants
      · exact h.tracks.granted (.handler i) l a hheld
      · exact hstep.granted l a hwants
    have hfits : op.Fits (s.use (.handler i)) p.use := hstep.edge.fits
    have htracks := h.tracks.apply hfits hwaits
    rw [hstep.locks]
    rcases hstep.receiver with hr | ⟨hold, -, g, hr⟩
    · rw [use_handler hstep.handler hr]
      exact htracks
    · -- the receiver was not there before, and starts without locks
      have huse : t.use = update s.use (.handler i) p.use := by
        funext τ
        cases τ with
        | handler j =>
          rw [use, hstep.handler]
          by_cases hj : j = i <;> simp [hj, use]
        | receiver j =>
          rw [use, hr]
          by_cases hj : j = i
          · subst hj
            simp [use, h.unspawned j hold, ReceiverStage.use]
          · simp [hj, use]
      rw [huse]
      exact htracks
  absent j hj := by
    rw [hstep.accepted] at hj
    have habsent := h.absent j hj
    have hne : j ≠ i := by
      rintro rfl
      exact hstep.edge.ne_absent habsent
    rw [hstep.handler, Function.update_of_ne hne]
    exact habsent
  unspawned j hj := by
    rw [hstep.handler] at hj
    rcases eq_or_ne j i with rfl | hne
    · rw [Function.update_self] at hj
      have hold := mt hstep.edge.spawned_mono hj
      rcases hstep.receiver with hr | ⟨-, hnew, -⟩
      · rw [hr]
        exact h.unspawned j hold
      · exact absurd hnew hj
    · rw [Function.update_of_ne hne] at hj
      rcases hstep.receiver with hr | ⟨-, -, g, hr⟩
      · rw [hr]
        exact h.unspawned j hj
      · rw [hr, Function.update_of_ne hne]
        exact h.unspawned j hj

theorem Invariant.receiverStep {r : ReceiverStage} (h : Invariant s)
    (hstep : ReceiverStep s i t op r) : Invariant t where
  tracks := by
    rw [hstep.locks, use_receiver hstep.receiver hstep.handler]
    have hfits : op.Fits (s.use (.receiver i)) r.use := hstep.fits
    apply h.tracks.apply hfits
    intro l a hc
    rw [hstep.held] at hc
    cases hc
  absent j hj := by
    rw [hstep.accepted] at hj
    rw [hstep.handler]
    exact h.absent j hj
  unspawned j hj := by
    rw [hstep.handler] at hj
    have habsent := h.unspawned j hj
    have hne : j ≠ i := by
      rintro rfl
      exact hstep.spawned habsent
    rw [hstep.receiver, Function.update_of_ne hne]
    exact habsent

/-- Every step preserves the invariant. -/
theorem invariant_step {a : LockAction} (h : Invariant s) (hstep : s.step a = some t) :
    Invariant t := by
  rcases step_cases hstep with rfl | rfl | ⟨i, op, p, hstep⟩ | ⟨i, op, r, hstep⟩
  · exact h.accept
  · exact h.endRegistration
  · exact h.handlerStep hstep
  · exact h.receiverStep hstep

/-- The locks are as the stages say in every state that is reached. -/
theorem invariant_run {as : List LockAction} (hrun : (system n).run init as = some s) :
    Invariant s :=
  System.invariant (fun _ _ _ h => invariant_step h) invariant_init hrun

theorem ordered_use (s : LockedServer n) (τ : LockTask) : Ordered ServerLock.rank (s.use τ) := by
  cases τ with
  | handler i => exact (s.handler i).ordered_use
  | receiver i =>
    intro c hc
    simp only [use] at hc
    cases hr : s.receiver i <;> rw [hr] at hc <;> cases hc

/-! ### Progress -/

/-- A task that has to do with some lock, and has the one it asked for, can go on. -/
theorem canStep_of_granted {τ : LockTask} {c : ServerLock × Access} (hat : (s.use τ).At c)
    (hgranted : ∀ l a, (s.use τ).wants = some (l, a) → s.Granted τ l a) : s.CanStep τ := by
  cases τ with
  | handler i =>
    simp only [use] at hat hgranted
    simp only [CanStep, step, handle]
    cases hp : s.handler i
    all_goals
      rw [hp] at hat hgranted
      simp only [HandlerStage.use] at hat hgranted
    -- the stages without locks
    case absent | accepting | register | joinGroup | createGroup | spawn | publish | finished =>
      exact absurd hat LockUse.not_at_none
    -- the awaits that end in a lookup
    case readWriterDb | known | readSndDb =>
      simp only [hgranted _ _ rfl, if_true]
      split <;> rfl
    case writeGroup | writeSndDb | writeNewGroup | writeWriterDb =>
      simp only [hgranted _ _ rfl, if_true]
      rfl
    case respawn | dropWriterDb | dropSndDb => rfl
  | receiver i =>
    simp only [use] at hat hgranted
    simp only [CanStep, step, receive]
    cases hr : s.receiver i
    all_goals
      rw [hr] at hat hgranted
      simp only [ReceiverStage.use] at hat hgranted
    case readGlobalDb =>
      simp only [hgranted _ _ rfl, if_true]
      rfl
    all_goals exact absurd hat LockUse.not_at_none

/-- **The handshake tasks and the receivers do not deadlock.** Whatever the order of the steps,
behind every task that waits for a lock there is one that can step, and no task waits for
itself through the holders of the locks and the tasks ahead of it in their queues. -/
theorem deadlock_free (hn : 0 < n) {as : List LockAction}
    (hrun : (system n).run init as = some s) :
    (∀ τ, Waiting s.locks τ →
      ∃ υ, Relation.TransGen (WaitsFor s.locks) τ υ ∧ s.CanStep υ) ∧
    ∀ τ, ¬ Relation.TransGen (WaitsFor s.locks) τ τ := by
  have h := (invariant_run hrun).tracks
  constructor
  · intro τ hτ
    obtain ⟨υ, hτυ, hfree, l, a, hl⟩ := h.exists_waitsFor s.ordered_use hn hτ
    refine ⟨υ, hτυ, ?_⟩
    -- the task at the end of the chain holds a lock and has all that it asked for
    apply canStep_of_granted ((h.mem_entries υ l a).mp (RwLock.mem_entries.mpr (.inl hl)))
    exact fun k b hwants => h.mem_holders_of_at hfree (.inr hwants)
  · exact fun τ => h.not_waitsFor_self s.ordered_use

/-- Two clients of a new group register. The first has the table of groups for writing and asks
for that of its group, the second waits to read the table of groups. -/
def twoRegistrations : List LockAction :=
  [.accept, .accept, .handshake 0 ⟨"alice", "group"⟩, .handshake 1 ⟨"bob", "group"⟩,
    .handle 0, .handle 0, .handle 0, .handle 0, .handle 0, .handle 1, .handle 1]

theorem deadlock_free_twoRegistrations :
    ∃ s : LockedServer 8, (system 8).run init twoRegistrations = some s ∧
      Waiting s.locks (.handler 1) ∧
      (∃ υ, Relation.TransGen (WaitsFor s.locks) (.handler 1) υ ∧ s.CanStep υ) ∧
      ¬ Relation.TransGen (WaitsFor s.locks) (.handler 1) (.handler 1) := by
  have hqueue : (((system 8).run init twoRegistrations).map fun s => (s.locks .sndDb).queue) =
      some [(.handler 1, .read)] := by decide
  obtain ⟨s, hrun, hs⟩ := Option.map_eq_some_iff.mp hqueue
  have hwaiting : Waiting s.locks (.handler 1) := by
    refine ⟨.sndDb, .read, ?_⟩
    rw [hs]
    exact List.mem_singleton_self _
  have h := deadlock_free (by decide : 0 < 8) hrun
  exact ⟨_, hrun, hwaiting, h.1 _ hwaiting, h.2 _⟩

end LockedServer

end SignalSim.Mgen
