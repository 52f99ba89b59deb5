import Mathlib.Data.List.Induction
import SignalSim.Foundations.Result
import SignalSim.Foundations.Transition
import SignalSim.Mgen.Peer.ProcessConfig
import SignalSim.Mgen.Wire.Message

/-!
# The errors of a peer's connections

`establish_connection` of `mgen-peer.rs` connects to the peer, and tries again while the errors are
recoverable. Which errors are is decided by the conversions of `messenger/error.rs`: an I/O error
becomes a recoverable `MessengerError`, but a `FatalError` where a function can return nothing
else. The first attempt is made in `establish_connection` itself, which can return nothing else,
and the later ones in `error_collector`, which returns a `MessengerError`. So an identifier that
cannot be written ends the writer on the first attempt, and on no other.

## Main definitions

* `connect` — a connection, from what the calls of the operating system and the proxy come to
* `establishConnection` — its result after the attempts so far, if there is one
* `WriterPhase.system` — the writer, which expects a connection
* `Recovers` — only a fatal error of `connect` is fatal, and I/O errors lead to another attempt
* `IdentifierLost` — the first attempt connects and cannot write the identifier
* `Survives` — the writer recovers in all its calls, and panics only over fatal errors

## Main results

* `survives_iff` — the writer survives exactly if it loses no identifier
* `writer_of_identifierLost` — a writer that does
-/

namespace SignalSim.Mgen.Peer

open SignalSim.Result

/-! ### Errors -/

/-- `tokio_socks::Error`, as far as the code tells them apart. -/
inductive SocksError
  | io (e : ErrorKind)
  | proxyServerUnreachable
  | generalSocksServerFailure
  | hostUnreachable
  | ttlExpired
  | other (code : ℕ)
  deriving DecidableEq, Repr

/-- Errors where it is possible reconnecting could resolve the problem. -/
inductive RecoverableError
  | socks (e : SocksError)
  | io (e : ErrorKind)
  deriving DecidableEq, Repr

/-- Errors where something is wrong enough to terminate, as far as connections have them. -/
inductive FatalError
  | socks (e : SocksError)
  | io (e : ErrorKind)
  deriving DecidableEq, Repr

inductive MessengerError
  | recoverable (e : RecoverableError)
  | fatal (e : FatalError)
  deriving DecidableEq, Repr

/-- `From<tokio_socks::Error>`. -/
def MessengerError.ofSocks : SocksError → MessengerError
  | .io e => .recoverable (.socks (.io e))
  | .proxyServerUnreachable => .recoverable (.socks .proxyServerUnreachable)
  | .generalSocksServerFailure => .recoverable (.socks .generalSocksServerFailure)
  | .hostUnreachable => .recoverable (.socks .hostUnreachable)
  | .ttlExpired => .recoverable (.socks .ttlExpired)
  | .other code => .fatal (.socks (.other code))

/-- `From<std::io::Error>`. -/
def MessengerError.ofIo (e : ErrorKind) : MessengerError := .recoverable (.io e)

/-- `From<std::io::Error>`, where only fatal errors can be returned. -/
def FatalError.ofIo (e : ErrorKind) : FatalError := .io e

/-- The I/O error behind an error, of the system or of the stream to the proxy. -/
def MessengerError.io? : MessengerError → Option ErrorKind
  | .recoverable (.io e) | .recoverable (.socks (.io e)) => some e
  | .fatal (.io e) | .fatal (.socks (.io e)) => some e
  | _ => none

/-! ### Connections -/

/-- What the calls made by `connect` come to, with streams of type `S`. The addresses are ones that
parse. -/
structure Dial (S : Type) where
  newV4 : Except ErrorKind Unit
  setNodelay : Except ErrorKind Unit
  connect : Except ErrorKind S
  /-- `Socks5Stream::connect_with_password_and_socket`, on the stream to the proxy. -/
  connectWithPassword : Except SocksError Unit

variable {S : Type} {p : SocksParams} {held : Option S}

/-- A stream to the target, directly or through the proxy. -/
def connect (p : SocksParams) (d : Dial S) : Except MessengerError S :=
  match p.socks with
  | some _ => do
    d.newV4.mapError .ofIo
    d.setNodelay.mapError .ofIo
    let stream ← d.connect.mapError .ofIo
    d.connectWithPassword.mapError .ofSocks
    return stream
  | none => do
    d.newV4.mapError .ofIo
    d.setNodelay.mapError .ofIo
    d.connect.mapError .ofIo

/-- What a `select!` of `establish_connection` comes to. -/
inductive Attempt (S : Type)
  /-- The peer connects, and if that succeeds writes its identifier. -/
  | connection (d : Dial S) (writeAll : Bytes → Except ErrorKind Unit)
  /-- The listener has sent the write half of a stream. -/
  | listener (wr : S)

/-- The write half that `establish_connection` returns. -/
structure Established (S : Type) where
  wr : S
  /-- The stream whose read half has been sent to the reader. -/
  rd : Option S
  deriving DecidableEq, Repr

/-- Write the identifier and split the stream. -/
def identify (p : SocksParams) (stream : S) (writeAll : Bytes → Except ErrorKind Unit) :
    Except ErrorKind (Established S) := do
  writeAll (serializeStr p.user)
  return ⟨stream, some stream⟩

/-- The first `select!`, with nothing where it falls through. -/
def firstAttempt (p : SocksParams) : Attempt S → Except FatalError (Option (Established S))
  | .connection d writeAll =>
    match connect p d with
    | .ok stream => do
      -- the `?` converts to what `establish_connection` can return
      let wr ← (identify p stream writeAll).mapError .ofIo
      return some wr
    | .error (.fatal e) => .error e
    | .error (.recoverable _) => .ok none
  | .listener wr => .ok (some ⟨wr, none⟩)

/-- `error_collector`, with the `select!` after the wait. -/
def errorCollector (p : SocksParams) : Attempt S → Except MessengerError (Established S)
  | .connection d writeAll => do
    let stream ← connect p d
    (identify p stream writeAll).mapError .ofIo
  | .listener wr => .ok ⟨wr, none⟩

/-- The loop, with nothing where it goes on. -/
def retryLoop (p : SocksParams) : List (Attempt S) → Option (Except FatalError (Established S))
  | [] => none
  | a :: as =>
    match errorCollector p a with
    | .ok wr => some (.ok wr)
    | .error (.recoverable _) => retryLoop p as
    | .error (.fatal e) => some (.error e)

/-- What `establish_connection` returns in the course of the attempts, if it does. It takes a socket
that the listener already holds. -/
def establishConnection (p : SocksParams) (held : Option S) (as : List (Attempt S)) :
    Option (Except FatalError (Established S)) :=
  match held, as with
  | some wr, _ => some (.ok ⟨wr, none⟩)
  | none, [] => none
  | none, a :: as =>
    match firstAttempt p a with
    | .ok (some wr) => some (.ok wr)
    | .ok none => retryLoop p as
    | .error e => some (.error e)

/-! ### The outcomes of an attempt -/

namespace Attempt

variable {a : Attempt S} {e : FatalError}

/-- The attempt connects and cannot write the identifier. -/
def WriteError (p : SocksParams) (a : Attempt S) (e : ErrorKind) : Prop :=
  ∃ d writeAll stream, a = .connection d writeAll ∧ connect p d = .ok stream ∧
    writeAll (serializeStr p.user) = .error e

/-- The attempt has an I/O error, in connecting or in writing. -/
def IoError (p : SocksParams) (a : Attempt S) : Prop :=
  (∃ d writeAll e, a = .connection d writeAll ∧ connect p d = .error e ∧ e.io?.isSome) ∨
    ∃ e, a.WriteError p e

/-- The call of `connect` returns a fatal error. -/
def Fatal (p : SocksParams) (a : Attempt S) (e : FatalError) : Prop :=
  ∃ d writeAll, a = .connection d writeAll ∧ connect p d = .error (.fatal e)

end Attempt

open Attempt

variable {a : Attempt S} {as bs made : List (Attempt S)} {e : FatalError}

theorem io?_of_ofSocks_eq_fatal {e : SocksError} {f : FatalError}
    (h : .ofSocks e = MessengerError.fatal f) : (MessengerError.fatal f).io? = none := by
  cases e with
  | other code =>
    obtain rfl : FatalError.socks (.other code) = f := MessengerError.fatal.inj h
    rfl
  | _ => cases h

/-- No I/O error of `connect` is fatal. -/
theorem io?_of_connect_eq_fatal {d : Dial S} (h : connect p d = .error (.fatal e)) :
    (MessengerError.fatal e).io? = none := by
  obtain ⟨newV4, setNodelay, stream, password⟩ := d
  unfold connect at h
  split at h
  · cases newV4 <;> cases setNodelay <;> cases stream <;> cases password <;>
      first
      | cases h
      | exact io?_of_ofSocks_eq_fatal (Except.error.inj h)
  · cases newV4 <;> cases setNodelay <;> cases stream <;> cases h

theorem firstAttempt_of_ok {d : Dial S} {writeAll : Bytes → Except ErrorKind Unit} {stream : S}
    (h : connect p d = .ok stream) :
    firstAttempt p (.connection d writeAll) =
      ((identify p stream writeAll).mapError .ofIo).map some := by
  rw [firstAttempt, h]
  rfl

theorem errorCollector_of_ok {d : Dial S} {writeAll : Bytes → Except ErrorKind Unit} {stream : S}
    (h : connect p d = .ok stream) :
    errorCollector p (.connection d writeAll) =
      (identify p stream writeAll).mapError .ofIo := by
  rw [errorCollector, h]
  rfl

/-- What an attempt can come to, first and later. -/
inductive Outcome (p : SocksParams) (a : Attempt S) : Prop
  | established {wr : Established S} : ¬ a.IoError p → firstAttempt p a = .ok (some wr) →
      errorCollector p a = .ok wr → Outcome p a
  | fatal {e : FatalError} : ¬ a.IoError p → a.Fatal p e → firstAttempt p a = .error e →
      errorCollector p a = .error (.fatal e) → Outcome p a
  | recoverable {e : RecoverableError} : (∀ k, ¬ a.WriteError p k) → firstAttempt p a = .ok none →
      errorCollector p a = .error (.recoverable e) → Outcome p a
  | writeError {k : ErrorKind} : a.WriteError p k → firstAttempt p a = .error (.io k) →
      errorCollector p a = .error (.recoverable (.io k)) → Outcome p a

/-- **Inversion.** The two attempts agree but for the error of a write. -/
theorem outcome (p : SocksParams) (a : Attempt S) : Outcome p a := by
  cases a with
  | listener wr =>
    refine .established ?_ rfl rfl
    rintro (⟨_, _, _, ⟨⟩, _⟩ | ⟨_, _, _, _, ⟨⟩, _⟩)
  | connection d writeAll =>
    cases hconnect : connect p d with
    | ok stream =>
      cases hwrite : writeAll (serializeStr p.user) with
      | ok =>
        have hio : ¬ (connection d writeAll).IoError p := by
          rintro (⟨_, _, _, ⟨⟩, h, _⟩ | ⟨_, _, _, _, ⟨⟩, _, h⟩)
          · rw [hconnect] at h
            cases h
          · rw [hwrite] at h
            cases h
        have hid : identify p stream writeAll = .ok ⟨stream, some stream⟩ := by
          rw [identify, hwrite]
          rfl
        have hfirst : firstAttempt p (connection d writeAll) =
            .ok (some ⟨stream, some stream⟩) := by
          rw [firstAttempt_of_ok hconnect, hid]
          rfl
        refine .established hio hfirst ?_
        rw [errorCollector_of_ok hconnect, hid]
        rfl
      | error k =>
        have hid : identify p stream writeAll = .error k := by
          rw [identify, hwrite]
          rfl
        refine .writeError ⟨d, writeAll, stream, rfl, hconnect, hwrite⟩ ?_ ?_
        · rw [firstAttempt_of_ok hconnect, hid]
          rfl
        · rw [errorCollector_of_ok hconnect, hid]
          rfl
    | error e =>
      have hwrite : ∀ k, ¬ (connection d writeAll).WriteError p k := by
        rintro k ⟨_, _, _, ⟨⟩, h, _⟩
        rw [hconnect] at h
        cases h
      cases e with
      | recoverable e =>
        have hlater : errorCollector p (connection d writeAll) = .error (.recoverable e) := by
          rw [errorCollector, hconnect]
          rfl
        refine .recoverable hwrite ?_ hlater
        rw [firstAttempt, hconnect]
      | fatal e =>
        have hio : ¬ (connection d writeAll).IoError p := by
          rintro (⟨_, _, _, ⟨⟩, h, hsome⟩ | ⟨k, hk⟩)
          · rw [hconnect] at h
            obtain rfl := Except.error.inj h
            rw [io?_of_connect_eq_fatal hconnect] at hsome
            cases hsome
          · exact hwrite k hk
        refine .fatal hio ⟨d, writeAll, rfl, hconnect⟩ ?_ ?_
        · rw [firstAttempt, hconnect]
        · rw [errorCollector, hconnect]
          rfl

/-! ### Sequences of attempts -/

theorem retryLoop_append : retryLoop p (as ++ bs) = (retryLoop p as).or (retryLoop p bs) := by
  induction as with
  | nil => rfl
  | cons a as ih =>
    rw [List.cons_append, retryLoop, retryLoop]
    split
    · rfl
    · exact ih
    · rfl

/-- Attempts after the first are those of the loop. -/
theorem establishConnection_append (hne : as ≠ []) :
    establishConnection p held (as ++ bs) =
      (establishConnection p held as).or (retryLoop p bs) := by
  obtain ⟨a, as, rfl⟩ := List.exists_cons_of_ne_nil hne
  cases held with
  | some wr => rfl
  | none =>
    rw [List.cons_append, establishConnection, establishConnection]
    split
    · rfl
    · exact retryLoop_append
    · rfl

/-- A result does not change with further attempts. -/
theorem establishConnection_append_of_some {r : Except FatalError (Established S)}
    (h : establishConnection p held as = some r) :
    establishConnection p held (as ++ bs) = some r := by
  cases as with
  | nil =>
    cases held with
    | some wr => exact h
    | none => cases h
  | cons a as => rw [establishConnection_append (List.cons_ne_nil a as), h, Option.some_or]

/-- An error comes from one of the attempts. -/
theorem exists_attempt (h : establishConnection p held as = some (.error e)) :
    ∃ made a, made ++ [a] <+: as ∧ establishConnection p held made = none ∧
      establishConnection p held (made ++ [a]) = some (.error e) := by
  induction as using List.reverseRecOn with
  | nil => cases held <;> cases h
  | append_singleton as a ih =>
    cases hmade : establishConnection p held as with
    | none => exact ⟨as, a, List.prefix_rfl, hmade, h⟩
    | some r =>
      rw [establishConnection_append_of_some hmade] at h
      obtain ⟨made, b, hprefix, hresult⟩ := ih (hmade.trans h)
      exact ⟨made, b, hprefix.trans (List.prefix_append as [a]), hresult⟩

/-! ### Recovery -/

/-- In the course of the attempts, a fatal error is one of `connect`, and an attempt that has an
I/O error is followed by another. -/
def Recovers (p : SocksParams) (held : Option S) (as : List (Attempt S)) : Prop :=
  ∀ made a, made ++ [a] <+: as → establishConnection p held made = none →
    (∀ e, establishConnection p held (made ++ [a]) = some (.error e) → a.Fatal p e) ∧
      (a.IoError p → establishConnection p held (made ++ [a]) = none)

/-- With no socket from the listener, the first attempt connects and cannot write the identifier. -/
def IdentifierLost (p : SocksParams) (held : Option S) (as : List (Attempt S)) : Prop :=
  held = none ∧ ∃ a ∈ as.head?, ∃ k, a.WriteError p k

/-- The loop recovers from every I/O error. -/
theorem retryLoop_singleton (p : SocksParams) (a : Attempt S) :
    (∀ e, retryLoop p [a] = some (.error e) → a.Fatal p e) ∧
      (a.IoError p → retryLoop p [a] = none) := by
  simp only [retryLoop]
  cases outcome p a with
  | established hio _ hlater =>
    rw [hlater]
    exact ⟨fun e h => (by cases h), fun h => absurd h hio⟩
  | @fatal f hio hfatal _ hlater =>
    rw [hlater]
    refine ⟨fun e h => ?_, fun h => absurd h hio⟩
    obtain rfl : f = e := Except.error.inj (Option.some.inj h)
    exact hfatal
  | recoverable _ _ hlater | writeError _ _ hlater =>
    rw [hlater]
    exact ⟨fun e h => (by cases h), fun _ => rfl⟩

/-- The first attempt recovers from the I/O errors of `connect`. -/
theorem establishConnection_singleton (hwrite : ∀ k, ¬ a.WriteError p k) :
    (∀ e, establishConnection p none [a] = some (.error e) → a.Fatal p e) ∧
      (a.IoError p → establishConnection p none [a] = none) := by
  simp only [establishConnection]
  cases outcome p a with
  | established hio hfirst =>
    rw [hfirst]
    exact ⟨fun e h => (by cases h), fun h => absurd h hio⟩
  | @fatal f hio hfatal hfirst =>
    rw [hfirst]
    refine ⟨fun e h => ?_, fun h => absurd h hio⟩
    obtain rfl : f = e := Except.error.inj (Option.some.inj h)
    exact hfatal
  | recoverable _ hfirst =>
    rw [hfirst]
    exact ⟨fun e h => (by cases h), fun _ => rfl⟩
  | writeError hk => exact absurd hk (hwrite _)

theorem recovers_iff : Recovers p held as ↔ ¬ IdentifierLost p held as := by
  constructor
  · rintro h ⟨rfl, a, ha, k, hk⟩
    obtain ⟨as, rfl⟩ := List.head?_eq_some_iff.mp ha
    obtain ⟨d, writeAll, stream, rfl, hconnect, hwrite⟩ := hk
    have hresult : establishConnection p none [connection d writeAll] = some (.error (.io k)) := by
      simp only [establishConnection, firstAttempt, hconnect, identify, hwrite]
      rfl
    -- the error is not one of `connect`
    obtain ⟨_, _, heq, hfatal⟩ := (h [] _ (List.prefix_append _ as) rfl).1 _ hresult
    obtain ⟨rfl, -⟩ := Attempt.connection.inj heq
    rw [hconnect] at hfatal
    cases hfatal
  · intro h made a hprefix hmade
    cases made with
    | nil =>
      cases held with
      | some wr => cases hmade
      | none =>
        obtain ⟨rest, rfl⟩ := hprefix
        exact establishConnection_singleton fun k hk => h ⟨rfl, a, rfl, k, hk⟩
    | cons b made =>
      rw [establishConnection_append (List.cons_ne_nil b made), hmade, Option.none_or]
      exact retryLoop_singleton p a

/-! ### The writer -/

variable {M : Type}

/-- The ways in which the writer panics. -/
inductive WriterPanic
  | messageChannelClosed
  | establishing (e : FatalError)
  deriving DecidableEq, Repr

/-- Where the writer is, with messages of type `M`. -/
inductive WriterPhase (S M : Type)
  /-- Waits for its first message. -/
  | first
  /-- In `establish_connection`. -/
  | connecting (msg : M)
  | writing (msg : M) (stream : S)
  | receiving (stream : S)
  | panicked (p : WriterPanic)

/-- What the calls of the writer come to. -/
inductive WriterEvent (S M : Type)
  /-- A message, or nothing if the channel is closed. -/
  | recv (msg : Option M)
  /-- A call of `establish_connection`. -/
  | establish (held : Option S) (attempts : List (Attempt S))
  | writeAllTo (r : Except ErrorKind Unit)

namespace WriterPhase

def step (p : SocksParams) : WriterPhase S M → WriterEvent S M → Option (WriterPhase S M)
  | .first, .recv (some msg) => some (.connecting msg)
  | .connecting msg, .establish held attempts =>
    match establishConnection p held attempts with
    | some (.ok wr) => some (.writing msg wr.wr)
    | some (.error e) => some (.panicked (.establishing e))
    | none => none
  | .writing _ stream, .writeAllTo (.ok ()) => some (.receiving stream)
  | .writing msg _, .writeAllTo (.error _) => some (.connecting msg)
  | .receiving stream, .recv (some msg) => some (.writing msg stream)
  | .first, .recv none | .receiving _, .recv none => some (.panicked .messageChannelClosed)
  | _, _ => none

def system (p : SocksParams) : System (WriterPhase S M) (WriterEvent S M) := ⟨step p⟩

variable {s : WriterPhase S M} {event : WriterEvent S M} {events : List (WriterEvent S M)}

/-- Only `establish_connection` gives an error to panic over. -/
theorem exists_of_step (h : s.step p event = some (.panicked (.establishing e))) :
    ∃ held as, event = .establish held as ∧ establishConnection p held as = some (.error e) := by
  unfold step at h
  split at h <;> try cases h
  split at h
  · cases h
  · cases h
    exact ⟨_, _, rfl, ‹_›⟩
  · cases h

theorem exists_of_run (h : (system p).run s events = some (.panicked (.establishing e))) :
    s = .panicked (.establishing e) ∨
      ∃ held as, .establish held as ∈ events ∧
        establishConnection p held as = some (.error e) := by
  induction events generalizing s with
  | nil => exact .inl (Option.some_inj.mp h)
  | cons event events ih =>
    obtain ⟨t, hstep, hrun⟩ := System.run_cons_eq_some.mp h
    obtain rfl | ⟨held, as, hmem, hresult⟩ := ih hrun
    · obtain ⟨held, as, rfl, hresult⟩ := exists_of_step hstep
      exact .inr ⟨held, as, List.mem_cons_self, hresult⟩
    · exact .inr ⟨held, as, List.mem_cons_of_mem event hmem, hresult⟩

end WriterPhase

/-- The writer recovers in every call of `establish_connection`, and it panics over an error of
one only if `connect` has returned that error as a fatal one. -/
structure Survives (p : SocksParams) (events : List (WriterEvent S M)) : Prop where
  recovers : ∀ held as, .establish held as ∈ events → Recovers p held as
  fatal : ∀ e, (WriterPhase.system p).run .first events = some (.panicked (.establishing e)) →
    ∃ held as, .establish held as ∈ events ∧
      ∃ made a, made ++ [a] <+: as ∧ establishConnection p held made = none ∧ a.Fatal p e

/-- **I/O errors.** A peer's writer survives them exactly if no first attempt connects and then
fails to write the identifier. -/
theorem survives_iff (p : SocksParams) (events : List (WriterEvent S M)) :
    Survives p events ↔
      ∀ held as, .establish held as ∈ events → ¬ IdentifierLost p held as := by
  constructor
  · intro h held as hmem
    exact recovers_iff.mp (h.recovers held as hmem)
  · intro h
    have hrecovers : ∀ held as, .establish held as ∈ events → Recovers p held as :=
      fun held as hmem => recovers_iff.mpr (h held as hmem)
    refine ⟨hrecovers, fun e hrun => ?_⟩
    obtain ⟨⟨⟩⟩ | ⟨held, as, hmem, hresult⟩ := WriterPhase.exists_of_run hrun
    obtain ⟨made, a, hprefix, hmade, hlast⟩ := exists_attempt hresult
    have hfatal := (hrecovers held as hmem made a hprefix hmade).1 e hlast
    exact ⟨held, as, hmem, made, a, hprefix, hmade, hfatal⟩

/-- The events of a writer whose connection is reset before it has written the identifier. -/
def identifierReset : List (WriterEvent Unit Unit) :=
  [.recv (some ()),
    .establish none [.connection ⟨.ok (), .ok (), .ok (), .ok ()⟩ fun _ => .error (.other 104)]]

/-- **Lost identifier.** A writer whose connection is reset then panics. -/
theorem writer_of_identifierLost :
    (WriterPhase.system ⟨none, "127.0.0.1:6397", "alice", "bob"⟩).run .first identifierReset =
        some (.panicked (.establishing (.io (.other 104)))) ∧
      ¬ Survives ⟨none, "127.0.0.1:6397", "alice", "bob"⟩ identifierReset := by
  refine ⟨rfl, fun h => ?_⟩
  have hrecovers := h.recovers none _ (List.mem_cons_of_mem _ List.mem_cons_self)
  refine recovers_iff.mp hrecovers ⟨rfl, _, rfl, .other 104, ?_⟩
  exact ⟨_, _, (), rfl, rfl, rfl⟩

end SignalSim.Mgen.Peer
