import SignalSim.Mgen.Peer.Tasks

/-!
# No black hole between two peers

Without a break a writer opens at most one connection, and only if the listener has not given
it one. So there are at most two. If both users open one, each writer writes to its own, and a
reader may get either of the two: then messages are lost unless it gets the other user's.

## Main definitions

* `Peers.Quiescent` — nothing left to do without a new message or a break
* `Peers.Delivers` — every reader has read all, and reads what the other side writes to
* `Peers.ReadsOther` — no reader settles for its own side's connection when the other side has
  opened one

## Main results

* `Peers.delivers_iff` — in the quiescent states without a break, `Delivers` holds exactly
  after the runs that meet `ReadsOther`
* `Peers.black_hole` — both users connect at the same time
-/

namespace SignalSim.Mgen

open Function (update update_self update_of_ne)

/-- The step is one that a task takes without a new message or a break. -/
def PeersAction.Internal : PeersAction → Prop
  | enqueue _ _ | disconnect _ => False
  | _ => True

namespace Peers

/-! ### The property -/

/-- No connection is being accepted, and no task can step without a new message. -/
structure Quiescent (groups : Side → List String) (s : Peers) : Prop where
  still : ∀ a, a.Internal → s.step groups a = none
  accepting : ∀ x, s.listener x = .accepting ∧ s.backlog x = []

/-- What one side wrote the other has read, and it reads the connection that is written to. -/
def Delivers (s : Peers) : Prop :=
  ∀ x, (∀ c, (s.link c x).pending = []) ∧
    ∀ c, (s.writer x).ready? = some c → s.reader x.other = .reading c

/-- A reader takes its own side's connection only if the other side has opened none, and no
writer opens one when the other side's reader has taken its own. -/
def ReadsOther (s : Peers) : PeersAction → Prop
  | .takeReadHalf x => ∀ c ∈ (s.rdUpdater x).object, s.opener c = x →
      ∀ d < s.opened, s.opener d = x
  | .connect x => ∀ c < s.opened, s.reader x.other = .reading c → s.opener c = x
  | _ => True

instance (s : Peers) (a : PeersAction) : Decidable (s.ReadsOther a) :=
  match a with
  | .takeReadHalf _ => inferInstanceAs (Decidable (∀ c ∈ _, _ → ∀ d < _, _))
  | .connect _ => inferInstanceAs (Decidable (∀ c < _, _ → _))
  | .enqueue .. | .takeMessage _ | .check _ | .connectFailed _ | .connectFatal _
  | .takeStream _ | .wake _ | .identify _ | .identifyError _ | .handOver _ | .write _
  | .writeError _ | .accept _ | .parse _ | .parseError _ | .handRd _ | .handWr _ | .read _
  | .readError _ | .disconnect _ => .isTrue trivial

/-! ### The invariants -/

variable {groups : Side → List String} {s t : Peers} {a : PeersAction} {x y : Side} {c : ℕ}

/-- All messages are of groups that the user knows. -/
structure Known (groups : Side → List String) (s : Peers) : Prop where
  queued : ∀ x, ∀ m ∈ (s.messages x).log, m.group ∈ groups x
  inHand : ∀ x, ∀ m ∈ (s.writer x).inHand, m.group ∈ groups x
  link : ∀ c x, ∀ m ∈ (s.link c x).log, m.group ∈ groups x
  reader : ∀ x, s.reader x ≠ .panicked

/-- The listener, or the updater of the writer, has the connection or will get it. -/
def Inbound (s : Peers) (x : Side) (c : ℕ) : Prop :=
  c ∈ s.backlog x ∨ (s.listener x).connection? = some c ∨ (s.wrUpdater x).object = some c

/-- The listener has yet to hand over the read half. -/
def OnItsWay (s : Peers) (x : Side) (c : ℕ) : Prop :=
  c ∈ s.backlog x ∨ s.listener x = .parsing c ∨ s.listener x = .handRd c

/-- What holds until a connection breaks. -/
structure Sound (s : Peers) : Prop where
  /-- A connection is the stream of the writer that opened it. -/
  own : ∀ c < s.opened, (s.writer (s.opener c)).stream? = some c
  stream : ∀ x c, (s.writer x).stream? = some c → c < s.opened
  inbound : ∀ x c, s.Inbound x c → c < s.opened ∧ s.opener c = x.other
  slot : ∀ x c, (s.rdUpdater x).object = some c → c < s.opened
  reading : ∀ x c, s.reader x = .reading c → c < s.opened
  accepted : ∀ c < s.opened, s.OnItsWay (s.opener c).other c ∨ s.Delivered (s.opener c).other
  handed : ∀ x c, (s.writer x).ready? = some c → s.opener c = x → s.Delivered x
  linked : ∀ c x, ∀ m ∈ (s.link c x).log, (s.writer x).stream? = some c

theorem known_step (hg : ∀ x, groups x ⊆ groups x.other) (hs : s.Known groups)
    (h : Step groups s a t) : t.Known groups := by
  constructor
  case queued =>
    intro x m hm
    obtain hm | hm := messages_cases h hm
    · exact hs.queued x m hm
    · exact hm
  case inHand =>
    intro x m hm
    obtain hw | hn := writer_cases h x
    · exact hs.inHand x m (hw ▸ hm)
    · obtain hm | hm := hn.inHand_cases hm
      · exact hs.inHand x m hm
      · exact hs.queued x m hm
  case link =>
    intro c x m hm
    obtain hm | ⟨hm, _⟩ := link_cases h hm
    · exact hs.link c x m hm
    · exact hs.inHand x m hm
  case reader =>
    intro x
    cases h with
    | @takeReadHalf y => by_cases hxy : x = y <;> simp [hxy, hs.reader]
    | @read y d m q _ hq =>
      -- the other side sends messages of common groups only
      have hm : m.group ∈ groups y := by
        have := hg y.other (hs.link d y.other m (Fifo.mem_log_of_pop? hq))
        rwa [Side.other_other] at this
      by_cases hxy : x = y <;> simp [hxy, hm, hs.reader]
    | @readError y => by_cases hxy : x = y <;> simp [hxy, hs.reader]
    | _ => exact hs.reader x

theorem inbound_cases (h : Step groups s a t) (hc : t.Inbound x c) :
    s.Inbound x c ∨ c = s.opened ∧ Opens s a t x.other := by
  obtain hc | hc | hc := hc
  · exact (backlog_cases h hc).imp .inl id
  · left
    obtain hl | hn := listener_cases h x
    · exact .inr (.inl (hl ▸ hc))
    · exact (hn.connection_cases hc).elim (fun hc => .inr (.inl hc)) .inl
  · left
    obtain hc | hc := wrUpdater_cases h hc
    · exact .inr (.inr hc)
    · exact .inr (.inl (by rw [hc]; rfl))

theorem onItsWay_step (hs : s.Unbroken) (h : Step groups s a t) (hc : s.OnItsWay x c) :
    t.OnItsWay x c ∨ t.Delivered x := by
  obtain hc | hc := hc
  · exact .inl ((backlog_mono h hc).imp id .inl)
  · obtain hl | hn := listener_cases h x
    · exact .inl (.inr (hl ▸ hc))
    · exact (hn.delivers hs hc).imp (fun hl => .inr (.inr hl)) id

theorem sound_step (ht : t.Unbroken) (hs : s.Sound) (h : Step groups s a t) : t.Sound := by
  have hu := ht.of_step h
  have hle := opened_mono h
  have hstream : ∀ x c, (s.writer x).stream? = some c → (t.writer x).stream? = some c := by
    intro x c hc
    obtain hw | hn := writer_cases h x
    · rw [hw]
      exact hc
    · exact hn.stream_mono hu hc
  constructor
  case own =>
    intro c hc
    obtain ⟨ho, ho'⟩ | ⟨x, ho⟩ := opened_cases h
    · rw [ho']
      exact hstream _ c (hs.own c (ho ▸ hc))
    · by_cases hnew : c = s.opened
      · subst hnew
        rw [ho.opener, update_self]
        exact ho.stream
      · rw [ho.opener, update_of_ne hnew]
        exact hstream _ c (hs.own c (by have := ho.opened; omega))
  case stream =>
    intro x c hc
    obtain hw | hn := writer_cases h x
    · exact Nat.lt_of_lt_of_le (hs.stream x c (hw ▸ hc)) hle
    · obtain hc | hc | ⟨rfl, ho⟩ := hn.stream_cases hc
      · exact Nat.lt_of_lt_of_le (hs.stream x c hc) hle
      · exact Nat.lt_of_lt_of_le (hs.inbound x c (.inr (.inr hc))).1 hle
      · exact ho.opened ▸ Nat.lt_succ_self _
  case inbound =>
    intro x c hc
    obtain hc | ⟨rfl, ho⟩ := inbound_cases h hc
    · obtain ⟨hlt, hop⟩ := hs.inbound x c hc
      exact ⟨Nat.lt_of_lt_of_le hlt hle, (opener_eq h hlt).trans hop⟩
    · exact ⟨ho.opened ▸ Nat.lt_succ_self _, by rw [ho.opener, update_self]⟩
  case slot =>
    intro x c hc
    refine Nat.lt_of_lt_of_le ?_ hle
    obtain hc | hc | hc := rdUpdater_cases h hc
    · exact hs.slot x c hc
    · exact (hs.inbound x c (.inr (.inl (by rw [hc]; rfl)))).1
    · exact hs.stream x c hc
  case reading =>
    intro x c hc
    refine Nat.lt_of_lt_of_le ?_ hle
    obtain hc | ⟨_, hc, _⟩ := reader_cases h hc
    · exact hs.reading x c hc
    · exact hs.slot x c hc
  case accepted =>
    intro c hc
    by_cases hold : c < s.opened
    · rw [opener_eq h hold]
      obtain hw | hd := hs.accepted c hold
      · exact onItsWay_step hu h hw
      · exact .inr (delivered_mono hu h hd)
    · -- a new connection is in the backlog
      obtain ⟨ho, _⟩ | ⟨x, ho⟩ := opened_cases h
      · exact absurd (ho ▸ hc) hold
      · obtain rfl : c = s.opened := by
          have := ho.opened
          omega
        rw [ho.opener, update_self]
        exact .inl (.inl ho.backlog)
  case handed =>
    intro x c hc hop
    have hmono : (s.writer x).ready? = some c → t.Delivered x := by
      intro hc
      rw [opener_eq h (hs.stream x c (stream_of_ready hc))] at hop
      exact delivered_mono hu h (hs.handed x c hc hop)
    obtain hw | hn := writer_cases h x
    · exact hmono (hw ▸ hc)
    · obtain hc | hc | hc := hn.ready_cases hc
      · exact hmono hc
      · -- the listener's streams are not of its own side
        obtain ⟨hlt, hother⟩ := hs.inbound x c (.inr (.inr hc))
        rw [opener_eq h hlt, hother] at hop
        exact absurd hop Side.other_ne
      · exact .inl (by simp [hc])
  case linked =>
    intro c x m hm
    obtain hm | ⟨_, hc⟩ := link_cases h hm
    · exact hstream x c (hs.linked c x m hm)
    · exact hstream x c hc

theorem Known.init : Peers.init.Known groups where
  queued x m hm := by cases hm
  inHand x m hm := by cases hm
  link c x m hm := by cases hm
  reader x := nofun

theorem Sound.init : Peers.init.Sound where
  own c hc := by cases hc
  stream x c hc := by cases hc
  inbound x c hc := by obtain hc | hc | hc := hc <;> cases hc
  slot x c hc := by cases hc
  reading x c hc := by cases hc
  accepted c hc := by cases hc
  handed x c hc := by cases hc
  linked c x m hm := by cases hm

/-! ### A reader on the wrong connection -/

/-- A reader reads its own side's connection although the other side has opened one. -/
def ReadsOwn (s : Peers) : Prop :=
  ∃ x c, s.reader x = .reading c ∧ s.opener c = x ∧ ∃ d < s.opened, s.opener d ≠ x

/-- A reader stays on the wrong connection. -/
theorem readsOwn_mono (hg : ∀ x, groups x ⊆ groups x.other) (hs : s.Known groups)
    (hu : s.Unbroken) (hso : s.Sound) (h : Step groups s a t) (hR : s.ReadsOwn) :
    t.ReadsOwn := by
  obtain ⟨x, c, hr, hc, d, hd, hne⟩ := hR
  have hreading : t.reader x = .reading c := by
    cases h with
    | @takeReadHalf y e hw =>
      by_cases hxy : x = y
      · -- a reader that has a stream asks for no other
        subst hxy
        cases hr.symm.trans hw
      · simpa [hxy] using hr
    | @read y e m q hry hq =>
      have hm : m.group ∈ groups y := by
        have := hg y.other (hs.link e y.other m (Fifo.mem_log_of_pop? hq))
        rwa [Side.other_other] at this
      by_cases hxy : x = y
      · subst hxy
        simpa [hm, setLink, hr] using hry.symm
      · simpa [hxy, setLink] using hr
    | readError _ hb => cases hb.symm.trans (hu _)
    | _ => exact hr
  refine ⟨x, c, hreading, ?_, d, Nat.lt_of_lt_of_le hd (opened_mono h), ?_⟩
  · rw [opener_eq h (hso.reading x c hr), hc]
  · rw [opener_eq h hd]
    exact hne

/-- A reader gets onto the wrong connection only by a step that breaks the condition. -/
theorem not_readsOwn_step (hso : s.Sound) (hC : s.ReadsOther a) (h : Step groups s a t)
    (hR : ¬ s.ReadsOwn) : ¬ t.ReadsOwn := by
  rintro ⟨x, c, hr, hc, d, hd, hne⟩
  obtain hr' | ⟨rfl, ho, hop, hle⟩ := reader_cases h hr
  · have hlt := hso.reading x c hr'
    rw [opener_eq h hlt] at hc
    by_cases hold : d < s.opened
    · rw [opener_eq h hold] at hne
      exact hR ⟨x, c, hr', hc, d, hold, hne⟩
    · -- the other side has just opened it
      obtain ⟨hle, _⟩ | ⟨y, hopens⟩ := opened_cases h
      · exact hold (hle ▸ hd)
      · obtain rfl : d = s.opened := by
          have := hopens.opened
          omega
        rw [hopens.opener, update_self] at hne
        obtain rfl : y = x.other := Side.eq_other hne
        have hC := hopens.action ▸ hC
        exact Side.ne_other (hc.symm.trans (hC c hlt (by rwa [Side.other_other])))
  · rw [hop] at hc hne
    rw [hle] at hd
    exact hne (hC c ho hc d hd)

theorem readsOwn_of_not (hC : ¬ s.ReadsOther a) (h : Step groups s a t) :
    t.ReadsOwn := by
  cases h with
  | @takeReadHalf x c hw ho =>
    simp only [ReadsOther, ho, Option.mem_def, Option.some_inj, forall_eq', not_forall] at hC
    obtain ⟨hc, d, hd, hne⟩ := hC
    exact ⟨x, c, by simp, hc, d, hd, hne⟩
  | @connect again x m _ =>
    -- the other side's reader is on its own connection, and now there is another
    simp only [ReadsOther, not_forall] at hC
    obtain ⟨c, hlt, hr, hc⟩ := hC
    refine ⟨x.other, c, hr, ?_, s.opened, Nat.lt_succ_self _, ?_⟩
    · simpa [connected, Nat.ne_of_lt hlt] using Side.eq_other hc
    · simp [connected]
  | _ => exact absurd trivial hC

/-! ### Quiescent states -/

/-- Without a break a writer that has a stream has nothing left to do but to wait. -/
theorem Quiescent.receiving (hQ : s.Quiescent groups) (hc : (s.writer x).stream? = some c) :
    s.writer x = .receiving c := by
  cases hw : s.writer x with
  | identifying m d again => simpa [step, hw] using hQ.still (.identify x) trivial
  | handing m d => simpa [step, hw] using hQ.still (.handOver x) trivial
  | writing m d => simpa [step, hw] using hQ.still (.write x) trivial
  | receiving d =>
    rw [hw] at hc
    exact congrArg _ (Option.some_inj.mp hc)
  | _ =>
    rw [hw] at hc
    cases hc

theorem Quiescent.reads (hQ : s.Quiescent groups) (hs : s.Known groups) (hd : s.Delivered x) :
    ∃ c, s.reader x = .reading c := by
  cases hr : s.reader x with
  | waiting =>
    obtain hd | hd := hd
    · obtain ⟨c, hc⟩ := Option.ne_none_iff_exists'.mp hd
      have hu : (s.rdUpdater x).recv = (some c, (s.rdUpdater x).recv.2) := by
        rw [← hc, ← Updater.recv_fst]
      have hstill := hQ.still (.takeReadHalf x) trivial
      simp only [step, hr] at hstill
      rw [hu] at hstill
      cases hstill
    · exact absurd hr hd
  | reading c => exact ⟨c, rfl⟩
  | panicked => exact absurd hr (hs.reader x)

/-- The other side's reader reads the connection that the writer has. -/
theorem reads_stream (hs : s.Known groups) (hso : s.Sound) (hQ : s.Quiescent groups)
    (hR : ¬ s.ReadsOwn) (hc : (s.writer x).stream? = some c) :
    s.reader x.other = .reading c := by
  have hlt := hso.stream x c hc
  -- one that the writer has opened came in through the listener, any other one the other
  -- side's writer has opened and handed over
  have hdel : s.Delivered x.other := by
    by_cases hx : s.opener c = x
    · obtain hw | hd := hso.accepted c hlt
      · obtain ⟨hl, hb⟩ := hQ.accepting (s.opener c).other
        simp [OnItsWay, hl, hb] at hw
      · rwa [hx] at hd
    · have hop : s.opener c = x.other := Side.eq_other hx
      have hown := hso.own c hlt
      rw [hop] at hown
      exact hso.handed x.other c (by rw [hQ.receiving hown]; rfl) hop
  obtain ⟨d, hd⟩ := hQ.reads hs hdel
  have hdlt := hso.reading _ d hd
  have hown := hso.own d hdlt
  by_cases hx : s.opener d = x
  · rw [hx, hc] at hown
    rw [hd, Option.some_inj.mp hown]
  · have hop : s.opener d = x.other := Side.eq_other hx
    by_cases hcx : s.opener c = x
    · exact absurd ⟨x.other, d, hd, hop, c, hlt, by simp [hcx]⟩ hR
    · -- the other side's writer has opened both
      have hownc := hso.own c hlt
      rw [Side.eq_other hcx, ← hop, hown] at hownc
      rw [hd, Option.some_inj.mp hownc]

theorem delivers_of_not_readsOwn (hs : s.Known groups) (hso : s.Sound)
    (hQ : s.Quiescent groups) (hR : ¬ s.ReadsOwn) : s.Delivers := by
  intro x
  refine ⟨fun c => ?_, fun c hc => reads_stream hs hso hQ hR (stream_of_ready hc)⟩
  cases hlog : (s.link c x).log with
  | nil => simp [Fifo.pending, hlog]
  | cons m log =>
    have hst := hso.linked c x m (hlog ▸ List.mem_cons_self)
    have hr := reads_stream hs hso hQ hR hst
    have hstill := hQ.still (.read x.other) trivial
    simp only [step, hr, Side.other_other, Option.map_eq_none_iff] at hstill
    exact Fifo.pop?_eq_none.mp hstill

theorem not_readsOwn_of_delivers (hso : s.Sound) (hQ : s.Quiescent groups)
    (hD : s.Delivers) : ¬ s.ReadsOwn := by
  rintro ⟨x, c, hr, hc, d, hd, hne⟩
  have hown := hso.own d hd
  rw [Side.eq_other hne] at hown
  have hready : (s.writer x.other).ready? = some d := by
    rw [hQ.receiving hown]
    rfl
  -- so the reader would have to be on the connection the other side opened
  have hrd := (hD x.other).2 d hready
  rw [Side.other_other, hr] at hrd
  cases hrd
  exact hne hc

/-- **No black hole, exactly when.** In a quiescent state without a broken connection, reached
by any run of two users who list each other, all messages written have been read by the reader
of the connection written to, if and only if throughout the run no reader settled for its own
side's connection while the other side opened one. -/
theorem delivers_iff (hg : ∀ x, groups x ⊆ groups x.other) {as : List PeersAction}
    (hrun : (peersSystem groups).run .init as = some s) (hQ : s.Quiescent groups)
    (hu : s.Unbroken) :
    s.Delivers ↔ (peersSystem groups).Along ReadsOther .init as := by
  have hinv : ∀ s a t, s.Known groups ∧ (s.Unbroken → s.Sound) →
      (peersSystem groups).step s a = some t → t.Known groups ∧ (t.Unbroken → t.Sound) := by
    rintro s a t ⟨hs, hso⟩ h
    have h := step_cases h
    exact ⟨known_step hg hs h, fun ht => sound_step ht (hso (ht.of_step h)) h⟩
  have hinit : Peers.init.Known groups ∧ (Peers.init.Unbroken → Peers.init.Sound) :=
    ⟨.init, fun _ => .init⟩
  obtain ⟨hs, hso⟩ := System.invariant hinv hinit hrun
  constructor
  · intro hD
    refine System.along_of_not_persistent (B := fun s => s.Unbroken → s.ReadsOwn) hinv
      (fun s a t hI h hC ht => ?_) (fun s a t hI hbad h ht => ?_) hinit hrun
      (fun hbad => not_readsOwn_of_delivers (hso hu) hQ hD (hbad hu))
    · exact readsOwn_of_not hC (step_cases h)
    · have hus := ht.of_step (step_cases h)
      exact readsOwn_mono hg hI.1 hus (hI.2 hus) (step_cases h) (hbad hus)
  · intro hC
    refine delivers_of_not_readsOwn hs (hso hu) hQ ?_
    refine (System.invariant_along (I := fun s => (s.Known groups ∧ (s.Unbroken → s.Sound)) ∧
      (s.Unbroken → ¬ s.ReadsOwn)) (fun s a t hI hC h => ?_) ⟨hinit, fun _ => ?_⟩ hC hrun).2 hu
    · refine ⟨hinv s a t hI.1 h, fun ht => ?_⟩
      have hus := ht.of_step (step_cases h)
      exact not_readsOwn_step (hI.1.2 hus) hC (step_cases h) (hI.2 hus)
    · rintro ⟨x, c, hr, _⟩
      cases hr

/-! ### Both users connect at the same time -/

/-- Both users have a message for the other, and both connect. -/
def bothConnect : List PeersAction :=
  [.enqueue .left ⟨"a", "g", 0, .receipt⟩, .enqueue .right ⟨"b", "g", 0, .receipt⟩,
    .takeMessage .left, .takeMessage .right, .check .left, .check .right, .connect .left,
    .connect .right, .identify .left, .identify .right, .handOver .left, .handOver .right]

/-- Then both readers get the other side's connection before they ask for one. -/
def luckyReaders : List PeersAction :=
  bothConnect ++ [.accept .left, .accept .right, .parse .left, .parse .right, .handRd .left,
    .handRd .right, .takeReadHalf .left, .takeReadHalf .right, .handWr .left, .handWr .right,
    .write .left, .write .right, .read .left, .read .right]

/-- Or both readers get their own. -/
def unluckyReaders : List PeersAction :=
  bothConnect ++ [.takeReadHalf .left, .takeReadHalf .right, .accept .left, .accept .right,
    .parse .left, .parse .right, .handRd .left, .handRd .right, .handWr .left, .handWr .right,
    .write .left, .write .right]

theorem lucky_quiescent : ∃ s, (peersSystem fun _ => ["g"]).run .init luckyReaders = some s ∧
    s.Quiescent (fun _ => ["g"]) ∧ s.Unbroken := by
  refine ⟨_, rfl, ⟨fun a ha => ?_, fun x => ?_⟩, fun _ => rfl⟩
  · cases a with
    | enqueue | disconnect => exact ha.elim
    | _ x => cases x <;> rfl
  · cases x <;> exact ⟨rfl, rfl⟩

theorem unlucky_quiescent : ∃ s, (peersSystem fun _ => ["g"]).run .init unluckyReaders = some s ∧
    s.Quiescent (fun _ => ["g"]) ∧ s.Unbroken ∧ (s.link 0 .left).pending ≠ [] := by
  refine ⟨_, rfl, ⟨fun a ha => ?_, fun x => ?_⟩, fun _ => rfl, nofun⟩
  · cases a with
    | enqueue | disconnect => exact ha.elim
    | _ x => cases x <;> rfl
  · cases x <;> exact ⟨rfl, rfl⟩

theorem delivers_bothConnect : ∃ s,
    (peersSystem fun _ => ["g"]).run .init luckyReaders = some s ∧ s.Delivers := by
  obtain ⟨s, hrun, hQ, hu⟩ := lucky_quiescent
  exact ⟨s, hrun, (delivers_iff (fun _ => List.Subset.refl _) hrun hQ hu).mpr (by decide +kernel)⟩

theorem black_hole : ∃ s, (peersSystem fun _ => ["g"]).run .init unluckyReaders = some s ∧
    s.Quiescent (fun _ => ["g"]) ∧ s.Unbroken ∧ ¬ s.Delivers := by
  obtain ⟨s, hrun, hQ, hu, hpending⟩ := unlucky_quiescent
  exact ⟨s, hrun, hQ, hu, fun hD => hpending ((hD .left).1 0)⟩

end Peers

end SignalSim.Mgen
