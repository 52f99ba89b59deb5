import SignalSim.Mgen.Peer.Model

/-!
# What a step of two peers can do

One lemma for each task and each channel. The invariants of the two peers are assembled from
these and never look at a step itself.

## Main definitions

* `Peers.WriterNext`, `Peers.ListenerNext` — how a writer and a listener move on
* `Peers.Opens` — a step that opens a connection

## Main results

* `Peers.writer_cases`, `Peers.listener_cases`, `Peers.reader_cases` — the tasks
* `Peers.wrUpdater_cases`, `Peers.rdUpdater_cases`, `Peers.link_cases` — what gets into the
  channels
* `Peers.delivered_mono` — a reader that has a stream keeps it
-/

namespace SignalSim.Mgen

open Function (update update_self update_of_ne)

namespace Side

variable {x y : Side}

@[simp] theorem other_other : x.other.other = x := by cases x <;> rfl

@[simp] theorem other_ne : x.other ≠ x := by cases x <;> nofun

@[simp] theorem ne_other : x ≠ x.other := by cases x <;> nofun

theorem eq_other (h : x ≠ y) : x = y.other := by
  cases x <;> cases y <;> first | rfl | exact absurd rfl h

end Side

/-- The connection that the writer has. -/
def PeerWriter.stream? : PeerWriter → Option ℕ
  | identifying _ c _ | handing _ c | writing _ c | receiving c => some c
  | _ => none

/-- The connection that the writer writes to. -/
def PeerWriter.ready? : PeerWriter → Option ℕ
  | writing _ c | receiving c => some c
  | _ => none

/-- The message that the writer has taken and not yet written. -/
def PeerWriter.inHand : PeerWriter → List MessageHeader
  | checking m | attempting m | sleeping m | connecting m => [m]
  | identifying m _ _ | handing m _ | writing m _ => [m]
  | _ => []

/-- The connection that the listener is busy with. -/
def Listener.connection? : Listener → Option ℕ
  | accepting => none
  | parsing c | handRd c | handWr c => some c

namespace Peers

attribute [local simp] toWriter toListener took connected gotStream setLink
  PeerWriter.stream? PeerWriter.ready? PeerWriter.inHand Listener.connection?

/-- No connection has broken. -/
def Unbroken (s : Peers) : Prop := ∀ c, s.broken c = false

variable {groups : Side → List String} {s t : Peers} {a : PeersAction} {x y : Side} {c : ℕ}

theorem broken_mono (h : Step groups s a t) (hc : s.broken c = true) : t.broken c = true := by
  cases h with
  | @disconnect d hd => by_cases hcd : c = d <;> simp [hcd, hc]
  | _ => exact hc

theorem Unbroken.of_step (ht : t.Unbroken) (h : Step groups s a t) : s.Unbroken := by
  intro c
  by_contra hc
  cases (broken_mono h (by simpa using hc)).symm.trans (ht c)

/-- A new connection waits to be accepted. -/
structure Opens (s : Peers) (a : PeersAction) (t : Peers) (x : Side) : Prop where
  action : a = .connect x
  stream : (t.writer x).stream? = some s.opened
  backlog : s.opened ∈ t.backlog x.other
  opened : t.opened = s.opened + 1
  opener : t.opener = update s.opener s.opened x

/-- How the writer of `x` moves on. -/
inductive WriterNext (s : Peers) (a : PeersAction) (t : Peers) (x : Side) :
    PeerWriter → PeerWriter → Prop
  | takeFirst {m} : m ∈ (s.messages x).log → WriterNext s a t x .first (.checking m)
  | takeNext {m c} : m ∈ (s.messages x).log → WriterNext s a t x (.receiving c) (.writing m c)
  /-- It still has no connection. -/
  | seek {w v} : w.stream? = none → v.stream? = none → v.inHand ⊆ w.inHand →
      WriterNext s a t x w v
  | gotStream {w m c} : w.stream? = none → m ∈ w.inHand → (s.wrUpdater x).object = some c →
      WriterNext s a t x w (.writing m c)
  | connect {w m again} : w.stream? = none → m ∈ w.inHand → Opens s a t x →
      WriterNext s a t x w (.identifying m s.opened again)
  | identify {m c again} : WriterNext s a t x (.identifying m c again) (.handing m c)
  | handOver {m c} : (t.rdUpdater x).object = some c →
      WriterNext s a t x (.handing m c) (.writing m c)
  | write {m c} : WriterNext s a t x (.writing m c) (.receiving c)
  | error {w v c} : s.broken c = true → v.stream? = none → v.inHand ⊆ w.inHand →
      WriterNext s a t x w v

theorem writer_update {w : PeerWriter} (hw : t.writer = update s.writer y w)
    (hn : WriterNext s a t y (s.writer y) w) :
    t.writer x = s.writer x ∨ WriterNext s a t x (s.writer x) (t.writer x) := by
  by_cases hxy : x = y
  · subst hxy
    rw [hw, update_self]
    exact .inr hn
  · rw [hw, update_of_ne hxy]
    exact .inl rfl

theorem writer_cases (h : Step groups s a t) (x : Side) :
    t.writer x = s.writer x ∨ WriterNext s a t x (s.writer x) (t.writer x) := by
  cases h with
  | takeFirst hw hq =>
    refine writer_update rfl (hw ▸ .takeFirst ?_)
    exact Fifo.mem_log_of_pop? hq
  | takeNext hw hq =>
    refine writer_update rfl (hw ▸ .takeNext ?_)
    exact Fifo.mem_log_of_pop? hq
  | checkSome hw ho =>
    exact writer_update rfl (hw ▸ .gotStream rfl (by simp) ho)
  | checkNone hw ho => exact writer_update rfl (hw ▸ .seek rfl rfl (by simp))
  | @connect again y m hw =>
    -- the first attempt and the later ones open connections alike
    have ho : Opens s (.connect y) (s.connected y m again) y := ⟨rfl, by simp, by simp, rfl, rfl⟩
    cases again with
    | false => exact writer_update rfl (hw ▸ .connect rfl (by simp) ho)
    | true => exact writer_update rfl (hw ▸ .connect rfl (by simp) ho)
  | connectFailed hw | connectFatal hw =>
    obtain hw | hw := hw
    · exact writer_update rfl (hw ▸ .seek rfl rfl (by simp))
    · exact writer_update rfl (hw ▸ .seek rfl rfl (by simp))
  | takeStream hw ho =>
    obtain hw | hw := hw
    · exact writer_update rfl (hw ▸ .gotStream rfl (by simp) ho)
    · exact writer_update rfl (hw ▸ .gotStream rfl (by simp) ho)
  | wake hw => exact writer_update rfl (hw ▸ .seek rfl rfl (by simp))
  | identify hw => exact writer_update rfl (hw ▸ .identify)
  | @identifyError y m c again hw hb =>
    -- fatal or not, the writer has lost its stream
    exact writer_update rfl
      (hw ▸ .error hb (by cases again <;> rfl) (by cases again <;> simp))
  | handOver hw => exact writer_update rfl (hw ▸ .handOver (by simp))
  | write hw => exact writer_update rfl (hw ▸ .write)
  | writeError hw hb => exact writer_update rfl (hw ▸ .error hb rfl (by simp))
  | _ => exact .inl rfl

theorem stream_of_ready {w : PeerWriter} (h : w.ready? = some c) : w.stream? = some c := by
  cases w with
  | writing m d | receiving d => exact h
  | _ => cases h

namespace WriterNext

variable {w v : PeerWriter} {m : MessageHeader}

/-- Only an error takes the stream from the writer. -/
theorem stream_mono (hs : s.Unbroken) (h : WriterNext s a t x w v) (hc : w.stream? = some c) :
    v.stream? = some c := by
  cases h with
  | takeFirst => cases hc
  | seek hw | gotStream hw | connect hw => cases hw.symm.trans hc
  | error hb => cases hb.symm.trans (hs _)
  | _ => exact hc

theorem stream_cases (h : WriterNext s a t x w v) (hc : v.stream? = some c) :
    w.stream? = some c ∨ (s.wrUpdater x).object = some c ∨ c = s.opened ∧ Opens s a t x := by
  cases h with
  | takeFirst => cases hc
  | seek _ hv | error _ hv => cases hv.symm.trans hc
  | gotStream _ _ ho => exact .inr (.inl (ho.trans hc))
  | connect _ _ ho => exact .inr (.inr ⟨(Option.some_inj.mp hc).symm, ho⟩)
  | _ => exact .inl hc

theorem ready_cases (h : WriterNext s a t x w v) (hc : v.ready? = some c) :
    w.ready? = some c ∨ (s.wrUpdater x).object = some c ∨ (t.rdUpdater x).object = some c := by
  cases h with
  | takeFirst | connect | identify => cases hc
  | seek _ hv | error _ hv => cases hv.symm.trans (stream_of_ready hc)
  | gotStream _ _ ho => exact .inr (.inl (ho.trans hc))
  | handOver ho => exact .inr (.inr (ho.trans hc))
  | _ => exact .inl hc

theorem inHand_cases (h : WriterNext s a t x w v) (hm : m ∈ v.inHand) :
    m ∈ w.inHand ∨ m ∈ (s.messages x).log := by
  cases h with
  | takeFirst hq | takeNext hq => exact .inr (List.mem_singleton.mp hm ▸ hq)
  | seek _ _ hsub | error _ _ hsub => exact .inl (hsub hm)
  | gotStream _ hw | connect _ hw => exact .inl (List.mem_singleton.mp hm ▸ hw)
  | write => cases hm
  | _ => exact .inl hm

end WriterNext

theorem opened_cases (h : Step groups s a t) :
    t.opened = s.opened ∧ t.opener = s.opener ∨ ∃ x, Opens s a t x := by
  cases h with
  | @connect again x m hw => exact .inr ⟨x, rfl, by simp, by simp, rfl, rfl⟩
  | _ => exact .inl ⟨rfl, rfl⟩

theorem opened_mono (h : Step groups s a t) : s.opened ≤ t.opened := by
  obtain ⟨ho, _⟩ | ⟨x, ho⟩ := opened_cases h
  · exact Nat.le_of_eq ho.symm
  · exact ho.opened ▸ Nat.le_succ _

theorem opener_eq (h : Step groups s a t) (hc : c < s.opened) : t.opener c = s.opener c := by
  obtain ⟨_, ho⟩ | ⟨x, ho⟩ := opened_cases h
  · rw [ho]
  · rw [ho.opener, update_of_ne (Nat.ne_of_lt hc)]

/-- A stream has reached the reader, or waits for it in the updater. -/
def Delivered (s : Peers) (x : Side) : Prop :=
  (s.rdUpdater x).object ≠ none ∨ s.reader x ≠ .waiting

/-- How the listener of `x` moves on. -/
inductive ListenerNext (s t : Peers) (x : Side) : Listener → Listener → Prop
  | accept {d} : d ∈ s.backlog x → ListenerNext s t x .accepting (.parsing d)
  | parse {d} : ListenerNext s t x (.parsing d) (.handRd d)
  | handRd {d} : t.Delivered x → ListenerNext s t x (.handRd d) (.handWr d)
  | handWr {d} : ListenerNext s t x (.handWr d) .accepting
  | error {d} : s.broken d = true → ListenerNext s t x (.parsing d) .accepting

theorem listener_update {l : Listener} (hl : t.listener = update s.listener y l)
    (hn : ListenerNext s t y (s.listener y) l) :
    t.listener x = s.listener x ∨ ListenerNext s t x (s.listener x) (t.listener x) := by
  by_cases hxy : x = y
  · subst hxy
    rw [hl, update_self]
    exact .inr hn
  · rw [hl, update_of_ne hxy]
    exact .inl rfl

theorem listener_cases (h : Step groups s a t) (x : Side) :
    t.listener x = s.listener x ∨ ListenerNext s t x (s.listener x) (t.listener x) := by
  cases h with
  | accept hl hb => exact listener_update rfl (hl ▸ .accept (hb ▸ List.mem_cons_self))
  | parse hl _ => exact listener_update rfl (hl ▸ .parse)
  | parseError hl hb => exact listener_update rfl (hl ▸ .error hb)
  | handRd hl => exact listener_update rfl (hl ▸ .handRd (.inl (by simp)))
  | handWr hl => exact listener_update rfl (hl ▸ .handWr)
  | _ => exact .inl rfl

namespace ListenerNext

variable {l k : Listener}

theorem connection_cases (h : ListenerNext s t x l k) (hc : k.connection? = some c) :
    l.connection? = some c ∨ c ∈ s.backlog x := by
  cases h with
  | accept hb => exact .inr (Option.some_inj.mp hc ▸ hb)
  | handWr | error => cases hc
  | _ => exact .inl hc

/-- The listener hands the read half over, unless the connection breaks. -/
theorem delivers (hs : s.Unbroken) (h : ListenerNext s t x l k)
    (hl : l = .parsing c ∨ l = .handRd c) : k = .handRd c ∨ t.Delivered x := by
  cases h with
  | accept | handWr => simp at hl
  | parse => exact .inl (by simpa using hl)
  | handRd hd => exact .inr hd
  | error hb => cases hb.symm.trans (hs _)

end ListenerNext

theorem backlog_cases (h : Step groups s a t) (hc : c ∈ t.backlog x) :
    c ∈ s.backlog x ∨ c = s.opened ∧ Opens s a t x.other := by
  cases h with
  | @connect again y m _ =>
    by_cases hxy : x = y.other
    · subst hxy
      simp only [connected, update_self, List.mem_append, List.mem_singleton] at hc
      refine hc.imp id fun hc => ⟨hc, by simp, by simp, by simp, rfl, by simp⟩
    · exact .inl (by simpa [hxy] using hc)
  | @accept y d rest _ hb =>
    by_cases hxy : x = y
    · subst hxy
      rw [hb]
      exact .inl (List.mem_cons_of_mem _ (by simpa using hc))
    · exact .inl (by simpa [hxy] using hc)
  | _ => exact .inl hc

theorem backlog_mono (h : Step groups s a t) (hc : c ∈ s.backlog x) :
    c ∈ t.backlog x ∨ t.listener x = .parsing c := by
  cases h with
  | @connect again y m _ =>
    by_cases hxy : x = y.other
    · subst hxy
      exact .inl (by simp [hc])
    · exact .inl (by simpa [hxy] using hc)
  | @accept y d rest _ hb =>
    by_cases hxy : x = y
    · subst hxy
      rw [hb, List.mem_cons] at hc
      obtain rfl | hc := hc
      · exact .inr (by simp)
      · exact .inl (by simpa using hc)
    · exact .inl (by simpa [hxy] using hc)
  | _ => exact .inl hc

/-- Only the listener puts a stream into the updater of the writer. -/
theorem wrUpdater_cases (h : Step groups s a t) (hc : (t.wrUpdater x).object = some c) :
    (s.wrUpdater x).object = some c ∨ s.listener x = .handWr c := by
  cases h with
  | @checkSome y | @checkNone y | @takeStream y =>
    by_cases hxy : x = y
    · -- the writer has emptied it
      subst hxy
      simp at hc
    · exact .inl (by simpa [hxy] using hc)
  | @handWr y d hl =>
    by_cases hxy : x = y
    · subst hxy
      obtain rfl : d = c := by simpa using hc
      exact .inr hl
    · exact .inl (by simpa [hxy] using hc)
  | _ => exact .inl hc

/-- The listener and the writer put streams into the updater of the reader. -/
theorem rdUpdater_cases (h : Step groups s a t) (hc : (t.rdUpdater x).object = some c) :
    (s.rdUpdater x).object = some c ∨ s.listener x = .handRd c ∨
      (s.writer x).stream? = some c := by
  cases h with
  | @handOver y m d hw =>
    by_cases hxy : x = y
    · subst hxy
      obtain rfl : d = c := by simpa using hc
      exact .inr (.inr (by rw [hw]; rfl))
    · exact .inl (by simpa [hxy] using hc)
  | @handRd y d hl =>
    by_cases hxy : x = y
    · subst hxy
      obtain rfl : d = c := by simpa using hc
      exact .inr (.inl hl)
    · exact .inl (by simpa [hxy] using hc)
  | @takeReadHalf y =>
    by_cases hxy : x = y
    · subst hxy
      simp at hc
    · exact .inl (by simpa [hxy] using hc)
  | _ => exact .inl hc

theorem reader_cases (h : Step groups s a t) (hc : t.reader x = .reading c) :
    s.reader x = .reading c ∨
      a = .takeReadHalf x ∧ (s.rdUpdater x).object = some c ∧ t.opener = s.opener ∧
        t.opened = s.opened := by
  cases h with
  | @takeReadHalf y d _ ho =>
    by_cases hxy : x = y
    · subst hxy
      obtain rfl : d = c := by simpa using hc
      exact .inr ⟨rfl, ho, rfl, rfl⟩
    · exact .inl (by simpa [hxy] using hc)
  | @read y d m q hr =>
    by_cases hxy : x = y
    · subst hxy
      by_cases hm : m.group ∈ groups x
      · exact .inl (by simpa [hm, hr] using hc)
      · -- a message of an unknown group ends the reader
        simp [hm] at hc
    · exact .inl (by simpa [hxy] using hc)
  | @readError y =>
    by_cases hxy : x = y
    · subst hxy
      simp at hc
    · exact .inl (by simpa [hxy] using hc)
  | _ => exact .inl hc

/-- A reader that has a stream keeps it until the connection breaks or it panics. -/
theorem delivered_mono (hs : s.Unbroken) (h : Step groups s a t) (hd : s.Delivered x) :
    t.Delivered x := by
  unfold Delivered at *
  cases h with
  | @handOver y | @handRd y =>
    by_cases hxy : x = y
    · subst hxy
      exact .inl (by simp)
    · simpa [hxy] using hd
  | @takeReadHalf y =>
    by_cases hxy : x = y
    · subst hxy
      exact .inr (by simp)
    · simpa [hxy] using hd
  | @read y d m q hr =>
    by_cases hxy : x = y
    · subst hxy
      exact .inr (by by_cases hm : m.group ∈ groups x <;> simp [hm])
    · simpa [hxy] using hd
  | readError _ hb => cases hb.symm.trans (hs _)
  | _ => exact hd

theorem link_cases {m : MessageHeader} (h : Step groups s a t) (hm : m ∈ (t.link c x).log) :
    m ∈ (s.link c x).log ∨ m ∈ (s.writer x).inHand ∧ (s.writer x).stream? = some c := by
  cases h with
  | @write y n d hw =>
    by_cases hcd : c = d
    · subst hcd
      by_cases hxy : x = y
      · subst hxy
        simp only [toWriter, setLink, update_self, Fifo.log_push, List.mem_append] at hm
        exact hm.imp id fun hm => ⟨by rw [hw]; exact hm, by rw [hw]; rfl⟩
      · exact .inl (by simpa [hxy] using hm)
    · exact .inl (by simpa [hcd] using hm)
  | @read y d n q _ hq =>
    by_cases hcd : c = d
    · subst hcd
      by_cases hxy : x = y.other
      · -- reading takes a message and leaves the log
        subst hxy
        rw [← (Fifo.pop?_eq_some hq).1]
        exact .inl (by simpa using hm)
      · exact .inl (by simpa [hxy] using hm)
    · exact .inl (by simpa [hcd] using hm)
  | _ => exact .inl hm

theorem messages_cases {m : MessageHeader} (h : Step groups s a t)
    (hm : m ∈ (t.messages x).log) : m ∈ (s.messages x).log ∨ m.group ∈ groups x := by
  cases h with
  | @enqueue y n hn =>
    by_cases hxy : x = y
    · subst hxy
      simp only [update_self, Fifo.log_push, List.mem_append, List.mem_singleton] at hm
      exact hm.imp id fun hm => by rw [hm]; exact hn
    · exact .inl (by simpa [hxy] using hm)
  | @takeFirst y n q _ hq | @takeNext y _ n q _ hq =>
    by_cases hxy : x = y
    · subst hxy
      rw [← (Fifo.pop?_eq_some hq).1]
      exact .inl (by simpa using hm)
    · exact .inl (by simpa [hxy] using hm)
  | _ => exact .inl hm

end Peers

end SignalSim.Mgen
