import Mathlib.Algebra.Order.Field.Rat
import SignalSim.Foundations.Entry
import SignalSim.Mgen.Messenger.Manage

/-!
# The configuration of a peer

What `process_config` makes of the configuration of a user: a task for each conversation, a reader
and a writer for each recipient, and one listener, with the channels between them. Channels and
updaters are numbered as they are made.

## Main definitions

* `processConfig` — the tasks that are spawned for a user
* `Listed` — a conversation lists a recipient
* `Routes` — what the tables of the tasks say

## Main results

* `processConfig_routes` — they say what the configuration says
* `processConfig_eq_error` — how it fails where the hosts file has all names
* `exists_processConfig_iff` — when it does not
-/

namespace SignalSim.Mgen.Peer

open SignalSim.Result

/-! ### Configurations -/

/-- The parsed hosts file, from names to addresses. -/
abbrev HostsMap := AList fun _ : String => String

structure ConversationConfig (D : Type) where
  group : String
  recipients : List String
  bootstrap : Option ℚ
  retry : Option ℚ
  distributions : Option D

structure Config (D : Type) where
  user : String
  socks : Option String
  listen : Option String
  bootstrap : ℚ
  retry : ℚ
  distributions : D
  conversations : List (ConversationConfig D)

structure SocksParams where
  socks : Option String
  target : String
  user : String
  recipient : String

/-- How `process_config` can fail. -/
inductive ConfigError (E : Type)
  | distributions (e : E)
  | recipientNotInHosts (recipient : String)
  | userNotInHosts (user : String)
  /-- `Duration::from_secs_f64` panics. -/
  | retry (seconds : ℚ)

/-! ### Tasks -/

/-- What the reader and the writer for a recipient will need. -/
structure ForIoThreads where
  stateToWriter : StateToWriter
  /-- The number of the channel that the writer receives from. -/
  writerFromState : ℕ
  readerToStates : AList fun _ : String => ℕ
  strParams : SocksParams
  retry : ℚ

abbrev RecipientMap := AList fun _ : String => ForIoThreads

/-- The arguments of `manage_conversation`. -/
structure ConversationTask (R : Type) where
  conf : ThreadConfig R StreamTable
  bootstrap : ℚ
  /-- The number of the channel that the conversation receives from. -/
  stateFromReader : ℕ

/-- The arguments of a reader and a writer, with the numbers of the two updaters. -/
structure IoThreads where
  recipient : String
  readerUpdater : ℕ
  writerUpdater : ℕ
  readerToStates : AList fun _ : String => ℕ
  writerFromState : ℕ
  strParams : SocksParams
  retry : ℚ

/-- The tasks of a user. -/
structure Spawned (R : Type) where
  conversations : List (ConversationTask R)
  io : List IoThreads
  nameToIoThreads : AList fun _ : String => ℕ × ℕ
  address : String

/-! ### The loops -/

section

variable {D E R : Type} (tryInto : D → Except E (Distributions R)) (hosts : HostsMap)
  (config : Config D)

/-- What the loop over the recipients of a conversation changes. -/
structure RecipientLoop where
  recipientMap : RecipientMap
  /-- How many channels to writers there are. -/
  writerChannels : ℕ
  streams : StreamTable

/-- One recipient of a conversation that receives from a channel. -/
def addRecipient (conversation : ConversationConfig D) (channel : ℕ) (loop : RecipientLoop)
    (recipient : String) : Except (ConfigError E) RecipientLoop :=
  match loop.recipientMap.lookup recipient with
  | some e =>
    -- `and_modify`: a channel that the reader has for the group already is kept
    let forIo := { e with
      readerToStates := Entry.orInsert conversation.group channel e.readerToStates }
    .ok {
      recipientMap := loop.recipientMap.insert recipient forIo
      writerChannels := loop.writerChannels
      streams := loop.streams.insert recipient forIo.stateToWriter }
  | none =>
    match hosts.lookup recipient with
    | none => .error (.recipientNotInHosts recipient)
    | some address =>
      let forIo := {
        stateToWriter := ⟨loop.writerChannels⟩
        writerFromState := loop.writerChannels
        readerToStates := AList.singleton conversation.group channel
        strParams := ⟨config.socks, address, config.user, recipient⟩
        retry := conversation.retry.getD config.retry }
      .ok {
        recipientMap := loop.recipientMap.insert recipient forIo
        writerChannels := loop.writerChannels + 1
        streams := loop.streams.insert recipient forIo.stateToWriter }

/-- What the loop over the conversations changes. -/
structure ConversationLoop (R : Type) where
  recipientMap : RecipientMap
  writerChannels : ℕ
  conversations : List (ConversationTask R)

/-- The distributions of a conversation. -/
def conversationDists (defaultDists : Distributions R) (conversation : ConversationConfig D) :
    Except (ConfigError E) (Distributions R) :=
  match conversation.distributions with
  | some dists => (tryInto dists).mapError .distributions
  | none => .ok defaultDists

/-- One conversation. -/
def addConversation (defaultDists : Distributions R) (loop : ConversationLoop R)
    (conversation : ConversationConfig D) : Except (ConfigError E) (ConversationLoop R) := do
  let channel := loop.conversations.length
  let recipients ← conversation.recipients.foldlM
    (addRecipient hosts config conversation channel) ⟨loop.recipientMap, loop.writerChannels, ∅⟩
  let dists ← conversationDists tryInto defaultDists conversation
  return {
    recipientMap := recipients.recipientMap
    writerChannels := recipients.writerChannels
    conversations := loop.conversations ++ [{
      conf := ⟨true, config.user, conversation.group, dists, recipients.streams⟩
      bootstrap := conversation.bootstrap.getD config.bootstrap
      stateFromReader := channel }] }

/-- `Duration::from_secs_f64`. -/
def durationFromSecs (seconds : ℚ) : Except (ConfigError E) ℚ :=
  if seconds < 0 ∨ 2 ^ 64 ≤ seconds then .error (.retry seconds) else .ok seconds

/-- The loop over the recipients, with `k` updaters of each kind made before. -/
def spawnIo : ℕ → List (Σ _ : String, ForIoThreads) → Except (ConfigError E) (List IoThreads)
  | _, [] => .ok []
  | k, ⟨recipient, forIo⟩ :: rest => do
    let retry ← durationFromSecs forIo.retry
    let io ← spawnIo (k + 1) rest
    return ⟨recipient, k, k, forIo.readerToStates, forIo.writerFromState, forIo.strParams,
      retry⟩ :: io

/-- `name_to_io_threads`. -/
def nameToIoThreads (io : List IoThreads) : AList fun _ : String => ℕ × ℕ :=
  io.foldl (fun m t => m.insert t.recipient (t.readerUpdater, t.writerUpdater)) ∅

/-- The address that the listener binds. -/
def listenAddress : Option String := config.listen.or (hosts.lookup config.user)

/-- `process_config`. -/
def processConfig : Except (ConfigError E) (Spawned R) := do
  let defaultDists ← (tryInto config.distributions).mapError .distributions
  let loop ← config.conversations.foldlM (addConversation tryInto hosts config defaultDists)
    ⟨∅, 0, []⟩
  let io ← spawnIo 0 loop.recipientMap.entries
  let address ← (listenAddress hosts config).elim (.error (.userNotInHosts config.user)) .ok
  return ⟨loop.conversations, io, nameToIoThreads io, address⟩

end

/-! ### What the tables say -/

section

variable {D E R : Type}

/-- A conversation receives from the channel and lists the recipient. -/
def Listed (conversations : List (ConversationConfig D)) (group : String) (channel : ℕ)
    (recipient : String) : Prop :=
  ∃ c, conversations[channel]? = some c ∧ c.group = group ∧ recipient ∈ c.recipients

/-- What the tables of the tasks of a user say. -/
structure Routes (hosts : HostsMap) (config : Config D) (p : Spawned R) : Prop where
  /-- There is one task for each conversation, with its own channel. -/
  length_conversations : p.conversations.length = config.conversations.length
  conversation : ∀ (k : ℕ) (t : ConversationTask R) (c : ConversationConfig D),
    p.conversations[k]? = some t → config.conversations[k]? = some c →
      t.stateFromReader = k ∧ t.conf.p2p = true ∧ t.conf.ourId = config.user ∧
        t.conf.group = c.group
  /-- A conversation has one channel for each of its recipients, to the recipient's writer. -/
  streams : ∀ (k : ℕ) (t : ConversationTask R) (c : ConversationConfig D),
    p.conversations[k]? = some t → config.conversations[k]? = some c → ∀ recipient w,
      t.conf.streams.lookup recipient = some w ↔ recipient ∈ c.recipients ∧
        ∃ io ∈ p.io, io.recipient = recipient ∧ w.channel = io.writerFromState
  /-- There is one reader and one writer for each recipient of any conversation. -/
  recipients : ∀ recipient, recipient ∈ p.io.map (·.recipient) ↔
    ∃ c ∈ config.conversations, recipient ∈ c.recipients
  recipients_nodup : (p.io.map (·.recipient)).Nodup
  writers_nodup : (p.io.map (·.writerFromState)).Nodup
  params : ∀ io ∈ p.io, io.strParams.user = config.user ∧
    hosts.lookup io.recipient = some io.strParams.target
  /-- A reader has the channels of the conversations that list its recipient. -/
  reader : ∀ io ∈ p.io, ∀ group channel,
    io.readerToStates.lookup group = some channel ↔
      Listed config.conversations group channel io.recipient
  updaters : ∀ (n : ℕ) (io : IoThreads), p.io[n]? = some io →
    io.readerUpdater = n ∧ io.writerUpdater = n
  /-- The listener has the updaters of each recipient. -/
  listener : ∀ recipient updaters, p.nameToIoThreads.lookup recipient = some updaters ↔
    ∃ io ∈ p.io, io.recipient = recipient ∧ updaters = (io.readerUpdater, io.writerUpdater)
  address : listenAddress hosts config = some p.address

/-! ### The loops over recipients and conversations -/

variable {tryInto : D → Except E (Distributions R)} {hosts : HostsMap} {config : Config D}
  {cs rest : List (ConversationConfig D)} {c : ConversationConfig D} {g r r' : String} {ch n : ℕ}
  {rs : List String} {m m' : RecipientMap} {loop loop' : RecipientLoop}

/-- The conversation, as far as its recipients have been gone through. -/
def ConversationConfig.upTo (c : ConversationConfig D) (rs : List String) : ConversationConfig D :=
  { c with recipients := rs }

theorem listed_concat :
    Listed (cs ++ [c]) g ch r ↔
      Listed cs g ch r ∨ ch = cs.length ∧ c.group = g ∧ r ∈ c.recipients := by
  unfold Listed
  constructor
  · rintro ⟨d, hd, hg, hr⟩
    rcases Nat.lt_trichotomy ch cs.length with hlt | heq | hgt
    · rw [List.getElem?_append_left hlt] at hd
      exact .inl ⟨d, hd, hg, hr⟩
    · subst heq
      rw [List.getElem?_concat_length] at hd
      obtain rfl := Option.some_inj.mp hd
      exact .inr ⟨rfl, hg, hr⟩
    · rw [List.getElem?_eq_none (by simp; omega)] at hd
      cases hd
  · rintro (⟨d, hd, hg, hr⟩ | ⟨rfl, hg, hr⟩)
    · obtain ⟨hlt, -⟩ := List.getElem?_eq_some_iff.mp hd
      exact ⟨d, by rw [List.getElem?_append_left hlt, hd], hg, hr⟩
    · exact ⟨c, List.getElem?_concat_length, hg, hr⟩

theorem listed_upTo_concat :
    Listed (cs ++ [c.upTo (rs ++ [r])]) g ch r' ↔
      Listed (cs ++ [c.upTo rs]) g ch r' ∨ ch = cs.length ∧ c.group = g ∧ r' = r := by
  rw [listed_concat, listed_concat, or_assoc]
  simp only [ConversationConfig.upTo, List.mem_append, List.mem_singleton, and_or_left]

/-- A group has one channel. -/
theorem Listed.eq_length (hgroups : ((cs ++ [c]).map (·.group)).Nodup)
    (h : Listed (cs ++ [c.upTo rs]) c.group ch r) : ch = cs.length := by
  rcases listed_concat.mp h with ⟨d, hd, hg, -⟩ | ⟨hch, -⟩
  · rw [List.map_append, List.nodup_append] at hgroups
    exact absurd hg (hgroups.2.2 _ (List.mem_map_of_mem (List.mem_of_getElem? hd)) _
      (List.mem_singleton_self _))
  · exact hch

/-- What the map says of the recipients that conversations list, with `n` channels to writers. -/
structure MapLaw (hosts : HostsMap) (config : Config D) (cs : List (ConversationConfig D))
    (m : RecipientMap) (n : ℕ) : Prop where
  listed : ∀ r, (∃ e, m.lookup r = some e) ↔ ∃ g ch, Listed cs g ch r
  reader : ∀ r e, m.lookup r = some e → ∀ g ch,
    e.readerToStates.lookup g = some ch ↔ Listed cs g ch r
  writer : ∀ r e, m.lookup r = some e →
    e.stateToWriter.channel = e.writerFromState ∧ e.writerFromState < n
  params : ∀ r e, m.lookup r = some e →
    e.strParams.user = config.user ∧ hosts.lookup r = some e.strParams.target
  injective : ∀ r r' e e', m.lookup r = some e → m.lookup r' = some e' →
    e.writerFromState = e'.writerFromState → r = r'

/-- Writers keep their channels. -/
def Keeps (m m' : RecipientMap) : Prop :=
  ∀ r e, m.lookup r = some e → ∃ e', m'.lookup r = some e' ∧ e'.stateToWriter = e.stateToWriter

/-- The streams are those to the writers of the recipients. -/
def StreamLaw (m : RecipientMap) (recipients : List String) (streams : StreamTable) : Prop :=
  ∀ r w, streams.lookup r = some w ↔
    r ∈ recipients ∧ ∃ e, m.lookup r = some e ∧ w = e.stateToWriter

theorem Keeps.refl (m : RecipientMap) : Keeps m m := fun _ e he => ⟨e, he, rfl⟩

theorem Keeps.trans {m'' : RecipientMap} (h : Keeps m m') (h' : Keeps m' m'') : Keeps m m'' := by
  intro r e he
  obtain ⟨e', he', heq⟩ := h r e he
  obtain ⟨e'', he'', heq'⟩ := h' r e' he'
  exact ⟨e'', he'', heq'.trans heq⟩

theorem StreamLaw.keeps {streams : StreamTable} (h : StreamLaw m rs streams) (hkeeps : Keeps m m')
    (hknown : ∀ r ∈ rs, ∃ e, m.lookup r = some e) : StreamLaw m' rs streams := by
  intro r w
  rw [h r w, and_congr_right_iff]
  intro hr
  obtain ⟨e, he⟩ := hknown r hr
  obtain ⟨e', he', heq⟩ := hkeeps r e he
  simp only [he, he', Option.some_inj, exists_eq_left', heq]

/-- What is entered for a recipient, with `n` channels to writers then. -/
structure Entered (hosts : HostsMap) (config : Config D) (cs : List (ConversationConfig D))
    (m : RecipientMap) (n : ℕ) (r : String) (e : ForIoThreads) : Prop where
  reader : ∀ g ch, e.readerToStates.lookup g = some ch ↔ Listed cs g ch r
  writer : e.stateToWriter.channel = e.writerFromState ∧ e.writerFromState < n
  params : e.strParams.user = config.user ∧ hosts.lookup r = some e.strParams.target
  own : ∀ r' e', m.lookup r' = some e' → e'.writerFromState = e.writerFromState → r' = r
  keeps : ∀ e', m.lookup r = some e' → e.stateToWriter = e'.stateToWriter

/-- An entry for a recipient that is there already. -/
theorem entered_of_some {e : ForIoThreads} (hgroups : ((cs ++ [c]).map (·.group)).Nodup)
    (hmap : MapLaw hosts config (cs ++ [c.upTo rs]) m n) (he : m.lookup r = some e) :
    Entered hosts config (cs ++ [c.upTo (rs ++ [r])]) m n r
      { e with readerToStates := Entry.orInsert c.group cs.length e.readerToStates } where
  reader g ch := by
    have hold := hmap.reader r e he
    rw [listed_upTo_concat, Entry.lookup_orInsert]
    by_cases hg : g = c.group
    · subst hg
      rw [if_pos rfl, Option.some_inj]
      constructor
      · rintro rfl
        exact .inr ⟨by
          cases hlookup : e.readerToStates.lookup c.group with
          | none => rfl
          | some ch => exact Listed.eq_length hgroups ((hold _ _).mp hlookup), rfl, rfl⟩
      · intro h
        have hch : ch = cs.length := h.elim (Listed.eq_length hgroups) And.left
        cases hlookup : e.readerToStates.lookup c.group with
        | none => exact hch.symm
        | some ch' =>
          exact (Listed.eq_length hgroups ((hold _ _).mp hlookup)).trans hch.symm
    · rw [if_neg hg, hold g ch]
      exact (or_iff_left fun h => hg h.2.1.symm).symm
  writer := hmap.writer r e he
  params := hmap.params r e he
  own r' e' he' heq := hmap.injective r' r e' e he' he heq
  keeps e' he' := by rw [Option.some_inj.mp (he'.symm.trans he)]

/-- An entry for a recipient that is not there yet. -/
theorem entered_of_none {e : ForIoThreads}
    (hmap : MapLaw hosts config (cs ++ [c.upTo rs]) m n) (hnone : m.lookup r = none)
    (hreader : e.readerToStates = AList.singleton c.group cs.length)
    (hwriter : e.stateToWriter = ⟨n⟩ ∧ e.writerFromState = n)
    (hparams : e.strParams.user = config.user ∧ hosts.lookup r = some e.strParams.target) :
    Entered hosts config (cs ++ [c.upTo (rs ++ [r])]) m (n + 1) r e where
  reader g ch := by
    have hnot : ¬ Listed (cs ++ [c.upTo rs]) g ch r := by
      intro hlisted
      obtain ⟨e, he⟩ := (hmap.listed r).mpr ⟨g, ch, hlisted⟩
      rw [hnone] at he
      cases he
    rw [listed_upTo_concat, or_iff_right hnot, hreader, ← AList.insert_empty]
    by_cases hg : g = c.group
    · subst hg
      rw [AList.lookup_insert, Option.some_inj]
      simp [eq_comm]
    · rw [AList.lookup_insert_ne hg]
      simp [Ne.symm hg]
  writer := ⟨by rw [hwriter.1, hwriter.2], by omega⟩
  params := hparams
  own r' e' he' heq := by
    have hlt := (hmap.writer r' e' he').2
    omega
  keeps e' he' := by
    rw [hnone] at he'
    cases he'

/-- With what is entered for a recipient the map says so. -/
theorem MapLaw.insert {e : ForIoThreads} {n' : ℕ}
    (hmap : MapLaw hosts config (cs ++ [c.upTo rs]) m n)
    (he : Entered hosts config (cs ++ [c.upTo (rs ++ [r])]) m n' r e) (hn : n ≤ n') :
    MapLaw hosts config (cs ++ [c.upTo (rs ++ [r])]) (m.insert r e) n' where
  listed r' := by
    by_cases hr : r' = r
    · subst hr
      refine iff_of_true ⟨e, AList.lookup_insert m⟩ ?_
      exact ⟨c.group, cs.length, listed_upTo_concat.mpr (.inr ⟨rfl, rfl, rfl⟩)⟩
    · simp only [AList.lookup_insert_ne hr, listed_upTo_concat, hr, and_false, or_false]
      exact hmap.listed r'
  reader r' e' he' g ch := by
    by_cases hr : r' = r
    · subst hr
      rw [AList.lookup_insert] at he'
      obtain rfl := Option.some_inj.mp he'
      exact he.reader g ch
    · rw [AList.lookup_insert_ne hr] at he'
      rw [listed_upTo_concat, or_iff_left fun h => hr h.2.2]
      exact hmap.reader r' e' he' g ch
  writer r' e' he' := by
    by_cases hr : r' = r
    · subst hr
      rw [AList.lookup_insert] at he'
      obtain rfl := Option.some_inj.mp he'
      exact he.writer
    · rw [AList.lookup_insert_ne hr] at he'
      obtain ⟨hchannel, hlt⟩ := hmap.writer r' e' he'
      exact ⟨hchannel, hlt.trans_le hn⟩
  params r' e' he' := by
    by_cases hr : r' = r
    · subst hr
      rw [AList.lookup_insert] at he'
      obtain rfl := Option.some_inj.mp he'
      exact he.params
    · rw [AList.lookup_insert_ne hr] at he'
      exact hmap.params r' e' he'
  injective r₁ r₂ e₁ e₂ he₁ he₂ heq := by
    by_cases h₁ : r₁ = r
    · by_cases h₂ : r₂ = r
      · exact h₁.trans h₂.symm
      · subst h₁
        rw [AList.lookup_insert] at he₁
        rw [AList.lookup_insert_ne h₂] at he₂
        obtain rfl := Option.some_inj.mp he₁
        exact (he.own r₂ e₂ he₂ heq.symm).symm
    · rw [AList.lookup_insert_ne h₁] at he₁
      by_cases h₂ : r₂ = r
      · subst h₂
        rw [AList.lookup_insert] at he₂
        obtain rfl := Option.some_inj.mp he₂
        exact he.own r₁ e₁ he₁ heq
      · rw [AList.lookup_insert_ne h₂] at he₂
        exact hmap.injective r₁ r₂ e₁ e₂ he₁ he₂ heq

theorem Keeps.insert {e : ForIoThreads} {n' : ℕ} (he : Entered hosts config cs m n' r e) :
    Keeps m (m.insert r e) := by
  intro r' e' he'
  by_cases hr : r' = r
  · subst hr
    exact ⟨e, AList.lookup_insert m, he.keeps e' he'⟩
  · exact ⟨e', by rw [AList.lookup_insert_ne hr, he'], rfl⟩

theorem StreamLaw.insert {e : ForIoThreads} {streams : StreamTable}
    (h : StreamLaw (m.insert r e) rs streams) :
    StreamLaw (m.insert r e) (rs ++ [r]) (streams.insert r e.stateToWriter) := by
  intro r' w
  by_cases hr : r' = r
  · subst hr
    rw [AList.lookup_insert, AList.lookup_insert, Option.some_inj]
    simp [eq_comm]
  · rw [AList.lookup_insert_ne hr, h r' w]
    simp [hr]

/-- One recipient. -/
theorem addRecipient_law (hgroups : ((cs ++ [c]).map (·.group)).Nodup)
    (hmap : MapLaw hosts config (cs ++ [c.upTo rs]) loop.recipientMap loop.writerChannels)
    (hstreams : StreamLaw loop.recipientMap rs loop.streams)
    (h : addRecipient (E := E) hosts config c cs.length loop r = .ok loop') :
    MapLaw hosts config (cs ++ [c.upTo (rs ++ [r])]) loop'.recipientMap loop'.writerChannels ∧
      StreamLaw loop'.recipientMap (rs ++ [r]) loop'.streams ∧
      Keeps loop.recipientMap loop'.recipientMap := by
  have hknown : ∀ r ∈ rs, ∃ e, loop.recipientMap.lookup r = some e := fun r hr =>
    (hmap.listed r).mpr ⟨c.group, cs.length, listed_concat.mpr (.inr ⟨rfl, rfl, hr⟩)⟩
  unfold addRecipient at h
  cases hlookup : loop.recipientMap.lookup r with
  | some e =>
    simp only [hlookup] at h
    cases h
    have he := entered_of_some hgroups hmap hlookup
    exact ⟨hmap.insert he le_rfl, (hstreams.keeps (.insert he) hknown).insert, .insert he⟩
  | none =>
    simp only [hlookup] at h
    cases haddress : hosts.lookup r with
    | none =>
      simp only [haddress] at h
      cases h
    | some address =>
      simp only [haddress] at h
      cases h
      have he := entered_of_none (e := {
        stateToWriter := ⟨loop.writerChannels⟩
        writerFromState := loop.writerChannels
        readerToStates := AList.singleton c.group cs.length
        strParams := ⟨config.socks, address, config.user, r⟩
        retry := c.retry.getD config.retry }) hmap hlookup rfl ⟨rfl, rfl⟩ ⟨rfl, haddress⟩
      exact ⟨hmap.insert he (Nat.le_succ _), (hstreams.keeps (.insert he) hknown).insert,
        .insert he⟩

/-- The loop over the recipients. -/
theorem addRecipients_law {more : List String} (hgroups : ((cs ++ [c]).map (·.group)).Nodup)
    (hmap : MapLaw hosts config (cs ++ [c.upTo rs]) loop.recipientMap loop.writerChannels)
    (hstreams : StreamLaw loop.recipientMap rs loop.streams)
    (h : more.foldlM (addRecipient (E := E) hosts config c cs.length) loop = .ok loop') :
    MapLaw hosts config (cs ++ [c.upTo (rs ++ more)]) loop'.recipientMap loop'.writerChannels ∧
      StreamLaw loop'.recipientMap (rs ++ more) loop'.streams ∧
      Keeps loop.recipientMap loop'.recipientMap := by
  induction more generalizing rs loop with
  | nil =>
    cases h
    rw [List.append_nil]
    exact ⟨hmap, hstreams, .refl _⟩
  | cons r more ih =>
    rw [List.foldlM_cons] at h
    obtain ⟨mid, hmid, h⟩ := bind_eq_ok h
    obtain ⟨hmap', hstreams', hkeeps⟩ := addRecipient_law hgroups hmap hstreams hmid
    obtain ⟨hmap'', hstreams'', hkeeps'⟩ := ih hmap' hstreams' h
    rw [List.append_assoc, List.singleton_append] at hmap'' hstreams''
    exact ⟨hmap'', hstreams'', hkeeps.trans hkeeps'⟩

/-- What the loop over the conversations has done. -/
structure ConversationLaw (hosts : HostsMap) (config : Config D)
    (cs : List (ConversationConfig D)) (loop : ConversationLoop R) : Prop where
  map : MapLaw hosts config cs loop.recipientMap loop.writerChannels
  length_eq : loop.conversations.length = cs.length
  conversation : ∀ (k : ℕ) (t : ConversationTask R) (c : ConversationConfig D),
    loop.conversations[k]? = some t → cs[k]? = some c →
      (t.stateFromReader = k ∧ t.conf.p2p = true ∧ t.conf.ourId = config.user ∧
        t.conf.group = c.group) ∧ StreamLaw loop.recipientMap c.recipients t.conf.streams

theorem MapLaw.upTo_nil (hmap : MapLaw hosts config cs m n) :
    MapLaw hosts config (cs ++ [c.upTo []]) m n := by
  have hlisted (g : String) (ch : ℕ) (r : String) :
      Listed (cs ++ [c.upTo []]) g ch r ↔ Listed cs g ch r := by
    rw [listed_concat]
    exact or_iff_left fun h => List.not_mem_nil h.2.2
  refine ⟨?_, ?_, hmap.writer, hmap.params, hmap.injective⟩
  · simpa only [hlisted] using hmap.listed
  · simpa only [hlisted] using hmap.reader

theorem streamLaw_nil : StreamLaw m [] ∅ := fun r w => by simp

/-- One conversation. -/
theorem addConversation_law {defaultDists : Distributions R} {loop loop' : ConversationLoop R}
    (hgroups : ((cs ++ [c]).map (·.group)).Nodup) (hlaw : ConversationLaw hosts config cs loop)
    (h : addConversation tryInto hosts config defaultDists loop c = .ok loop') :
    ConversationLaw hosts config (cs ++ [c]) loop' := by
  obtain ⟨recipients, hrecipients, h⟩ := bind_eq_ok h
  obtain ⟨dists, -, h⟩ := bind_eq_ok h
  obtain rfl := Except.ok.inj h
  rw [hlaw.length_eq] at hrecipients
  obtain ⟨hmap, hstreams, hkeeps⟩ :=
    addRecipients_law hgroups hlaw.map.upTo_nil streamLaw_nil hrecipients
  refine ⟨hmap, by simp [hlaw.length_eq], ?_⟩
  intro k t d ht hd
  rcases Nat.lt_trichotomy k cs.length with hlt | heq | hgt
  · -- an earlier one keeps its streams
    rw [List.getElem?_append_left (hlaw.length_eq.symm ▸ hlt)] at ht
    rw [List.getElem?_append_left hlt] at hd
    obtain ⟨hconf, hold⟩ := hlaw.conversation k t d ht hd
    refine ⟨hconf, hold.keeps hkeeps fun r hr => ?_⟩
    exact (hlaw.map.listed r).mpr ⟨d.group, k, d, hd, rfl, hr⟩
  · subst heq
    rw [← hlaw.length_eq, List.getElem?_concat_length] at ht
    rw [List.getElem?_concat_length] at hd
    obtain rfl := Option.some_inj.mp ht
    obtain rfl := Option.some_inj.mp hd
    exact ⟨⟨hlaw.length_eq, rfl, rfl, rfl⟩, hstreams⟩
  · rw [List.getElem?_eq_none (by simp; omega)] at hd
    cases hd

/-- The loop over the conversations. -/
theorem addConversations_law {defaultDists : Distributions R} {loop loop' : ConversationLoop R}
    (hgroups : ((cs ++ rest).map (·.group)).Nodup) (hlaw : ConversationLaw hosts config cs loop)
    (h : rest.foldlM (addConversation tryInto hosts config defaultDists) loop = .ok loop') :
    ConversationLaw hosts config (cs ++ rest) loop' := by
  induction rest generalizing cs loop with
  | nil =>
    cases h
    rwa [List.append_nil]
  | cons c rest ih =>
    rw [List.foldlM_cons] at h
    obtain ⟨mid, hmid, h⟩ := bind_eq_ok h
    rw [List.append_cons] at hgroups ⊢
    have hprefix : ((cs ++ [c]).map (·.group)).Nodup := by
      rw [List.map_append] at hgroups
      exact hgroups.of_append_left
    exact ih hgroups (addConversation_law hprefix hlaw hmid) h

/-! ### The readers and writers -/

/-- The reader and the writer for an entry. -/
def ioThreads (k : ℕ) (e : Σ _ : String, ForIoThreads) : IoThreads :=
  ⟨e.1, k, k, e.2.readerToStates, e.2.writerFromState, e.2.strParams, e.2.retry⟩

theorem durationFromSecs_eq_ok {x y : ℚ} (h : durationFromSecs (E := E) x = .ok y) : y = x := by
  unfold durationFromSecs at h
  split at h
  · cases h
  · exact (Except.ok.inj h).symm

theorem spawnIo_eq_ok {k : ℕ} {es : List (Σ _ : String, ForIoThreads)} {io : List IoThreads}
    (h : spawnIo (E := E) k es = .ok io) : io = es.mapIdx fun n e => ioThreads (k + n) e := by
  induction es generalizing k io with
  | nil => exact (Except.ok.inj h).symm
  | cons e es ih =>
    rw [spawnIo] at h
    obtain ⟨retry, hretry, h⟩ := bind_eq_ok h
    obtain ⟨rest, hrest, h⟩ := bind_eq_ok h
    obtain rfl := Except.ok.inj h
    obtain rfl := durationFromSecs_eq_ok hretry
    rw [List.mapIdx_cons, ih hrest]
    congr 2
    funext n e
    rw [Nat.add_assoc, Nat.add_comm 1 n]

section

variable {io : List IoThreads} (hio : io = m.entries.mapIdx fun n e => ioThreads (0 + n) e)

include hio

theorem map_io {α : Type} {f : IoThreads → α} {g : (Σ _ : String, ForIoThreads) → α}
    (h : ∀ k e, f (ioThreads k e) = g e) : io.map f = m.entries.map g := by
  apply List.ext_getElem?
  intro n
  simp only [hio, List.getElem?_map, List.getElem?_mapIdx, Option.map_map]
  congr 1
  funext e
  exact h _ e

theorem exists_lookup_of_mem_io {t : IoThreads} (ht : t ∈ io) :
    ∃ k e, m.lookup t.recipient = some e ∧ t = ioThreads k ⟨t.recipient, e⟩ := by
  obtain ⟨n, hn⟩ := List.mem_iff_getElem?.mp ht
  rw [hio, List.getElem?_mapIdx, Option.map_eq_some_iff] at hn
  obtain ⟨e, he, rfl⟩ := hn
  exact ⟨_, e.2, AList.mem_lookup_iff.mpr (List.mem_of_getElem? he), rfl⟩

theorem exists_mem_io_of_lookup {e : ForIoThreads} (he : m.lookup r = some e) :
    ∃ k, ioThreads k ⟨r, e⟩ ∈ io := by
  obtain ⟨n, hn⟩ := List.mem_iff_getElem?.mp (AList.mem_lookup_iff.mp he)
  refine ⟨0 + n, List.mem_iff_getElem?.mpr ⟨n, ?_⟩⟩
  rw [hio, List.getElem?_mapIdx, hn]
  rfl

theorem recipients_nodup_io : (io.map (·.recipient)).Nodup := by
  rw [map_io hio (g := Sigma.fst) fun _ _ => rfl]
  exact m.nodupKeys

theorem writers_nodup_io (hmap : MapLaw hosts config cs m n) :
    (io.map (·.writerFromState)).Nodup := by
  rw [map_io hio (g := fun e => e.2.writerFromState) fun _ _ => rfl]
  refine List.Nodup.map_on ?_ (List.Nodup.of_map Sigma.fst m.nodupKeys)
  rintro ⟨r, e⟩ he ⟨r', e'⟩ he' heq
  have hlookup := AList.mem_lookup_iff.mpr he
  have hlookup' := AList.mem_lookup_iff.mpr he'
  obtain rfl := hmap.injective r r' e e' hlookup hlookup' heq
  rw [Option.some_inj.mp (hlookup.symm.trans hlookup')]

theorem exists_writer_iff (hmap : MapLaw hosts config cs m n) {w : StateToWriter} :
    (∃ e, m.lookup r = some e ∧ w = e.stateToWriter) ↔
      ∃ t ∈ io, t.recipient = r ∧ w.channel = t.writerFromState := by
  constructor
  · rintro ⟨e, he, rfl⟩
    obtain ⟨j, hj⟩ := exists_mem_io_of_lookup hio he
    exact ⟨_, hj, rfl, (hmap.writer _ e he).1⟩
  · rintro ⟨t, ht, rfl, hw⟩
    obtain ⟨j, e, he, heq⟩ := exists_lookup_of_mem_io hio ht
    refine ⟨e, he, ?_⟩
    rw [heq] at hw
    have hchannel := hw.trans (hmap.writer _ e he).1.symm
    cases w
    cases hwriter : e.stateToWriter
    rw [hwriter] at hchannel
    exact congrArg StateToWriter.mk hchannel

theorem mem_recipients_io (hmap : MapLaw hosts config cs m n) :
    r ∈ io.map (·.recipient) ↔ ∃ c ∈ cs, r ∈ c.recipients := by
  rw [map_io hio (g := Sigma.fst) fun _ _ => rfl]
  constructor
  · intro hmem
    obtain ⟨⟨r, e⟩, he, rfl⟩ := List.mem_map.mp hmem
    obtain ⟨g, ch, c, hc, -, hr⟩ := (hmap.listed r).mp ⟨e, AList.mem_lookup_iff.mpr he⟩
    exact ⟨c, List.mem_of_getElem? hc, hr⟩
  · rintro ⟨c, hc, hr⟩
    obtain ⟨k, hk⟩ := List.mem_iff_getElem?.mp hc
    obtain ⟨e, he⟩ := (hmap.listed r).mpr ⟨c.group, k, c, hk, rfl, hr⟩
    exact List.mem_map.mpr ⟨⟨r, e⟩, AList.mem_lookup_iff.mp he, rfl⟩

theorem params_io (hmap : MapLaw hosts config cs m n) {t : IoThreads} (ht : t ∈ io) :
    t.strParams.user = config.user ∧ hosts.lookup t.recipient = some t.strParams.target := by
  obtain ⟨j, e, he, heq⟩ := exists_lookup_of_mem_io hio ht
  have hparams := hmap.params _ e he
  rw [heq]
  exact hparams

theorem reader_io (hmap : MapLaw hosts config cs m n) {t : IoThreads} (ht : t ∈ io) :
    t.readerToStates.lookup g = some ch ↔ Listed cs g ch t.recipient := by
  obtain ⟨j, e, he, heq⟩ := exists_lookup_of_mem_io hio ht
  have hreader := hmap.reader _ e he g ch
  rw [heq]
  exact hreader

theorem updaters_io {t : IoThreads} {k : ℕ} (ht : io[k]? = some t) :
    t.readerUpdater = k ∧ t.writerUpdater = k := by
  rw [hio, List.getElem?_mapIdx, Option.map_eq_some_iff] at ht
  obtain ⟨e, -, rfl⟩ := ht
  exact ⟨Nat.zero_add k, Nat.zero_add k⟩

end

/-- The listener's table has the updaters of each recipient. -/
theorem lookup_nameToIoThreads {io : List IoThreads} (hnodup : (io.map (·.recipient)).Nodup)
    {updaters : ℕ × ℕ} : (nameToIoThreads io).lookup r = some updaters ↔
      ∃ t ∈ io, t.recipient = r ∧ updaters = (t.readerUpdater, t.writerUpdater) := by
  rw [nameToIoThreads, Entry.lookup_foldl_insert, AList.lookup_empty, Option.or_none,
    Option.map_eq_some_iff]
  constructor
  · rintro ⟨t, ht, rfl⟩
    obtain ⟨hmem, hr⟩ := List.mem_filter.mp (List.mem_of_getLast? ht)
    exact ⟨t, hmem, of_decide_eq_true hr, rfl⟩
  · rintro ⟨t, ht, rfl, rfl⟩
    -- the last one with the recipient is the only one
    have hmem : t ∈ io.filter fun x => x.recipient = t.recipient :=
      List.mem_filter.mpr ⟨ht, decide_eq_true rfl⟩
    have hlast := List.getLast?_eq_some_getLast (List.ne_nil_of_mem hmem)
    obtain ⟨hmem', hr⟩ := List.mem_filter.mp (List.mem_of_getLast? hlast)
    have heq := List.inj_on_of_nodup_map hnodup hmem' ht (of_decide_eq_true hr)
    exact ⟨t, hlast.trans (congrArg some heq), rfl⟩

theorem mapLaw_nil : MapLaw hosts config ([] : List (ConversationConfig D)) ∅ 0 := by
  refine ⟨fun r => ?_, ?_, ?_, ?_, ?_⟩
  · simp [Listed]
  all_goals
    intro r
    simp

theorem conversationLaw_nil :
    ConversationLaw hosts config [] (⟨∅, 0, []⟩ : ConversationLoop R) where
  map := mapLaw_nil
  length_eq := rfl
  conversation k t c ht := by cases ht

/-- **The tables.** If its conversations have groups of their own, what is spawned for a user has
the tables that the configuration says. -/
theorem processConfig_routes {p : Spawned R}
    (hgroups : (config.conversations.map (·.group)).Nodup)
    (h : processConfig tryInto hosts config = .ok p) : Routes hosts config p := by
  obtain ⟨defaultDists, -, h⟩ := bind_eq_ok h
  obtain ⟨loop, hloop, h⟩ := bind_eq_ok h
  obtain ⟨io, hio, h⟩ := bind_eq_ok h
  obtain ⟨address, haddress, h⟩ := bind_eq_ok h
  obtain rfl := Except.ok.inj h
  have hlaw : ConversationLaw hosts config ([] ++ config.conversations) loop :=
    addConversations_law hgroups conversationLaw_nil hloop
  rw [List.nil_append] at hlaw
  have hmap := hlaw.map
  have hio := spawnIo_eq_ok hio
  have hnodup := recipients_nodup_io hio
  exact {
    length_conversations := hlaw.length_eq
    conversation := fun k t c ht hc => (hlaw.conversation k t c ht hc).1
    streams := by
      intro k t c ht hc recipient w
      rw [(hlaw.conversation k t c ht hc).2 recipient w, exists_writer_iff hio hmap]
    recipients := fun recipient => mem_recipients_io hio hmap
    recipients_nodup := hnodup
    writers_nodup := writers_nodup_io hio hmap
    params := fun t ht => params_io hio hmap ht
    reader := fun t ht group channel => reader_io hio hmap ht
    updaters := fun k t ht => updaters_io hio ht
    listener := fun recipient updaters => lookup_nameToIoThreads hnodup
    address := by
      change listenAddress hosts config = some address
      cases hlisten : listenAddress hosts config with
      | none =>
        rw [hlisten] at haddress
        cases haddress
      | some a =>
        rw [hlisten] at haddress
        rw [Except.ok.inj haddress] }

/-! ### How it fails -/

section

variable {e : ConfigError E}

theorem addRecipient_eq_error (h : addRecipient hosts config c ch loop r = .error e) :
    hosts.lookup r = none ∧ e = .recipientNotInHosts r := by
  unfold addRecipient at h
  split at h
  · cases h
  · split at h
    · rename_i hnone
      exact ⟨hnone, (Except.error.inj h).symm⟩
    · cases h

theorem spawnIo_eq_error {k : ℕ} {es : List (Σ _ : String, ForIoThreads)}
    (h : spawnIo k es = .error e) : ∃ x, e = .retry x := by
  induction es generalizing k with
  | nil => cases h
  | cons entry es ih =>
    rcases bind_eq_error h with h | ⟨retry, -, h⟩
    · unfold durationFromSecs at h
      split at h
      · exact ⟨_, (Except.error.inj h).symm⟩
      · cases h
    · rcases bind_eq_error h with h | ⟨io, -, h⟩
      · exact ih h
      · cases h

/-- **Only distributions and retries can be wrong** where the hosts file has all names. -/
theorem processConfig_eq_error (huser : (hosts.lookup config.user).isSome)
    (hrecipients : ∀ c ∈ config.conversations, ∀ r ∈ c.recipients, (hosts.lookup r).isSome)
    (h : processConfig tryInto hosts config = .error e) :
    (∃ e', e = .distributions e') ∨ ∃ x, e = .retry x := by
  rcases bind_eq_error h with h | ⟨defaultDists, -, h⟩
  · obtain ⟨e', -, rfl⟩ := mapError_eq_error.mp h
    exact .inl ⟨e', rfl⟩
  rcases bind_eq_error h with h | ⟨loop, -, h⟩
  · obtain ⟨c, hc, loop', h⟩ := foldlM_eq_error h
    rcases bind_eq_error h with h | ⟨recipients, -, h⟩
    · obtain ⟨r, hr, loop'', h⟩ := foldlM_eq_error h
      have hnone := (addRecipient_eq_error h).1
      have hsome := hrecipients c hc r hr
      rw [hnone] at hsome
      cases hsome
    · rcases bind_eq_error h with h | ⟨dists, -, h⟩
      · unfold conversationDists at h
        split at h
        · obtain ⟨e', -, rfl⟩ := mapError_eq_error.mp h
          exact .inl ⟨e', rfl⟩
        · cases h
      · cases h
  rcases bind_eq_error h with h | ⟨io, -, h⟩
  · exact .inr (spawnIo_eq_error h)
  obtain ⟨address, haddress⟩ := Option.isSome_iff_exists.mp huser
  rcases bind_eq_error h with h | ⟨address', -, h⟩
  · rw [listenAddress, haddress] at h
    cases hlisten : config.listen with
    | none =>
      rw [hlisten] at h
      cases h
    | some listening =>
      rw [hlisten] at h
      cases h
  · cases h

end

/-! ### When it does not fail -/

/-- All readers and writers wait for a duration before they retry. -/
def DurationRetries (m : RecipientMap) : Prop :=
  ∀ r e, m.lookup r = some e → 0 ≤ e.retry ∧ e.retry < 2 ^ 64

theorem DurationRetries.addRecipient
    (hc : 0 ≤ c.retry.getD config.retry ∧ c.retry.getD config.retry < 2 ^ 64)
    (hm : DurationRetries loop.recipientMap)
    (h : Peer.addRecipient (E := E) hosts config c ch loop r = .ok loop') :
    DurationRetries loop'.recipientMap := by
  have hinsert {e : ForIoThreads} (he : 0 ≤ e.retry ∧ e.retry < 2 ^ 64) :
      DurationRetries (loop.recipientMap.insert r e) := by
    intro r' e' he'
    by_cases hr : r' = r
    · subst hr
      rw [AList.lookup_insert] at he'
      exact Option.some_inj.mp he' ▸ he
    · rw [AList.lookup_insert_ne hr] at he'
      exact hm r' e' he'
  unfold Peer.addRecipient at h
  split at h
  · rename_i e he
    obtain rfl := Except.ok.inj h
    exact hinsert (hm r e he)
  · split at h
    · cases h
    · obtain rfl := Except.ok.inj h
      exact hinsert hc

theorem DurationRetries.addConversation {defaultDists : Distributions R}
    {loop loop' : ConversationLoop R}
    (hc : 0 ≤ c.retry.getD config.retry ∧ c.retry.getD config.retry < 2 ^ 64)
    (hm : DurationRetries loop.recipientMap)
    (h : Peer.addConversation tryInto hosts config defaultDists loop c = .ok loop') :
    DurationRetries loop'.recipientMap := by
  obtain ⟨recipients, hrecipients, h⟩ := bind_eq_ok h
  obtain ⟨dists, -, h⟩ := bind_eq_ok h
  obtain rfl := Except.ok.inj h
  have hkeep : ∀ r ∈ c.recipients, ∀ l l' : RecipientLoop,
      Peer.addRecipient (E := E) hosts config c loop.conversations.length l r = .ok l' →
        DurationRetries l.recipientMap → DurationRetries l'.recipientMap :=
    fun r _ l l' hl hm => hm.addRecipient hc hl
  exact foldlM_invariant (fun l => DurationRetries l.recipientMap) hkeep hm hrecipients

theorem exists_spawnIo {k : ℕ} {es : List (Σ _ : String, ForIoThreads)}
    (h : ∀ e ∈ es, 0 ≤ e.2.retry ∧ e.2.retry < 2 ^ 64) :
    ∃ io, spawnIo (E := E) k es = .ok io := by
  induction es generalizing k with
  | nil => exact ⟨[], rfl⟩
  | cons e es ih =>
    obtain ⟨hlow, hhigh⟩ := h e List.mem_cons_self
    obtain ⟨io, hio⟩ := ih (k := k + 1) fun e he => h e (List.mem_cons_of_mem _ he)
    have hduration : durationFromSecs (E := E) e.2.retry = .ok e.2.retry := by
      rw [durationFromSecs, if_neg]
      rintro (hneg | hlarge)
      · exact absurd hneg (not_lt_of_ge hlow)
      · exact absurd hhigh (not_lt_of_ge hlarge)
    exact ⟨_, by rw [spawnIo, hduration, Result.ok_bind, hio]; rfl⟩

/-- **Only the user's distributions matter** where the hosts file has all names, the retries are
durations and no conversation has distributions of its own. -/
theorem exists_processConfig_iff (huser : (hosts.lookup config.user).isSome)
    (hrecipients : ∀ c ∈ config.conversations, ∀ r ∈ c.recipients, (hosts.lookup r).isSome)
    (hretry : ∀ c ∈ config.conversations,
      0 ≤ c.retry.getD config.retry ∧ c.retry.getD config.retry < 2 ^ 64)
    (hdists : ∀ c ∈ config.conversations, c.distributions = none) :
    (∃ p, processConfig tryInto hosts config = .ok p) ↔
      ∃ dists, tryInto config.distributions = .ok dists := by
  constructor
  · rintro ⟨p, hp⟩
    obtain ⟨dists, hdists, -⟩ := bind_eq_ok hp
    exact ⟨dists, mapError_eq_ok.mp hdists⟩
  · rintro ⟨dists, htry⟩
    cases hloop : config.conversations.foldlM
      (addConversation (E := E) tryInto hosts config dists) ⟨∅, 0, []⟩ with
    | error e =>
      obtain ⟨c, hc, loop', h⟩ := foldlM_eq_error hloop
      rcases bind_eq_error h with h | ⟨recipients, -, h⟩
      · obtain ⟨r, hr, loop'', h⟩ := foldlM_eq_error h
        have hsome := hrecipients c hc r hr
        rw [(addRecipient_eq_error h).1] at hsome
        cases hsome
      · rw [conversationDists, hdists c hc] at h
        cases h
    | ok loop =>
      have hkeep : ∀ c ∈ config.conversations, ∀ l l' : ConversationLoop R,
          addConversation (E := E) tryInto hosts config dists l c = .ok l' →
            DurationRetries l.recipientMap → DurationRetries l'.recipientMap :=
        fun c hc l l' hl hm => hm.addConversation (hretry c hc) hl
      have hstart : DurationRetries (∅ : RecipientMap) := fun r e he => by
        rw [AList.lookup_empty] at he
        cases he
      have hmap := foldlM_invariant (fun l => DurationRetries l.recipientMap) hkeep hstart hloop
      obtain ⟨io, hio⟩ := exists_spawnIo (E := E) (k := 0) fun e he =>
        hmap e.1 e.2 (AList.mem_lookup_iff.mpr he)
      obtain ⟨address, haddress⟩ : ∃ address, listenAddress hosts config = some address := by
        obtain ⟨own, hown⟩ := Option.isSome_iff_exists.mp huser
        rw [listenAddress, hown]
        cases config.listen with
        | none => exact ⟨own, rfl⟩
        | some listening => exact ⟨listening, rfl⟩
      refine ⟨⟨loop.conversations, io, nameToIoThreads io, address⟩, ?_⟩
      rw [processConfig, mapError_eq_ok.mpr htry, Result.ok_bind, hloop, Result.ok_bind, hio,
        Result.ok_bind, haddress]
      rfl

end

end SignalSim.Mgen.Peer
