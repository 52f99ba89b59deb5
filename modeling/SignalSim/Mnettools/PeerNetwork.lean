import Mathlib.Tactic.NormNum
import SignalSim.Mgen.Peer.Routing
import SignalSim.Mnettools.TorProcesses

/-!
# The network of the peers

`mnettortools.py` lists all members of a group as recipients in the configuration of each of them,
so every peer is a recipient of its own messages. The peers of a generated network find each other
all the same: no lookup fails, and what a writer connects to is the listener of its recipient.

## Main definitions

* `savePeerConfig` — the configuration of a user
* `torForwards` — where the hidden services lead

## Main results

* `mutual_peerConfig` — the configurations that are generated fit together
* `peers_connect` — who is spawned, who connects to whom, and that routing is closed
-/

namespace SignalSim.Mnettools

open SignalSim.Mgen SignalSim.Mgen.Peer

/-! ### The configurations -/

/-- A loopback address, which is another one at every client. -/
def localAddress (client : ℕ) (port : ℤ) : String :=
  String.ofList (Text.ofNat client ++ '/' :: ("127.0.0.1:".toList ++ Text.ofInt port))

section Save

variable {D : Type} (dists : ℕ → D) (w : World ℚ)

/-- The configuration of a user with the lists in `w`. -/
def savePeerConfig (u : TorUser) : Config D where
  user := userName u.id
  socks := some (localAddress u.client (socksPort u.torProcess))
  listen := some (localAddress u.client u.onionPort)
  bootstrap := 5
  retry := 5
  distributions := dists u.id
  conversations := saveConversations (w.lists u.id)

/-- The configurations of all users. -/
def peerConfig (us : List TorUser) (i : {u // u ∈ us}) : Config D := savePeerConfig dists w i.1

end Save

/-- The table that the peers read, with the lines in the order in which users were saved. -/
def peerHosts (onion : ℕ → Text) (dirs saved : List TorUser) : HostsMap :=
  parseHostsFile (genOnions onion dirs (hostsFile saved))

/-- The address of a user's hidden service. -/
def onionAddress (onion : ℕ → Text) (u : TorUser) : String :=
  String.ofList (onion u.id ++ ':' :: Text.ofInt u.onionPort)

/-- Where the hidden services lead: each to its port at the client that it is set up on. -/
def torForwards (onion : ℕ → Text) (us : List TorUser) (target listening : String) : Bool :=
  us.any fun u => target = onionAddress onion u ∧ listening = localAddress u.client u.onionPort

/-! ### They fit together -/

theorem localAddress_eq {c c' : ℕ} {p p' : ℤ} (h : localAddress c p = localAddress c' p') :
    c = c' ∧ p = p' := by
  have hslash : '/' ∉ "127.0.0.1:".toList ++ Text.ofInt p := by
    rw [List.mem_append, not_or]
    exact ⟨by decide, Text.not_mem_ofInt rfl (by decide)⟩
  have hdigits : '/' ∉ Text.ofNat c := not_mem_ofNat rfl
  obtain ⟨hc, -, hp⟩ := (List.append_cons_inj_of_notMem hdigits hslash).mp
    (String.ofList_injective h)
  exact ⟨Text.ofNat_injective hc, Text.ofInt_injective (List.append_cancel_left hp)⟩

section Fit

variable {onion : ℕ → Text} {us : List TorUser} {u v : TorUser}

theorem onionAddress_eq (hu : OnionAddress (onion u.id))
    (h : onionAddress onion u = onionAddress onion v) : onion u.id = onion v.id := by
  have hcolon : ':' ∉ Text.ofInt u.onionPort := Text.not_mem_ofInt rfl (by decide)
  exact ((List.append_cons_inj_of_notMem hu.no_colon hcolon).mp (String.ofList_injective h)).1

theorem torForwards_iff {target listening : String} : torForwards onion us target listening = true ↔
    ∃ u ∈ us, target = onionAddress onion u ∧ listening = localAddress u.client u.onionPort := by
  simp [torForwards]

variable {torProcesses paths : ℕ} {clients : List ℕ} {D : Type} {dists : ℕ → D} {w : World ℚ}
  {sampler : Sampler} {samples : List (UserSample ℚ)} {hour : ℚ} {hosts : HostsMap}

/-- The conversations of a user are those of the groups the user is in that are not dropped. -/
theorem exists_of_mem_conversations (hmain : main hour sampler samples = some w)
    {c : ConversationConfig D} (hc : c ∈ (savePeerConfig dists w u).conversations) :
    ∃ created ∈ w.created, (¬ ∀ wait ∈ created.group.conversation.waits, hour ≤ wait) ∧
      u.id ∈ created.group.conversation.users ∧ c.group = created.group.name ∧
        c.recipients = created.group.recipients := by
  obtain ⟨hw, -⟩ := main_consistent hmain
  obtain ⟨⟨group, wait⟩, hentry, rfl⟩ := List.mem_map.mp hc
  obtain ⟨created, hcreated, hgroup, hmem, hbusy⟩ := hw.exists_busy_of_mem hentry
  obtain rfl : group = created.group := hgroup
  exact ⟨created, hcreated, hbusy, hmem, rfl, rfl⟩

theorem exists_mem_conversations (hmain : main hour sampler samples = some w)
    {created : Created ℚ} (hcreated : created ∈ w.created)
    (hbusy : ¬ ∀ wait ∈ created.group.conversation.waits, hour ≤ wait)
    (hmem : u.id ∈ created.group.conversation.users) :
    ∃ c ∈ (savePeerConfig dists w u).conversations, c.group = created.group.name ∧
      c.recipients = created.group.recipients := by
  obtain ⟨hw, -⟩ := main_consistent hmain
  obtain ⟨wait, hentries⟩ := exists_entries_eq (hw.padded created hcreated) List.nodup_range
    hbusy hmem
  refine ⟨saveConversation (created.group, wait), List.mem_map_of_mem ?_, rfl, rfl⟩
  rw [hw.lists_eq]
  refine List.mem_flatMap.mpr ⟨created, hcreated, ?_⟩
  rw [hentries]
  exact List.mem_singleton_self _

/-- A hidden service leads to its user. -/
theorem torForwards_onionAddress_iff (h : sampleUsers torProcesses paths clients = some us)
    (honion : ∀ u ∈ us, OnionAddress (onion u.id)) (hnodup : (us.map fun u => onion u.id).Nodup)
    (hu : u ∈ us) (hv : v ∈ us) :
    torForwards onion us (onionAddress onion u) (localAddress v.client v.onionPort) = true ↔
      v = u := by
  rw [torForwards_iff]
  constructor
  · rintro ⟨x, hx, htarget, hlocal⟩
    obtain rfl := List.inj_on_of_nodup_map hnodup hu hx (onionAddress_eq (honion u hu) htarget)
    obtain ⟨hclient, hport⟩ := localAddress_eq hlocal
    exact eq_of_onionPort_eq h hv hu hclient hport
  · rintro rfl
    exact ⟨v, hv, rfl, rfl⟩

/-- **The configurations that are generated fit together.** -/
theorem mutual_peerConfig (hmain : main hour sampler samples = some w)
    (h : sampleUsers torProcesses paths clients = some us) (hlen : clients.length = samples.length)
    (honion : ∀ u ∈ us, OnionAddress (onion u.id)) (hnodup : (us.map fun u => onion u.id).Nodup)
    (hhosts : ∀ u ∈ us, hosts.lookup (userName u.id) = some (onionAddress onion u)) :
    Mutual (torForwards onion us) hosts (peerConfig dists w us) where
  user_injective := by
    rintro ⟨u, hu⟩ ⟨v, hv⟩ heq
    have hids : (us.map (·.id)).Nodup := by
      rw [ids_eq_range h]
      exact List.nodup_range
    exact Subtype.ext (List.inj_on_of_nodup_map hids hu hv (userName_injective heq))
  own_address := by
    rintro ⟨u, hu⟩
    refine ⟨onionAddress onion u, hhosts u hu, ?_⟩
    rintro ⟨v, hv⟩ listening hlistening hforwards
    obtain rfl := Option.some_inj.mp hlistening
    exact Subtype.ext ((torForwards_onionAddress_iff h honion hnodup hu hv).mp hforwards)
  listed := by
    rintro ⟨u, hu⟩ c hc r hr
    obtain ⟨created, hcreated, hbusy, hmem, hgroup, hrecipients⟩ :=
      exists_of_mem_conversations hmain hc
    rw [hrecipients] at hr
    obtain ⟨id, hid, rfl⟩ := List.mem_map.mp hr
    -- the member is a user, who has an entry for the group as well
    have hid' := mem_range_of_mem_users hmain hcreated hid
    rw [← hlen, ← ids_eq_range h] at hid'
    obtain ⟨v, hv, rfl⟩ := List.mem_map.mp hid'
    have hother : ∃ d ∈ (savePeerConfig dists w v).conversations,
        d.group = created.group.name ∧ d.recipients = created.group.recipients :=
      exists_mem_conversations hmain hcreated hbusy hid
    obtain ⟨d, hd, hdgroup, hdrecipients⟩ := hother
    refine ⟨⟨v, hv⟩, rfl, d, hd, hdgroup.trans hgroup.symm, ?_⟩
    rw [hdrecipients]
    exact List.mem_map_of_mem hmem

end Fit

/-! ### The network -/

section Network

variable {onion : ℕ → Text} {us dirs saved : List TorUser} {torProcesses paths : ℕ}
  {clients : List ℕ} {D E R : Type} {dists : ℕ → D} {w : World ℚ} {sampler : Sampler}
  {samples : List (UserSample ℚ)} {hour : ℚ} {tryInto : D → Except E (Mgen.Distributions R)}

/-- Every user is found under the name at the address of the hidden service. -/
theorem lookup_peerHosts (h : sampleUsers torProcesses paths clients = some us)
    (hsaved : saved.Perm us) (honion : ∀ u ∈ us, OnionAddress (onion u.id))
    (hdirs : ∀ u ∈ us, u.id ∈ dirs.map (·.id)) {u : TorUser} (hu : u ∈ us) :
    (peerHosts onion dirs saved).lookup (userName u.id) = some (onionAddress onion u) := by
  have hids : (saved.map (·.id)).Nodup := by
    rw [(hsaved.map _).nodup_iff, ids_eq_range h]
    exact List.nodup_range
  have honion' : ∀ u ∈ saved, OnionAddress (onion u.id) :=
    fun u hu => honion u (hsaved.mem_iff.mp hu)
  rw [peerHosts, genOnions_hostsFile honion' fun u hu => hdirs u (hsaved.mem_iff.mp hu)]
  exact (lookup_parseHostsFile hids (fun u hu => (honion' u hu).word) _ _).mpr
    ⟨u, hsaved.mem_iff.mpr hu, rfl, rfl⟩

/-- Two users share a group that is not dropped. -/
def Share (hour : ℚ) (w : World ℚ) (u v : TorUser) : Prop :=
  ∃ c ∈ w.created, (¬ ∀ wait ∈ c.group.conversation.waits, hour ≤ wait) ∧
    u.id ∈ c.group.conversation.users ∧ v.id ∈ c.group.conversation.users

theorem exists_recipient_iff (hmain : main hour sampler samples = some w) {u v : TorUser} :
    (∃ c ∈ (savePeerConfig dists w u).conversations, userName v.id ∈ c.recipients) ↔
      Share hour w u v := by
  constructor
  · rintro ⟨c, hc, hv⟩
    obtain ⟨created, hcreated, hbusy, hu, -, hrecipients⟩ := exists_of_mem_conversations hmain hc
    rw [hrecipients] at hv
    obtain ⟨id, hid, hname⟩ := List.mem_map.mp hv
    exact ⟨created, hcreated, hbusy, hu, userName_injective hname ▸ hid⟩
  · rintro ⟨created, hcreated, hbusy, hu, hv⟩
    obtain ⟨c, hc, -, hrecipients⟩ := exists_mem_conversations hmain hcreated hbusy hu
    exact ⟨c, hc, hrecipients ▸ List.mem_map_of_mem hv⟩

/-- The configuration of a user has each group once. -/
theorem groups_nodup_savePeerConfig (hmain : main hour sampler samples = some w) (u : TorUser) :
    ((savePeerConfig dists w u).conversations.map (·.group)).Nodup := by
  obtain ⟨hw, -⟩ := main_consistent hmain
  have hnumbers := hw.nodup_numbers u.id List.nodup_range
  rw [savePeerConfig, saveConversations, List.map_map]
  refine List.Nodup.map_on ?_ (List.Nodup.of_map _ hnumbers)
  intro entry hentry entry' hentry' hname
  exact List.inj_on_of_nodup_map hnumbers hentry hentry' (groupName_injective hname)

/-- The tables of a user who is spawned. -/
theorem routes_of_spawned (hmain : main hour sampler samples = some w) {hosts : HostsMap}
    {i : {u // u ∈ us}} {p : Spawned R}
    (hp : spawned tryInto hosts (peerConfig dists w us) i = some p) :
    Routes hosts (peerConfig dists w us i) p := by
  rw [spawned, Result.toOption_eq_some] at hp
  exact processConfig_routes (groups_nodup_savePeerConfig hmain i.1) hp

/-- **The network.** A user is spawned exactly if the distributions load. It has readers and writers
for the users it shares a group with, itself included, and each writer connects to the listener of
its recipient and no other. In every run the lookups succeed and messages stay in their group. -/
theorem peers_connect (hmain : main hour sampler samples = some w)
    (h : sampleUsers torProcesses paths clients = some us) (hlen : clients.length = samples.length)
    (hsaved : saved.Perm us) (honion : ∀ u ∈ us, OnionAddress (onion u.id))
    (hnodup : (us.map fun u => onion u.id).Nodup) (hdirs : ∀ u ∈ us, u.id ∈ dirs.map (·.id)) :
    (∀ i, (spawned tryInto (peerHosts onion dirs saved) (peerConfig dists w us) i).isSome ↔
      ∃ d, tryInto (dists i.1.id) = .ok d) ∧
    (∀ i p, spawned tryInto (peerHosts onion dirs saved) (peerConfig dists w us) i = some p →
      (∀ v ∈ us, userName v.id ∈ p.io.map (·.recipient) ↔ Share hour w i.1 v) ∧
      ∀ io ∈ p.io, ∃ v, io.recipient = userName v.1.id ∧
        ∀ j q, spawned tryInto (peerHosts onion dirs saved) (peerConfig dists w us) j = some q →
          (torForwards onion us io.strParams.target q.address = true ↔ j = v)) ∧
    ∀ start acts s,
      (peerNetwork (spawned tryInto (peerHosts onion dirs saved) (peerConfig dists w us))
          (torForwards onion us)).run
        (Net.init (spawned tryInto (peerHosts onion dirs saved) (peerConfig dists w us)) start)
        acts = some s → RoutedSafely (peerConfig dists w us) s := by
  have hhosts : ∀ u ∈ us, (peerHosts onion dirs saved).lookup (userName u.id) =
      some (onionAddress onion u) := fun u hu => lookup_peerHosts h hsaved honion hdirs hu
  have hmutual := @mutual_peerConfig onion us _ _ _ _ dists w _ _ _ _ hmain h hlen honion hnodup
    hhosts
  refine ⟨?_, ?_, ?_⟩
  · rintro ⟨u, hu⟩
    have hknown : ∀ v ∈ us, ((peerHosts onion dirs saved).lookup (userName v.id)).isSome :=
      fun v hv => Option.isSome_iff_exists.mpr ⟨_, hhosts v hv⟩
    rw [spawned, Option.isSome_iff_exists]
    simp only [Result.toOption_eq_some]
    refine exists_processConfig_iff (hknown u hu) ?_ ?_ ?_
    · intro c hc r hr
      obtain ⟨⟨v, hv⟩, rfl, -⟩ := hmutual.listed ⟨u, hu⟩ c hc r hr
      exact hknown v hv
    · intro c hc
      obtain ⟨entry, -, rfl⟩ := List.mem_map.mp hc
      exact ⟨by norm_num [saveConversation, peerConfig, savePeerConfig],
        by norm_num [saveConversation, peerConfig, savePeerConfig]⟩
    · intro c hc
      obtain ⟨entry, -, rfl⟩ := List.mem_map.mp hc
      rfl
  · intro i p hp
    have hroutes := routes_of_spawned hmain hp
    refine ⟨fun v _ => (hroutes.recipients _).trans (exists_recipient_iff hmain), ?_⟩
    intro io hio
    obtain ⟨c, hc, hr⟩ := (hroutes.recipients _).mp (List.mem_map_of_mem hio)
    obtain ⟨⟨v, hv⟩, hname, -⟩ := hmutual.listed i c hc _ hr
    refine ⟨⟨v, hv⟩, hname.symm, ?_⟩
    have htarget := (hroutes.params io hio).2
    rw [← hname] at htarget
    have htarget := Option.some_inj.mp (htarget.symm.trans (hhosts v hv))
    rintro ⟨x, hx⟩ q hq
    have haddress := Option.some_inj.mp (routes_of_spawned hmain hq).address
    rw [htarget, ← haddress, torForwards_onionAddress_iff h honion hnodup hv hx, Subtype.mk.injEq]
  · intro start acts s hrun
    have hinv : Inv (spawned tryInto (peerHosts onion dirs saved) (peerConfig dists w us))
        (peerConfig dists w us) s :=
      System.invariant (fun s a s' hs hstep => hs.step_of_mutual hmutual
        (fun i p hp => routes_of_spawned hmain hp) hstep) (inv_init start) hrun
    exact hinv.routedSafely

end Network

/-! ### Two peers -/

/-- They are on the same client. -/
def peerUsers : List TorUser := [⟨0, 0, 0, 65534⟩, ⟨1, 0, 0, 65533⟩]

def firstPeer : {u // u ∈ peerUsers} := ⟨⟨0, 0, 0, 65534⟩, List.mem_cons_self⟩

def spawnPeers (w : World ℚ) : {u // u ∈ peerUsers} → Option (Spawned Unit) :=
  spawned (E := Unit) (fun _ : Unit => .ok pairDists)
    (peerHosts letterOnion peerUsers peerUsers.reverse) (peerConfig (fun _ => ()) w peerUsers)

/-- The first peer connects to itself and sends itself its message. -/
def selfRun : List (NetAction {u // u ∈ peerUsers}) :=
  [.round firstPeer 0 ⟨.timer, 3, 3, 3, fun _ => true⟩, .takeMessage firstPeer 0,
    .check firstPeer 0, .connect firstPeer 0 firstPeer, .identify firstPeer 0,
    .handOver firstPeer 0, .write firstPeer 0, .accept firstPeer, .parse firstPeer,
    .handRd firstPeer, .takeReadHalf firstPeer 0, .read firstPeer 0]

def runPeers (w : World ℚ) : Option (Net {u // u ∈ peerUsers} Unit) :=
  (peerNetwork (spawnPeers w) (torForwards letterOnion peerUsers)).run
    (.init (spawnPeers w) fun _ => (0, ())) selfRun

theorem peers_connect_self : ∃ w s, main 3600 firstUsers twoSamples = some w ∧
    runPeers w = some s ∧ (s.inbox (firstPeer, 0)).log.length = 1 ∧
      RoutedSafely (peerConfig (fun _ => ()) w peerUsers) s := by
  have hrun : (main 3600 firstUsers twoSamples).bind (fun w =>
      (runPeers w).map fun s => (s.inbox (firstPeer, 0)).log.length) = some 1 := by
    decide +kernel
  obtain ⟨w, hw, hrun⟩ := Option.bind_eq_some_iff.mp hrun
  obtain ⟨s, hs, hlength⟩ := Option.map_eq_some_iff.mp hrun
  refine ⟨w, s, hw, hs, hlength, ?_⟩
  have hsampled : sampleUsers 0 1 [0, 0] = some peerUsers := rfl
  exact (peers_connect hw hsampled rfl (List.reverse_perm _)
    (fun u _ => onionAddress_letterOnion u.id) (by decide) (by decide)).2.2 _ selfRun s hs

end SignalSim.Mnettools
