import SignalSim.Mgen.Client.MainWorker
import SignalSim.Mnettools.Addresses
import SignalSim.Mnettools.Recipients

/-!
# The network of the clients

`mnettools.py` draws a server for each group and writes it into the configurations of the members,
`mgen-client.rs` reads those of all users at its host and spawns the conversations. What comes out
at all hosts together is what the groups are meant to be: the members of a group meet at one server.

## Main definitions

* `saveClientConfig` — the configuration of a user
* `Connection`, `Created.connections` — what a spawned conversation, and a group, connects

## Main results

* `clients_connect` — the conversations of all clients are those of the groups
-/

namespace SignalSim.Mnettools

open SignalSim.Mgen.Client

/-! ### The configuration -/

def socketAddress (ip : Text) (port : ℕ) : String := String.ofList (ip ++ ':' :: Text.ofNat port)

/-- The servers of a group: one of each kind, with the number that was drawn. -/
def serversOf (servers : List (Text × Text)) (serverNum : ℕ → Fin servers.length) {W : Type}
    (group : Group W) : Text × Text :=
  servers.get (serverNum group.number)

section Save

variable (servers : List (Text × Text)) (serverNum : ℕ → Fin servers.length) {D : Type}

/-- The entry of a group in the configuration of a user, with the user's wait. -/
def saveClientConversation (entry : Group ℚ × ℚ) : ConversationConfig D where
  group := entry.1.name
  messageServer := some (socketAddress (serversOf servers serverNum entry.1).1 6397)
  webServer := some (socketAddress (serversOf servers serverNum entry.1).2 6398)
  bootstrap := some entry.2
  retry := none
  distributions := none

/-- The configuration of a user with the lists in `w`. -/
def saveClientConfig (dists : ℕ → D) (w : World ℚ) (user : ℕ) : Config D where
  user := userName user
  -- the proxy is commented out
  socks := none
  messageServer := "1.1.1.2:6397"
  webServer := "1.1.1.3:6398"
  bootstrap := 5
  retry := 5
  distributions := dists user
  conversations := (w.lists user).map (saveClientConversation servers serverNum)

end Save

/-! ### Who connects where -/

/-- Who takes part in which group from when on, and at which servers. -/
structure Connection where
  user : String
  group : String
  bootstrap : ℚ
  messageServer : String
  webServer : String
  deriving DecidableEq

def FullConfig.connection {R : Type} (task : FullConfig R) : Connection where
  user := task.user
  group := task.group
  bootstrap := task.bootstrap
  messageServer := task.messageServer
  webServer := task.webServer

variable {servers : List (Text × Text)} (serverNum : ℕ → Fin servers.length) {hour : ℚ}

theorem serversOf_congr {W : Type} {group group' : Group W} (h : group.number = group'.number) :
    serversOf servers serverNum group = serversOf servers serverNum group' := by
  rw [serversOf, serversOf, h]

/-- The connection of a member with a wait. -/
def connectionOf (group : Group ℚ) (member : ℕ × ℚ) : Connection where
  user := userName member.1
  group := group.name
  bootstrap := member.2
  messageServer := socketAddress (serversOf servers serverNum group).1 6397
  webServer := socketAddress (serversOf servers serverNum group).2 6398

/-- The connections of all members, if not all of them are idle. -/
def Created.connections (hour : ℚ) (c : Created ℚ) : List Connection :=
  if c.group.conversation.waits.all (hour ≤ ·) then []
  else c.group.conversation.pairs.map (connectionOf serverNum c.group)

theorem Created.exists_of_mem_connections {c : Created ℚ} {p : Connection}
    (h : p ∈ c.connections serverNum hour) :
    ∃ member ∈ c.group.conversation.pairs, p = connectionOf serverNum c.group member := by
  unfold Created.connections at h
  split at h
  · cases h
  · obtain ⟨member, hmember, rfl⟩ := List.mem_map.mp h
    exact ⟨member, hmember, rfl⟩

variable {serverNum} {D E R : Type} {tryInto : D → Except E R} {dists : ℕ → D} {w : World ℚ}
  {users : List ℕ} {tasks : List (FullConfig R)}

/-- The connections of one client. -/
theorem map_connection_eq
    (h : mainWorker tryInto (users.map (saveClientConfig servers serverNum dists w)) = .ok tasks) :
    tasks.map FullConfig.connection = users.flatMap fun user =>
      (w.lists user).map fun entry => connectionOf serverNum entry.1 (user, entry.2) := by
  have hfilled := mainWorker_eq_ok h
  have heq : tasks.map FullConfig.connection =
      ((users.map (saveClientConfig servers serverNum dists w)).flatMap fun config =>
        config.conversations.map (config, ·)).map fun p => ⟨p.1.user, p.2.group,
          p.2.bootstrap.getD p.1.bootstrap, p.2.messageServer.getD p.1.messageServer,
          p.2.webServer.getD p.1.webServer⟩ := by
    rw [← List.forall₂_eq_eq_eq, List.forall₂_map_left_iff, List.forall₂_map_right_iff]
    refine hfilled.flip.imp fun task p hp => ?_
    rw [FullConfig.connection, hp.user_eq, hp.group_eq, hp.bootstrap_eq, hp.messageServer_eq,
      hp.webServer_eq]
  rw [heq, List.flatMap_map, List.map_flatMap]
  refine List.flatMap_congr fun user _ => ?_
  rw [saveClientConfig, List.map_map, List.map_map]
  rfl

/-- The entries a group adds are those of its members. -/
theorem entries_eq_filter {c : Created ℚ} (h : c.Padded hour users)
    (hbusy : ¬ c.group.conversation.waits.all (hour ≤ ·)) (u : ℕ) :
    entries hour c.group c.silent u =
      (c.group.conversation.pairs.filter (·.1 = u)).map fun p => (c.group, p.2) := by
  have hsilent : silentEntries hour c.group c.silent u =
      ((c.silent.zip (List.replicate c.silent.length hour)).filter (·.1 = u)).map
        fun p => (c.group, p.2) := by
    have hzip : c.silent.zip (List.replicate c.silent.length hour) = c.silent.map (·, hour) := by
      rw [← List.map_const', List.map_prod_left_eq_zip]
    rw [hzip, List.filter_map, List.map_map]
    rfl
  rw [entries, if_neg hbusy, sampledEntries_eq h, hsilent, h.pairs_eq, List.filter_append,
    List.map_append]

/-- What all users list of a group. -/
theorem flatMap_entries_perm {c : Created ℚ} (h : c.Padded hour users) (husers : users.Nodup)
    (hmem : ∀ p ∈ c.group.conversation.pairs, p.1 ∈ users) :
    (users.flatMap fun user => (entries hour c.group c.silent user).map fun entry =>
      connectionOf serverNum entry.1 (user, entry.2)).Perm (c.connections serverNum hour) := by
  unfold Created.connections
  split
  case isTrue hidle =>
    have hnil : ∀ user ∈ users, (entries hour c.group c.silent user).map (fun entry =>
        connectionOf serverNum entry.1 (user, entry.2)) = [] := by
      intro user _
      rw [entries, if_pos hidle, List.map_nil]
    rw [List.flatMap_eq_nil_iff.mpr hnil]
  case isFalse hbusy =>
    have hmembers : ∀ user ∈ users, (entries hour c.group c.silent user).map (fun entry =>
        connectionOf serverNum entry.1 (user, entry.2)) =
          (c.group.conversation.pairs.filter (·.1 = user)).map
            (connectionOf serverNum c.group) := by
      intro user _
      rw [entries_eq_filter h hbusy, List.map_map]
      refine List.map_congr_left fun p hp => ?_
      obtain rfl := of_decide_eq_true (List.mem_filter.mp hp).2
      rfl
    rw [List.flatMap_congr hmembers, ← List.map_flatMap]
    exact (flatMap_filter_key_perm Prod.fst husers hmem).map _

/-- The connections of all clients. -/
theorem map_connection_flatten_eq {clients : List (List ℕ)} {spawned : List (List (FullConfig R))}
    (h : List.Forall₂ (fun users tasks => mainWorker tryInto
      (users.map (saveClientConfig servers serverNum dists w)) = .ok tasks) clients spawned) :
    spawned.flatten.map FullConfig.connection = clients.flatten.flatMap fun user =>
      (w.lists user).map fun entry => connectionOf serverNum entry.1 (user, entry.2) := by
  induction h with
  | nil => rfl
  | cons htasks _ ih =>
    rw [List.flatten_cons, List.map_append, map_connection_eq htasks, ih, List.flatten_cons,
      List.flatMap_append]

/-- Who takes part in what is different for all connections of the groups. -/
theorem nodup_connections {samples : ℕ} (hw : w.Consistent hour (List.range samples)) :
    ((w.created.flatMap (·.connections serverNum hour)).map fun p => (p.user, p.group)).Nodup := by
  have hnumbers : (w.created.map (·.group.number)).Nodup := by
    rw [hw.numbers]
    exact List.nodup_range
  rw [List.map_flatMap, List.nodup_flatMap]
  constructor
  case left =>
    intro c hc
    unfold Created.connections
    split
    · exact .nil
    · have husers := (hw.padded c hc).nodup_users List.nodup_range
      rw [← List.map_fst_zip (Nat.le_of_eq (hw.padded c hc).balanced)] at husers
      have hinj : Function.Injective fun user => (userName user, c.group.name) :=
        fun _ _ heq => userName_injective (Prod.mk.inj heq).1
      have hnames := husers.map hinj
      rw [List.map_map] at hnames ⊢
      exact hnames
  case right =>
    refine (List.pairwise_map.mp hnumbers).imp fun {c c'} hne p hp hp' => hne ?_
    obtain ⟨q, hq, rfl⟩ := List.mem_map.mp hp
    obtain ⟨q', hq', heq⟩ := List.mem_map.mp hp'
    obtain ⟨member, -, rfl⟩ := Created.exists_of_mem_connections serverNum hq
    obtain ⟨member', -, rfl⟩ := Created.exists_of_mem_connections serverNum hq'
    exact groupName_injective (Prod.mk.inj heq).2.symm

/-- **The network.** The conversations that all clients spawn are those of the members of all
groups that are not idle: each member once, from the wait that was sampled for it. All members of a
group use the same servers. -/
theorem clients_connect {sampler : Sampler} {samples : List (UserSample ℚ)}
    (h : main hour sampler samples = some w) {clients : List (List ℕ)}
    (hclients : clients.flatten.Perm (List.range samples.length))
    {spawned : List (List (FullConfig R))}
    (hspawned : List.Forall₂ (fun users tasks => mainWorker tryInto
      (users.map (saveClientConfig servers serverNum dists w)) = .ok tasks) clients spawned) :
    (spawned.flatten.map FullConfig.connection).Perm
        (w.created.flatMap (·.connections serverNum hour)) ∧
      (spawned.flatten.map fun task => (task.user, task.group)).Nodup ∧
      ∀ task ∈ spawned.flatten, ∀ task' ∈ spawned.flatten, task.group = task'.group →
        task.messageServer = task'.messageServer ∧ task.webServer = task'.webServer := by
  obtain ⟨hw, -⟩ := main_consistent h
  have hperm : (spawned.flatten.map FullConfig.connection).Perm
      (w.created.flatMap (·.connections serverNum hour)) := by
    rw [map_connection_flatten_eq hspawned]
    refine (hclients.flatMap_right _).trans ?_
    simp only [hw.lists_eq, List.map_flatMap]
    refine (flatMap_flatMap_perm _ _ _).trans (List.Perm.flatMap_left _ fun c hc => ?_)
    exact flatMap_entries_perm (hw.padded c hc) List.nodup_range fun p hp =>
      mem_range_of_mem_users h hc (List.of_mem_zip hp).1
  refine ⟨hperm, ?_, ?_⟩
  · have hnodup := (hperm.map fun p => (p.user, p.group)).nodup_iff.mpr (nodup_connections hw)
    rwa [List.map_map] at hnodup
  · intro task htask task' htask' hgroup
    have hmem := hperm.subset (List.mem_map_of_mem htask)
    have hmem' := hperm.subset (List.mem_map_of_mem htask')
    obtain ⟨c, -, hconn⟩ := List.mem_flatMap.mp hmem
    obtain ⟨c', -, hconn'⟩ := List.mem_flatMap.mp hmem'
    obtain ⟨member, -, heq⟩ := Created.exists_of_mem_connections serverNum hconn
    obtain ⟨member', -, heq'⟩ := Created.exists_of_mem_connections serverNum hconn'
    obtain ⟨-, hname, -, hmessage, hweb⟩ := Connection.mk.inj heq
    obtain ⟨-, hname', -, hmessage', hweb'⟩ := Connection.mk.inj heq'
    have hservers := serversOf_congr serverNum
      (groupName_injective (hname.symm.trans (hgroup.trans hname')))
    rw [hmessage, hmessage', hweb, hweb', hservers]
    exact ⟨rfl, rfl⟩

def oneServer : List (Text × Text) := [(ipAddress 2, ipAddress 3)]

def firstServer (_ : ℕ) : Fin oneServer.length := ⟨0, Nat.one_pos⟩

/-- What the client of one of them spawns. -/
def spawn (w : World ℚ) (user : ℕ) : Except Unit (List (FullConfig Unit)) :=
  mainWorker .ok ([user].map (saveClientConfig oneServer firstServer (fun _ => ()) w))

/-- One group, of users at different clients. -/
theorem clients_connect_twoSamples : ∃ w tasks tasks',
    main 3600 firstUsers twoSamples = some w ∧
      tasks.map FullConfig.connection =
        [⟨"user1", "group0", 20, "1.1.1.2:6397", "1.1.1.3:6398"⟩] ∧
      tasks'.map FullConfig.connection =
        [⟨"user0", "group0", 30, "1.1.1.2:6397", "1.1.1.3:6398"⟩] ∧
      (([tasks, tasks'].flatten.map (FullConfig.connection (R := Unit))).Perm
          (w.created.flatMap (·.connections firstServer 3600)) ∧
        ([tasks, tasks'].flatten.map fun task => (task.user, task.group)).Nodup ∧
        ∀ task ∈ [tasks, tasks'].flatten, ∀ task' ∈ [tasks, tasks'].flatten,
          task.group = task'.group →
            task.messageServer = task'.messageServer ∧ task.webServer = task'.webServer) := by
  have hrun : (main 3600 firstUsers twoSamples).map (fun w =>
      ((spawn w 1).map (·.map FullConfig.connection),
        (spawn w 0).map (·.map FullConfig.connection))) =
      some (.ok [⟨"user1", "group0", 20, "1.1.1.2:6397", "1.1.1.3:6398"⟩],
        .ok [⟨"user0", "group0", 30, "1.1.1.2:6397", "1.1.1.3:6398"⟩]) := by
    decide +kernel
  obtain ⟨w, hw, hspawn⟩ := Option.map_eq_some_iff.mp hrun
  obtain ⟨hspawn, hspawn'⟩ := Prod.mk.inj hspawn
  obtain ⟨tasks, htasks, hconn⟩ := Result.map_eq_ok hspawn
  obtain ⟨tasks', htasks', hconn'⟩ := Result.map_eq_ok hspawn'
  have hclients : [[1], [0]].flatten.Perm (List.range twoSamples.length) := .swap 0 1 []
  exact ⟨w, tasks, tasks', hw, hconn, hconn',
    clients_connect hw hclients (.cons htasks (.cons htasks' .nil))⟩

end SignalSim.Mnettools
