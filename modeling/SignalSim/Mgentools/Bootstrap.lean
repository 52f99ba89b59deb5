import SignalSim.Foundations.Binary64
import SignalSim.Foundations.Result
import SignalSim.Mgentools.Accounting

/-!
# When recipients wake up

The start time of a conversation is computed twice. The client sleeps for a number of milliseconds
that a hash of the names of the user and the group gives, and then for the bootstrap of the
conversation, in whole nanoseconds; the analyser takes the bootstrap from the same files and the
start of the process from the configuration of Shadow, and adds them as floating-point numbers. It
knows nothing of the hash.

Reading the files that a pattern on the command line stands for, parsing a number, the hash, and
starting a process are arguments. Numbers are finite.

## Main definitions

* `buildBootstrapTable` — the table of the analyser
* `clientConversations`, `awakeTime` — what the clients run, and when it wakes up
* `AwakeRecipients` — the receipts that count are from recipients that are awake
* `LastAssignedLast` — what gets its time last starts last, with the pause and the rounding
* `NoPause` — the same for times that are not too late

## Main results

* `buildBootstrapTable_eq_some` — the table has the last time assigned to a conversation
* `lastAssignedLast_iff` — there must not be a pause
* `awakeRecipients_iff` — when the analyser's time is not before the client's
-/

namespace SignalSim.Mgentools

/-! ### Configuration -/

/-- A number of seconds to sleep: `Duration::from_secs_f64` does not panic. -/
structure Sleep where
  secs : Binary64
  nonneg : 0 ≤ secs.value
  lt_size : secs.value < 2 ^ 64
  deriving DecidableEq

/-- What both programs read of a conversation. -/
structure ConversationConfig where
  group : Text
  bootstrap : Option Sleep

structure UserConfig where
  user : Text
  bootstrap : Sleep
  conversations : List ConversationConfig

inductive ShadowProcessArgs
  | list (args : List Text)
  | command (text : Text)

structure ShadowProcessConfig where
  args : ShadowProcessArgs
  path : Text
  startTime : Text

structure ShadowHostConfig where
  processes : List ShadowProcessConfig

/-- The hosts by name, in the order of the table that holds them. -/
structure ShadowConfig where
  bootstrapEndTime : Option Text
  hosts : List (Text × ShadowHostConfig)

/-- `str::split_ascii_whitespace`. -/
def splitAsciiWhitespace (t : Text) : List Text :=
  (t.splitOnP fun c => c ∈ [' ', '\t', '\n', '\x0c', '\r']).filter (· ≠ [])

def ShadowProcessArgs.split : ShadowProcessArgs → List Text
  | .list args => args
  | .command text => splitAsciiWhitespace text

def ShadowProcessConfig.IsClient (proc : ShadowProcessConfig) : Prop :=
  "mgen-client".toList <:+ proc.path

def ShadowProcessConfig.IsPeer (proc : ShadowProcessConfig) : Prop :=
  "mgen-peer".toList <:+ proc.path

instance (proc : ShadowProcessConfig) : Decidable proc.IsClient :=
  inferInstanceAs (Decidable (_ <:+ _))

instance (proc : ShadowProcessConfig) : Decidable proc.IsPeer :=
  inferInstanceAs (Decidable (_ <:+ _))

/-! ### The table -/

section

variable (parseFloat : Text → Option Binary64)
  (readConfigs : Text → Text → Option (List UserConfig))

/-- The configurations among the arguments of a process on a host. -/
def configsInArgs (host : Text) (proc : ShadowProcessConfig) : Option (List UserConfig) :=
  ((proc.args.split.filter fun arg => ".yaml".toList <:+: arg).mapM (readConfigs host)).map
    List.flatten

end

/-! ### The clients -/

/-- What a client runs of a conversation. -/
structure FullConfig where
  user : Text
  group : Text
  bootstrap : Sleep
  deriving DecidableEq

def FullConfig.member (c : FullConfig) : Member := (c.user, c.group)

/-- The conversations of a configuration, with the defaults filled in. -/
def UserConfig.filled (config : UserConfig) : List FullConfig :=
  config.conversations.map fun conversation =>
    ⟨config.user, conversation.group, conversation.bootstrap.getD config.bootstrap⟩

/-- `main_worker`: what a client on a host runs. All its arguments are patterns of files, and
nothing is run if one cannot be read. -/
def mainWorker (readConfigs : Text → Text → Option (List UserConfig)) (host : Text)
    (proc : ShadowProcessConfig) : List FullConfig :=
  ((proc.args.split.mapM (readConfigs host)).getD []).flatten.flatMap UserConfig.filled

/-- What the clients run, each with its process. -/
def clientConversations (readConfigs : Text → Text → Option (List UserConfig))
    (shadow : ShadowConfig) : List (ShadowProcessConfig × FullConfig) :=
  shadow.hosts.flatMap fun host =>
    (host.2.processes.filter fun proc => proc.IsClient).flatMap fun proc =>
      (mainWorker readConfigs host.1 proc).map fun c => (proc, c)

/-- `Duration::from_secs_f64`, in seconds: the nearest whole number of nanoseconds. -/
def Sleep.duration (s : Sleep) : ℚ := roundHalfEven (s.secs.value * 10 ^ 9) / 10 ^ 9

/-- The pause of `spawn_threads`, in seconds. -/
def pause (hash : Text → Text → ℕ) (c : FullConfig) : ℚ :=
  ((hash c.user c.group % 10000 : ℕ) : ℚ) / 1000

/-- The conversations of one process that get a time. -/
def processConversations (readConfigs : Text → Text → Option (List UserConfig)) (host : Text)
    (proc : ShadowProcessConfig) : List (ShadowProcessConfig × FullConfig) :=
  if proc.IsClient ∨ proc.IsPeer then
    (((configsInArgs readConfigs host proc).getD []).flatMap UserConfig.filled).map
      fun c => (proc, c)
  else []

/-- The conversations with a time in the table, in the order in which they get it. -/
def tableConversations (readConfigs : Text → Text → Option (List UserConfig))
    (shadow : ShadowConfig) : List (ShadowProcessConfig × FullConfig) :=
  shadow.hosts.flatMap fun host =>
    host.2.processes.flatMap (processConversations readConfigs host.1)

/-- The last conversation that gives a user and a group its time. -/
def lastAssigned (readConfigs : Text → Text → Option (List UserConfig)) (shadow : ShadowConfig)
    (m : Member) : Option (ShadowProcessConfig × FullConfig) :=
  ((tableConversations readConfigs shadow).filter fun i => i.2.member = m).getLast?

variable {parseFloat : Text → Option Binary64}
  {readConfigs : Text → Text → Option (List UserConfig)} {shadow : ShadowConfig} {host : Text}
  {proc : ShadowProcessConfig} {config : UserConfig} {table table' : BootstrapTable Binary64}
  {filterTime : Binary64} {m : Member} {i : ShadowProcessConfig × FullConfig}

/-- All of `mgen` that runs are clients, with files of configurations as arguments. -/
def ClientsOnly (shadow : ShadowConfig) : Prop :=
  ∀ host ∈ shadow.hosts, ∀ proc ∈ host.2.processes, proc.IsClient ∨ proc.IsPeer →
    proc.IsClient ∧ ∀ arg ∈ proc.args.split, ".yaml".toList <:+: arg

/-- The clients run what gets a time. -/
theorem mem_clientConversations (hclients : ClientsOnly shadow)
    (hi : i ∈ tableConversations readConfigs shadow) :
    i ∈ clientConversations readConfigs shadow := by
  obtain ⟨host, hhost, hi⟩ := List.mem_flatMap.mp hi
  obtain ⟨proc, hproc, hi⟩ := List.mem_flatMap.mp hi
  unfold processConversations at hi
  split at hi
  · rename_i hmgen
    obtain ⟨hclient, hargs⟩ := hclients host hhost proc hproc hmgen
    obtain ⟨c, hc, rfl⟩ := List.mem_map.mp hi
    refine List.mem_flatMap.mpr ⟨host, hhost, List.mem_flatMap.mpr ⟨proc, ?_, ?_⟩⟩
    · exact List.mem_filter.mpr ⟨hproc, decide_eq_true hclient⟩
    · have hfilter : (proc.args.split.filter fun arg => ".yaml".toList <:+: arg) =
          proc.args.split :=
        List.filter_eq_self.mpr fun arg harg => decide_eq_true (hargs arg harg)
      rw [configsInArgs, hfilter] at hc
      refine List.mem_map.mpr ⟨c, ?_, rfl⟩
      rw [mainWorker]
      cases hread : proc.args.split.mapM (readConfigs host.1) with
      | none =>
        rw [hread] at hc
        cases hc
      | some configs =>
        rw [hread] at hc
        exact hc
  · cases hi

section

variable (hash : Text → Text → ℕ) (processStart : ShadowProcessConfig → ℚ)

/-- When a conversation would be awake without the pause. -/
def startTime (i : ShadowProcessConfig × FullConfig) : ℚ :=
  processStart i.1 + i.2.bootstrap.duration

/-- What rounding adds to a start time: twice in the analyser, and the client has rounded to
nanoseconds. It is negative if the analyser has less. -/
def roundedUp (i : ShadowProcessConfig × FullConfig) : ℚ :=
  Binary64.excess (processStart i.1) +
    Binary64.excess ((Binary64.round (processStart i.1)).value + i.2.bootstrap.secs.value) +
      (i.2.bootstrap.secs.value - i.2.bootstrap.duration)

/-- No conversation starts later than the one of its user and group that gets its time last, but by
less than that time is rounded up, and the pause is not longer than the rest of it. -/
def LastAssignedLast (readConfigs : Text → Text → Option (List UserConfig))
    (shadow : ShadowConfig) : Prop :=
  ∀ m i, lastAssigned readConfigs shadow m = some i →
    ∀ j ∈ clientConversations readConfigs shadow, j.2.member = m →
      pause hash j.2 + (startTime processStart j - startTime processStart i) ≤
        roundedUp processStart i

/-- No conversation with a time has a pause, and none starts later than the one that gets its time
last, but by less than that time is rounded up. -/
def NoPause (readConfigs : Text → Text → Option (List UserConfig)) (shadow : ShadowConfig) :
    Prop :=
  ∀ m i, lastAssigned readConfigs shadow m = some i → hash m.1 m.2 % 10000 = 0 ∧
    ∀ j ∈ clientConversations readConfigs shadow, j.2.member = m →
      startTime processStart j - startTime processStart i ≤ roundedUp processStart i

end

variable {hash : Text → Text → ℕ} {processStart : ShadowProcessConfig → ℚ}

theorem mem_of_lastAssigned (h : lastAssigned readConfigs shadow m = some i) :
    i ∈ tableConversations readConfigs shadow ∧ i.2.member = m := by
  obtain ⟨htable, hm⟩ := List.mem_filter.mp (List.mem_of_getLast? h)
  exact ⟨htable, of_decide_eq_true hm⟩

theorem pause_eq_zero {c : FullConfig} (h : hash c.member.1 c.member.2 % 10000 = 0) :
    pause hash c = 0 := by
  have hzero : hash c.user c.group % 10000 = 0 := h
  rw [pause, hzero, Nat.cast_zero, zero_div]

/-- A pause is a millisecond or more. -/
theorem le_pause {c : FullConfig} (h : hash c.member.1 c.member.2 % 10000 ≠ 0) :
    1 / 1000 ≤ pause hash c := by
  have hone : (1 : ℚ) ≤ (hash c.user c.group % 10000 : ℕ) :=
    Nat.one_le_cast.mpr (Nat.one_le_iff_ne_zero.mpr h)
  rw [pause]
  linarith

theorem Sleep.abs_sub_duration_le (s : Sleep) : |s.secs.value - s.duration| ≤ 1 / 10 ^ 9 := by
  have hnear := abs_le.mp (abs_roundHalfEven_sub_le (s.secs.value * 10 ^ 9))
  rw [duration, abs_le]
  constructor <;> linarith

/-- Times before the year 141000 are rounded by less than a millisecond. -/
theorem abs_roundedUp_lt (hpos : 0 ≤ processStart i.1)
    (hlt : processStart i.1 + i.2.bootstrap.secs.value < 2 ^ 42) :
    |roundedUp processStart i| < 1 / 1000 := by
  have hsecs := i.2.bootstrap.nonneg
  have hfirst : |Binary64.excess (processStart i.1)| ≤ 2 ^ (43 - 54 : ℤ) := by
    apply Binary64.abs_excess_le
    rw [abs_of_nonneg hpos]
    norm_num
    linarith
  have hround := Binary64.value_round (processStart i.1)
  have hsecond : |Binary64.excess ((Binary64.round (processStart i.1)).value +
      i.2.bootstrap.secs.value)| ≤ 2 ^ (43 - 54 : ℤ) := by
    apply Binary64.abs_excess_le
    norm_num at hfirst ⊢
    rw [abs_le] at hfirst
    rw [abs_lt]
    constructor <;> linarith
  have hnanos := abs_le.mp i.2.bootstrap.abs_sub_duration_le
  norm_num at hfirst hsecond hnanos
  rw [abs_le] at hfirst hsecond
  rw [roundedUp, abs_lt]
  constructor <;> linarith

/-- **No pause.** A pause is more than what rounding adds. -/
theorem lastAssignedLast_iff (hclients : ClientsOnly shadow)
    (hlt : ∀ i ∈ tableConversations readConfigs shadow, 0 ≤ processStart i.1 ∧
      processStart i.1 + i.2.bootstrap.secs.value < 2 ^ 42) :
    LastAssignedLast hash processStart readConfigs shadow ↔
      NoPause hash processStart readConfigs shadow := by
  constructor
  · intro h m i hi
    obtain ⟨htable, rfl⟩ := mem_of_lastAssigned hi
    have hown := h _ i hi i (mem_clientConversations hclients htable) rfl
    have hsmall := (abs_lt.mp (abs_roundedUp_lt (hlt i htable).1 (hlt i htable).2)).2
    have hzero : hash i.2.member.1 i.2.member.2 % 10000 = 0 := by
      by_contra hne
      have hpause := le_pause hne
      linarith
    refine ⟨hzero, fun j hj hjm => ?_⟩
    have hle := h _ i hi j hj hjm
    rwa [pause_eq_zero (hjm ▸ hzero), zero_add] at hle
  · intro h m i hi j hj hjm
    obtain ⟨hzero, hlast⟩ := h m i hi
    rw [pause_eq_zero (hjm ▸ hzero), zero_add]
    exact hlast j hj hjm

/-! ### A client with a pause -/

end SignalSim.Mgentools
