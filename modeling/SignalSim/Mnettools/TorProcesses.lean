import Mathlib.Data.List.Infix
import Mathlib.Data.List.Nodup
import SignalSim.Mnettools.Onions

/-!
# The processes of a client

`User.save` of `mnettools.py` and `mnettortools.py` adds a messenger process to the client of the
user unless there is one, and a tor process unless one has been set up with the user's number. It
looks for the name of a file in the arguments of the processes to find out.

## Main definitions

* `Host` — the processes and files of a client
* `mnettools`, `mnettortools` — what differs between the scripts
* `Script.save` — `User.save`
* `Saved` — the processes and files after some users have been saved

## Main results

* `names_torrc_iff` — the arguments of a tor process name its own file only
* `saved_hosts` — after any number of users, each client has what its users need, once
* `ports_nodup` — no port is used twice
-/

namespace SignalSim.Mnettools

open Function (update)

/-! ### Processes -/

structure ShadowProcess where
  path : Text
  args : Text
  startTime : ℤ
  deriving DecidableEq

/-- A client in the configuration of the simulation, with its directory. -/
structure Host where
  /-- The path of the directory, with a slash at the end. -/
  path : Text
  processes : List ShadowProcess
  /-- The files named by a number and `.torrc`. -/
  torrcs : ℕ → Option Text
  /-- The directories that have been made. -/
  dirs : List Text

def torPath : Text := "~/.local/bin/tor".toList

def torrc (k : ℕ) : Text := Text.ofNat k ++ ".torrc".toList

def torDatadir (k : ℕ) : Text := "tor-".toList ++ Text.ofNat k

def socksPort (k : ℕ) : ℕ := 9050 + k * 2

def controlPort (k : ℕ) : ℕ := socksPort k + 1

/-- `tors`. -/
def Host.tors (host : Host) : List ShadowProcess := host.processes.filter (·.path = torPath)

/-- The argument by which a process is found. -/
def fileArg (k : ℕ) : Text := "-f ".toList ++ torrc k

def torArgs (k : ℕ) : Text :=
  "--defaults-torrc torrc-defaults ".toList ++ fileArg k ++ " --DataDirectory ./".toList ++
    torDatadir k

/-- The file of a tor process. -/
def torrcContents (k : ℕ) : Text :=
  Text.line ("SocksPort ".toList ++ Text.ofNat (socksPort k)) ++
    Text.line ("ControlPort ".toList ++ Text.ofNat (controlPort k))

/-- `onion_service_path`, without the directory of the client. -/
def serviceDir (u : TorUser) : Text := u.name ++ ".tor".toList

/-- The lines for the hidden service of a user. -/
def serviceLines (path : Text) (u : TorUser) : Text :=
  Text.line ("HiddenServiceDir ".toList ++ path ++ serviceDir u) ++
    Text.line ("HiddenServicePort ".toList ++ Text.ofInt u.onionPort ++ " 127.0.0.1:".toList ++
      Text.ofInt u.onionPort)

/-! ### Saving a user -/

/-- What differs between the two scripts. -/
structure Script where
  clientPath : Text
  clientPath_ne : clientPath ≠ torPath
  clientArgs : Text
  /-- The start of the messenger, from that of the first tor process. -/
  clientStart : ℤ → ℤ
  /-- The start of a new tor process, from that of the first one. -/
  torStart : ℤ → ℕ → ℤ
  /-- Users have hidden services. -/
  onion : Bool

def Script.clientProcess (script : Script) (torStart : ℤ) : ShadowProcess :=
  ⟨script.clientPath, script.clientArgs, script.clientStart torStart⟩

def Script.torProcess (script : Script) (torStart : ℤ) (k : ℕ) : ShadowProcess :=
  ⟨torPath, torArgs k, script.torStart torStart k⟩

/-- Make a directory, which must not be there. -/
def Host.mkdir (host : Host) (dir : Text) : Option Host :=
  if dir ∈ host.dirs then none else some { host with dirs := host.dirs ++ [dir] }

/-- Add a messenger process if there is none. -/
def Host.addClient (script : Script) (torStart : ℤ) (host : Host) : Host :=
  if host.processes.any (·.path = script.clientPath) then host
  else { host with processes := host.processes ++ [script.clientProcess torStart] }

/-- Set up a tor process. -/
def Host.addTor (script : Script) (torStart : ℤ) (k : ℕ) (host : Host) : Option Host :=
  { host with
    processes := host.processes ++ [script.torProcess torStart k]
    torrcs := update host.torrcs k (some (torrcContents k)) }.mkdir (torDatadir k)

/-- Set up a tor process unless it has no number, or one of `tors` has its file. -/
def Host.setUpTor (script : Script) (torStart : ℤ) (tors : List ShadowProcess) (k : ℕ)
    (host : Host) : Option Host :=
  if k ≠ 0 ∧ ¬ tors.any fun tor => fileArg k <:+: tor.args then host.addTor script torStart k
  else some host

/-- Add the hidden service of a user to the file of the tor process. -/
def Host.addService (u : TorUser) (host : Host) : Option Host :=
  let contents := (host.torrcs u.torProcess).getD []
  { host with
    torrcs := update host.torrcs u.torProcess
      (some (contents ++ serviceLines host.path u)) }.mkdir (serviceDir u)

/-- `User.save`, as far as the client goes. -/
def Script.save (script : Script) (u : TorUser) (host : Host) : Option Host := do
  -- `tors[0]` comes before the check that there is one
  let first ← host.tors.head?
  let tors := host.tors
  let host := host.addClient script first.startTime
  let host ← host.setUpTor script first.startTime tors u.torProcess
  if script.onion then host.addService u else some host

/-- `mnettools.py`, whose users have no ports. -/
def mnettools : Script where
  clientPath := "~/.cargo/bin/mgen-client".toList
  clientPath_ne := by decide
  clientArgs := "user*.yaml".toList
  clientStart _ := 1170
  torStart start k := start + k
  onion := false

/-- `mnettortools.py`. -/
def mnettortools : Script where
  clientPath := "~/.cargo/bin/mgen-peer".toList
  clientPath_ne := by decide
  clientArgs := "../hosts user*.yaml".toList
  clientStart start := start + 60
  torStart start _ := start
  onion := true

/-- The loop over the users, each on the client of the user. -/
def Script.saveAll (script : Script) (us : List TorUser) (hosts : ℕ → Host) : Option (ℕ → Host) :=
  us.foldlM (fun hosts u => (script.save u (hosts u.client)).map (update hosts u.client)) hosts

/-! ### Arguments -/

section

variable {j k : ℕ} {s t r : Text}

/-- The arguments of a tor process up to the name of its file. -/
def argsBefore : Text := "--defaults-torrc torrc-defaults ".toList ++ "-f ".toList

/-- What comes behind it. -/
def argsBehind (k : ℕ) : Text := ".torrc".toList ++ (" --DataDirectory ./".toList ++ torDatadir k)

/-- Before the name of the file the option is at one position. -/
theorem eq_nil_of_argsBefore (h : argsBefore = s ++ ("-f ".toList ++ t)) : t = [] := by
  have hposition : ∀ n < 33, (argsBefore.drop n).take 3 = "-f ".toList → n = 32 := by decide
  have hbefore : argsBefore.length = 35 := by decide
  have hoption : ("-f ".toList).length = 3 := by decide
  have hlen := congrArg List.length h
  rw [List.length_append, List.length_append, hbefore, hoption] at hlen
  have hs : s.length = 32 := by
    apply hposition s.length (by omega)
    rw [h, List.drop_left, List.take_left' hoption]
  exact List.eq_nil_of_length_eq_zero (by omega)

/-- Behind that there is none if there is no `f`. -/
theorem eq_nil_of_no_f (hr : 'f' ∉ r) (h : s ++ "-f ".toList = argsBefore ++ r) : r = [] := by
  have hreverse := congrArg List.reverse h
  rw [List.reverse_append, List.reverse_append] at hreverse
  have hmem : 'f' ∉ r.reverse := by rwa [List.mem_reverse]
  match hr' : r.reverse with
  | [] => exact List.reverse_eq_nil_iff.mp hr'
  | [c] =>
    rw [hr'] at hreverse
    -- what comes before the name of the file ends with a space
    have hlast : some 'f' = some ' ' := congrArg (·[1]?) hreverse
    cases hlast
  | c :: d :: rest =>
    rw [hr'] at hreverse hmem
    have hlast : some 'f' = some d := congrArg (·[1]?) hreverse
    obtain rfl := Option.some_inj.mp hlast
    exact absurd (List.mem_cons_of_mem c List.mem_cons_self) hmem

/-- There is one place for the option. -/
theorem eq_of_option (hr : 'f' ∉ r) (h : s ++ "-f ".toList ++ t = argsBefore ++ r) : t = r := by
  rcases List.append_eq_append_iff.mp h with ⟨x, hx, ht⟩ | ⟨x, hx, ht⟩
  · rw [ht, eq_nil_of_argsBefore (hx.trans (List.append_assoc _ _ _))]
    rfl
  · have hmem : 'f' ∉ x := fun hf => hr (ht ▸ List.mem_append_left _ hf)
    rw [ht, eq_nil_of_no_f hmem hx]
    rfl

theorem not_mem_ofNat {c : Char} (h : c.isDigit = false) : c ∉ Text.ofNat k := by
  intro hmem
  cases h.symm.trans (Text.isDigit_of_mem_ofNat hmem)

/-- **Arguments.** The arguments of a tor process name the file with its number and no other. -/
theorem names_torrc_iff : fileArg j <:+: torArgs k ↔ j = k := by
  constructor
  · rintro ⟨s, t, h⟩
    have hargs : torArgs k = argsBefore ++ (Text.ofNat k ++ argsBehind k) := by
      unfold torArgs fileArg torrc argsBefore argsBehind
      simp only [List.append_assoc]
    have hr : 'f' ∉ Text.ofNat k ++ argsBehind k := by
      have hdigits : 'f' ∉ Text.ofNat k := not_mem_ofNat (by decide)
      unfold argsBehind torDatadir
      simp only [List.mem_append, hdigits, or_false, false_or]
      decide
    rw [hargs, fileArg, ← List.append_assoc, List.append_assoc] at h
    have hrest := eq_of_option hr h
    unfold torrc argsBehind at hrest
    rw [List.append_assoc] at hrest
    -- the digits come first on both sides
    have hdigits := congrArg (List.takeWhile Char.isDigit) hrest
    have hall (n : ℕ) : ∀ c ∈ Text.ofNat n, c.isDigit = true := fun c => Text.isDigit_of_mem_ofNat
    rw [List.takeWhile_append_of_pos (hall j), List.takeWhile_append_of_pos (hall k)] at hdigits
    apply Text.ofNat_injective
    simpa using hdigits
  · rintro rfl
    refine ⟨"--defaults-torrc torrc-defaults ".toList,
      " --DataDirectory ./".toList ++ torDatadir j, ?_⟩
    unfold torArgs
    rw [List.append_assoc _ _ (torDatadir j)]

end

/-! ### What has been added to a client -/

/-- A client as it is before the users are saved: it has no messenger, none of the tor processes
that are set up for users, and none of their files. -/
structure Fresh (script : Script) (host : Host) : Prop where
  no_client : ∀ p ∈ host.processes, p.path ≠ script.clientPath
  no_option : ∀ tor ∈ host.tors, ∀ k, ¬ fileArg k <:+: tor.args
  no_torrc : ∀ k, host.torrcs k = none
  no_datadir : ∀ k, torDatadir k ∉ host.dirs
  no_service : ∀ u, serviceDir u ∉ host.dirs

/-- The file with a number, if the tor processes `ks` and the services of `vs` have been set up. -/
def torrcOf (path : Text) (ks : List ℕ) (vs : List TorUser) (k : ℕ) : Option Text :=
  let users := vs.filter (·.torProcess = k)
  if k ∈ ks then some (torrcContents k ++ users.flatMap (serviceLines path))
  else if users = [] then none
  else some (users.flatMap (serviceLines path))

/-- The processes that are added. -/
def addedProcesses (script : Script) (host : Host) (client : Bool) (ks : List ℕ) :
    List ShadowProcess :=
  host.tors.head?.toList.flatMap fun first =>
    (if client then [script.clientProcess first.startTime] else []) ++
      ks.map (script.torProcess first.startTime)

/-- A messenger, the tor processes `ks` and the services of `vs` have been added. -/
structure Added (script : Script) (host : Host) (client : Bool) (ks : List ℕ) (vs : List TorUser)
    (host' : Host) : Prop where
  path_eq : host'.path = host.path
  processes_eq : host'.processes = host.processes ++ addedProcesses script host client ks
  torrcs_eq : ∀ k, host'.torrcs k = torrcOf host.path ks vs k
  mem_dirs : ∀ d, d ∈ host'.dirs ↔ d ∈ host.dirs ∨ (∃ k ∈ ks, d = torDatadir k) ∨
    ∃ v ∈ vs, d = serviceDir v

section

variable {script : Script} {host host' : Host} {client : Bool} {ks : List ℕ} {vs us : List TorUser}
  {first : ShadowProcess} {k : ℕ} {u : TorUser} {d : Text}

theorem torDatadir_injective {j k : ℕ} (h : torDatadir j = torDatadir k) : j = k :=
  Text.ofNat_injective (List.append_cancel_left h)

theorem serviceDir_injective {v : TorUser} (h : serviceDir u = serviceDir v) : u.id = v.id :=
  TorUser.name_injective (List.append_cancel_right h)

theorem torDatadir_ne_serviceDir : torDatadir k ≠ serviceDir u := by
  intro h
  have hhead : some 't' = some 'u' := congrArg List.head? h
  cases hhead

/-- The first tor process stays the first. -/
theorem tors_eq (hfirst : host.tors.head? = some first)
    (h : Added script host client ks vs host') :
    host'.tors = host.tors ++ ks.map (script.torProcess first.startTime) := by
  rw [Host.tors, h.processes_eq, List.filter_append, addedProcesses, hfirst, Option.toList_some,
    List.flatMap_singleton, List.filter_append]
  have hclient : (if client then [script.clientProcess first.startTime] else []).filter
      (·.path = torPath) = [] := by
    split
    · exact List.filter_cons_of_neg (by simp [Script.clientProcess, script.clientPath_ne])
    · rfl
  have htors : (ks.map (script.torProcess first.startTime)).filter (·.path = torPath) =
      ks.map (script.torProcess first.startTime) := by
    apply List.filter_eq_self.mpr
    intro p hp
    obtain ⟨k, -, rfl⟩ := List.mem_map.mp hp
    exact decide_eq_true rfl
  rw [hclient, htors, List.nil_append]
  rfl

theorem Added.head?_tors (hfirst : host.tors.head? = some first)
    (h : Added script host client ks vs host') : host'.tors.head? = some first := by
  rw [tors_eq hfirst h, List.head?_append, hfirst]
  rfl

/-- A tor process is found if it has been set up. -/
theorem Added.any_option_iff (hfresh : Fresh script host) (hfirst : host.tors.head? = some first)
    (h : Added script host client ks vs host') :
    (host'.tors.any fun tor => fileArg k <:+: tor.args) = true ↔ k ∈ ks := by
  rw [tors_eq hfirst h, List.any_append, Bool.or_eq_true, List.any_eq_true, List.any_eq_true]
  constructor
  · rintro (⟨tor, htor, hargs⟩ | ⟨tor, htor, hargs⟩)
    · exact absurd (of_decide_eq_true hargs) (hfresh.no_option tor htor k)
    · obtain ⟨j, hj, rfl⟩ := List.mem_map.mp htor
      rw [names_torrc_iff.mp (of_decide_eq_true hargs)]
      exact hj
  · intro hk
    refine .inr ⟨_, List.mem_map_of_mem hk, decide_eq_true ?_⟩
    exact names_torrc_iff.mpr rfl

theorem Added.any_client_iff (hfresh : Fresh script host) (hfirst : host.tors.head? = some first)
    (h : Added script host client ks vs host') :
    (host'.processes.any (·.path = script.clientPath)) = true ↔ client = true := by
  rw [h.processes_eq, addedProcesses, hfirst, Option.toList_some, List.flatMap_singleton,
    List.any_append, List.any_append]
  have hhost : host.processes.any (·.path = script.clientPath) = false := by
    rw [List.any_eq_false]
    exact fun p hp => by simpa using hfresh.no_client p hp
  have htors : (ks.map (script.torProcess first.startTime)).any (·.path = script.clientPath) =
      false := by
    rw [List.any_eq_false]
    intro p hp
    obtain ⟨k, -, rfl⟩ := List.mem_map.mp hp
    simp [Script.torProcess, script.clientPath_ne.symm]
  rw [hhost, htors]
  cases client <;> simp [Script.clientProcess]

/-- The messenger comes before the tor processes that are added. -/
theorem Added.addClient (hfresh : Fresh script host) (hfirst : host.tors.head? = some first)
    (hks : client = false → ks = []) (h : Added script host client ks vs host') :
    Added script host true ks vs (host'.addClient script first.startTime) := by
  have hiff := h.any_client_iff hfresh hfirst
  unfold Host.addClient
  split
  case isTrue hany => exact hiff.mp hany ▸ h
  case isFalse hany =>
    have hclient : client = false := by simpa using mt hiff.mpr hany
    obtain rfl := hks hclient
    subst hclient
    refine ⟨h.path_eq, ?_, h.torrcs_eq, h.mem_dirs⟩
    simp [h.processes_eq, addedProcesses, hfirst]

theorem mkdir_eq_some (h : d ∉ host.dirs) :
    host.mkdir d = some { host with dirs := host.dirs ++ [d] } := if_neg h

/-- Another tor process is set up. -/
theorem Added.addTor (hfresh : Fresh script host) (hfirst : host.tors.head? = some first)
    (h : Added script host client ks vs host') (hk : k ∉ ks) (hvs : ∀ v ∈ vs, v.torProcess ≠ k) :
    ∃ host'', host'.addTor script first.startTime k = some host'' ∧
      Added script host client (ks ++ [k]) vs host'' := by
  have hdir : torDatadir k ∉ host'.dirs := by
    intro hmem
    rcases (h.mem_dirs _).mp hmem with hmem | ⟨j, hj, heq⟩ | ⟨v, -, heq⟩
    · exact hfresh.no_datadir k hmem
    · exact hk (torDatadir_injective heq ▸ hj)
    · exact torDatadir_ne_serviceDir heq
  refine ⟨_, mkdir_eq_some hdir, h.path_eq, ?_, ?_, ?_⟩
  · simp [h.processes_eq, addedProcesses, hfirst]
  · intro j
    by_cases hj : j = k
    · subst hj
      have hnil : vs.filter (·.torProcess = j) = [] :=
        List.filter_eq_nil_iff.mpr fun v hv heq => hvs v hv (of_decide_eq_true heq)
      simp [torrcOf, hnil]
    · simp [hj, h.torrcs_eq, torrcOf]
  · intro d
    simp only [List.mem_append, h.mem_dirs, List.mem_singleton, or_and_right, exists_or,
      exists_eq_left]
    grind

/-- The service of another user is added to the file. -/
theorem Added.addService (hfresh : Fresh script host) (h : Added script host client ks vs host')
    (hu : u.id ∉ vs.map (·.id)) :
    ∃ host'', host'.addService u = some host'' ∧
      Added script host client ks (vs ++ [u]) host'' := by
  have hdir : serviceDir u ∉ host'.dirs := by
    intro hmem
    rcases (h.mem_dirs _).mp hmem with hmem | ⟨j, -, heq⟩ | ⟨v, hv, heq⟩
    · exact hfresh.no_service u hmem
    · exact torDatadir_ne_serviceDir heq.symm
    · exact hu (List.mem_map.mpr ⟨v, hv, (serviceDir_injective heq).symm⟩)
  refine ⟨_, mkdir_eq_some hdir, h.path_eq, h.processes_eq, ?_, ?_⟩
  · intro k
    by_cases hk : k = u.torProcess
    · subst hk
      simp only [Function.update_self, h.torrcs_eq, h.path_eq, torrcOf, List.filter_append]
      split
      · simp
      · split <;> simp_all
    · have hne : u.torProcess ≠ k := Ne.symm hk
      simp [hk, hne, h.torrcs_eq, torrcOf]
  · intro d
    simp only [List.mem_append, h.mem_dirs, List.mem_singleton, or_and_right, exists_or,
      exists_eq_left]
    grind

end

/-! ### Saving all users -/

/-- The numbers of the tor processes that users have, none twice. -/
structure TorNumbers (us : List TorUser) (ks : List ℕ) : Prop where
  nodup : ks.Nodup
  mem_iff : ∀ k, k ∈ ks ↔ k ≠ 0 ∧ ∃ u ∈ us, u.torProcess = k

/-- The client has what its users need: one messenger if there are users, a tor process for each
number that they have, and in its file the services of its users. -/
def Saved (script : Script) (host : Host) (us : List TorUser) (host' : Host) : Prop :=
  ∃ ks, TorNumbers us ks ∧
    Added script host (!us.isEmpty) ks (if script.onion then us else []) host'

section

variable {script : Script} {host host' : Host} {hosts hosts' start : ℕ → Host}
  {us rest : List TorUser} {first : ShadowProcess} {u : TorUser} {ks : List ℕ} {c : ℕ}

theorem TorNumbers.of_mem (h : TorNumbers us ks) (hu : u.torProcess = 0 ∨ u.torProcess ∈ ks) :
    TorNumbers (us ++ [u]) ks := by
  refine ⟨h.nodup, fun k => (h.mem_iff k).trans (and_congr_right fun hk => ?_)⟩
  constructor
  · exact fun ⟨v, hv, heq⟩ => ⟨v, List.mem_append_left _ hv, heq⟩
  · rintro ⟨v, hv, rfl⟩
    rcases List.mem_append.mp hv with hv | hv
    · exact ⟨v, hv, rfl⟩
    · obtain rfl := List.mem_singleton.mp hv
      exact ((h.mem_iff _).mp (hu.resolve_left hk)).2

theorem TorNumbers.concat (h : TorNumbers us ks) (hne : u.torProcess ≠ 0)
    (hu : u.torProcess ∉ ks) : TorNumbers (us ++ [u]) (ks ++ [u.torProcess]) := by
  refine ⟨List.concat_eq_append ▸ h.nodup.concat hu, fun k => ?_⟩
  rw [List.mem_append, List.mem_singleton, h.mem_iff]
  constructor
  · rintro (⟨hk, v, hv, heq⟩ | rfl)
    · exact ⟨hk, v, List.mem_append_left _ hv, heq⟩
    · exact ⟨hne, u, List.mem_append_right _ (List.mem_singleton_self u), rfl⟩
  · rintro ⟨hk, v, hv, rfl⟩
    rcases List.mem_append.mp hv with hv | hv
    · exact .inl ⟨hk, v, hv, rfl⟩
    · exact .inr (congrArg _ (List.mem_singleton.mp hv))

theorem saved_nil (hfresh : Fresh script host) : Saved script host [] host := by
  refine ⟨[], ⟨List.nodup_nil, fun k => by simp⟩, rfl, ?_, ?_, ?_⟩
  · simp [addedProcesses]
  · intro k
    simp [hfresh.no_torrc, torrcOf]
  · simp

/-- One more user. -/
theorem Saved.save (hfresh : Fresh script host) (hfirst : host.tors.head? = some first)
    (h : Saved script host us host') (hu : u.id ∉ us.map (·.id)) :
    ∃ host'', script.save u host' = some host'' ∧ Saved script host (us ++ [u]) host'' := by
  obtain ⟨ks, hks, hadded⟩ := h
  have hnone : (!us.isEmpty) = false → ks = [] := by
    intro hempty
    obtain rfl : us = [] := by simpa using hempty
    exact List.eq_nil_iff_forall_not_mem.mpr fun k hk => by simpa using (hks.mem_iff k).mp hk
  have hclient := hadded.addClient hfresh hfirst hnone
  have hoption := @Added.any_option_iff _ _ _ _ _ _ _ u.torProcess hfresh hfirst hadded
  -- the tor process of the user is there, or it is set up
  obtain ⟨host₁, ks₁, htor, hks₁, hadded₁⟩ : ∃ host₁ ks₁,
      (host'.addClient script first.startTime).setUpTor script first.startTime host'.tors
        u.torProcess = some host₁ ∧
      TorNumbers (us ++ [u]) ks₁ ∧
      Added script host true ks₁ (if script.onion then us else []) host₁ := by
    rw [Host.setUpTor]
    by_cases hnew : u.torProcess ≠ 0 ∧ u.torProcess ∉ ks
    · obtain ⟨hne, hnew⟩ := hnew
      have hvs : ∀ v ∈ (if script.onion then us else []), v.torProcess ≠ u.torProcess := by
        intro v hv heq
        have hv : v ∈ us := by
          split at hv
          · exact hv
          · cases hv
        exact hnew ((hks.mem_iff _).mpr ⟨hne, v, hv, heq⟩)
      obtain ⟨host₁, htor, hadded₁⟩ := hclient.addTor hfresh hfirst hnew hvs
      rw [if_pos ⟨hne, mt hoption.mp hnew⟩]
      exact ⟨host₁, _, htor, hks.concat hne hnew, hadded₁⟩
    · rw [if_neg fun hcond => hnew ⟨hcond.1, mt hoption.mpr hcond.2⟩]
      have hold : u.torProcess = 0 ∨ u.torProcess ∈ ks := by
        by_cases hzero : u.torProcess = 0
        · exact .inl hzero
        · exact .inr (by_contra fun hmem => hnew ⟨hzero, hmem⟩)
      exact ⟨_, ks, rfl, hks.of_mem hold, hclient⟩
  have hsave : script.save u host' = if script.onion then host₁.addService u else some host₁ := by
    simp only [Script.save, hadded.head?_tors hfirst, Option.bind_eq_bind, Option.bind_some]
    rw [htor, Option.bind_some]
  rw [hsave]
  have hsome : (!(us ++ [u]).isEmpty) = true := by simp
  by_cases honion : script.onion = true
  · rw [if_pos honion] at hadded₁ ⊢
    obtain ⟨host₂, hservice, hadded₂⟩ := hadded₁.addService hfresh hu
    refine ⟨host₂, hservice, ks₁, hks₁, ?_⟩
    rw [hsome, if_pos honion]
    exact hadded₂
  · rw [if_neg honion] at hadded₁ ⊢
    refine ⟨host₁, rfl, ks₁, hks₁, ?_⟩
    rw [hsome, if_neg honion]
    exact hadded₁

/-- Without a tor process no user is saved. -/
theorem Saved.save_eq_none (hnone : host.tors = []) (h : Saved script host us host') :
    script.save u host' = none := by
  obtain ⟨ks, -, hadded⟩ := h
  have hprocesses : host'.processes = host.processes := by
    rw [hadded.processes_eq, addedProcesses, hnone]
    exact List.append_nil _
  have htors : host'.tors = [] := by rwa [Host.tors, hprocesses]
  rw [Script.save, htors]
  rfl

/-- The loop from some point on. `us` are the users that have been saved before. -/
theorem saveAll_of_saved (hfresh : ∀ c, Fresh script (start c))
    (h : ∀ c, Saved script (start c) (us.filter (·.client = c)) (hosts c))
    (hids : ((us ++ rest).map (·.id)).Nodup) :
    ((script.saveAll rest hosts).isSome ↔ ∀ u ∈ rest, (start u.client).tors ≠ []) ∧
      ∀ hosts', script.saveAll rest hosts = some hosts' →
        ∀ c, Saved script (start c) ((us ++ rest).filter (·.client = c)) (hosts' c) := by
  induction rest generalizing us hosts with
  | nil =>
    refine ⟨iff_of_true rfl fun u hu => (nomatch hu), fun hosts' heq c => ?_⟩
    obtain rfl := Option.some_inj.mp heq
    rw [List.append_nil]
    exact h c
  | cons u rest ih =>
    have hunfold : script.saveAll (u :: rest) hosts =
        ((script.save u (hosts u.client)).map (update hosts u.client)).bind
          (script.saveAll rest) := rfl
    rw [hunfold]
    cases htors : (start u.client).tors with
    | nil =>
      rw [(h u.client).save_eq_none htors]
      exact ⟨iff_of_false Bool.noConfusion fun hall => hall u List.mem_cons_self htors, nofun⟩
    | cons first tors =>
      have hfirst : (start u.client).tors.head? = some first := by rw [htors, List.head?_cons]
      have hnew : u.id ∉ (us.filter (·.client = u.client)).map (·.id) := by
        intro hmem
        rw [List.map_append, List.map_cons, List.nodup_append] at hids
        exact hids.2.2 u.id ((List.filter_sublist.map _).subset hmem) u.id List.mem_cons_self rfl
      obtain ⟨host', hsave, hsaved⟩ := (h u.client).save (hfresh u.client) hfirst hnew
      rw [hsave, Option.map_some, Option.bind_some]
      have hall : ∀ c, Saved script (start c) ((us ++ [u]).filter (·.client = c))
          (update hosts u.client host' c) := by
        intro c
        by_cases hc : u.client = c
        · subst hc
          rw [Function.update_self, List.filter_append, List.filter_cons_of_pos (by simp)]
          exact hsaved
        · rw [Function.update_of_ne (Ne.symm hc), List.filter_append,
            List.filter_cons_of_neg (by simpa using hc), List.filter_nil, List.append_nil]
          exact h c
      rw [List.append_cons] at hids ⊢
      obtain ⟨hiff, hafter⟩ := ih hall hids
      refine ⟨hiff.trans ?_, hafter⟩
      rw [List.forall_mem_cons, htors]
      exact (and_iff_right (List.cons_ne_nil _ _)).symm

/-- **Saved users.** All users are saved, in whatever order, exactly if each of them is on a client
with a tor process; then every client has one messenger if it has users, one tor process for each
number of theirs, and in the files all their services. -/
theorem saved_hosts (script : Script) (us : List TorUser) (hosts : ℕ → Host)
    (hfresh : ∀ c, Fresh script (hosts c)) (hids : (us.map (·.id)).Nodup) :
    ((script.saveAll us hosts).isSome ↔ ∀ u ∈ us, (hosts u.client).tors ≠ []) ∧
      ∀ hosts', script.saveAll us hosts = some hosts' →
        ∀ c, Saved script (hosts c) (us.filter (·.client = c)) (hosts' c) :=
  @saveAll_of_saved script hosts hosts [] us hfresh (fun c => saved_nil (hfresh c)) hids

end

/-- A client with the tor process that it has from the start. -/
def torClient : Host where
  path := "hosts/markovclient1/".toList
  processes := [⟨torPath, argsBefore ++ "torrc".toList, 240⟩]
  torrcs _ := none
  dirs := []

theorem fresh_torClient (script : Script) : Fresh script torClient where
  no_client p hp := by
    obtain rfl := List.mem_singleton.mp hp
    exact script.clientPath_ne.symm
  no_option tor htor k := by
    obtain rfl : tor = ⟨torPath, argsBefore ++ "torrc".toList, 240⟩ :=
      List.mem_singleton.mp (List.mem_filter.mp htor).1
    rintro ⟨s, t, h⟩
    rw [fileArg, ← List.append_assoc, List.append_assoc] at h
    have hname := eq_of_option (by decide) h
    -- the name of the file begins with a letter
    cases hdigits : Text.ofNat k with
    | nil => exact Text.ofNat_ne_nil hdigits
    | cons c cs =>
      have hdigit : c.isDigit = true := Text.isDigit_of_mem_ofNat (hdigits ▸ List.mem_cons_self)
      have hhead := congrArg List.head? hname
      rw [torrc, hdigits] at hhead
      obtain rfl : c = 't' := Option.some_inj.mp hhead
      cases hdigit
  no_torrc _ := rfl
  no_datadir _ := List.not_mem_nil
  no_service _ := List.not_mem_nil

/-- Three users on one client, two of them with the same tor process. -/
def torUsers : List TorUser := [⟨0, 0, 1, 65534⟩, ⟨2, 0, 1, 65532⟩, ⟨1, 0, 2, 65533⟩]

theorem saved_hosts_torUsers :
    ∃ hosts, mnettortools.saveAll torUsers (fun _ => torClient) = some hosts ∧
      Saved mnettortools torClient torUsers (hosts 0) := by
  obtain ⟨hiff, hsaved⟩ := saved_hosts mnettortools torUsers (fun _ => torClient)
    (fun _ => fresh_torClient _) (by decide)
  obtain ⟨hosts, hhosts⟩ := Option.isSome_iff_exists.mp
    (hiff.mpr fun _ _ => (by decide : torClient.tors ≠ []))
  exact ⟨hosts, hhosts, hsaved hosts hhosts 0⟩

/-! ### Ports -/

/-- The ports of a client: two for the tor process that is there, which has number 0, two for each
that is set up, and that of each user. -/
def ports (us : List TorUser) (ks : List ℕ) : List ℤ :=
  ((0 :: ks).flatMap fun k => [(socksPort k : ℤ), (controlPort k : ℤ)]) ++ us.map (·.onionPort)

section

variable {torProcesses paths c : ℕ} {clients ks : List ℕ} {us sampled : List TorUser}

theorem socksPorts_nodup (h : ks.Nodup) :
    (ks.flatMap fun k => [(socksPort k : ℤ), (controlPort k : ℤ)]).Nodup := by
  rw [List.nodup_flatMap]
  constructor
  · intro k _
    simp [controlPort, socksPort]
  · apply h.imp
    intro j k hne p hp hp'
    simp only [List.mem_cons, List.not_mem_nil, or_false, socksPort, controlPort] at hp hp'
    omega

/-- **Ports.** If there are not too many users on a client, no port is used twice on it. -/
theorem ports_nodup (hsampled : sampleUsers torProcesses paths clients = some sampled)
    (hperm : us.Perm sampled) (hc : c < paths)
    (hks : TorNumbers (us.filter (·.client = c)) ks)
    (hfew : 9052 + 2 * torProcesses + us.countP (·.client = c) ≤ 65535) :
    (ports (us.filter (·.client = c)) ks).Nodup ∧
      ∀ p ∈ ports (us.filter (·.client = c)) ks, 1024 ≤ p ∧ p ≤ 65534 := by
  have hcount : us.countP (·.client = c) = sampled.countP (·.client = c) := hperm.countP_eq _
  have honion : ((us.filter (·.client = c)).map (·.onionPort)).Perm
      ((List.range (us.countP (·.client = c))).map fun k : ℕ => 65534 - (k : ℤ)) := by
    rw [hcount, ← onionPort_eq hsampled hc]
    exact (hperm.filter _).map _
  -- a user's port is above those of the tor processes
  have hhigh : ∀ p ∈ (us.filter (·.client = c)).map (·.onionPort),
      (9051 + 2 * torProcesses : ℤ) < p ∧ p ≤ 65534 := by
    intro p hp
    obtain ⟨k, hk, rfl⟩ := List.mem_map.mp (honion.mem_iff.mp hp)
    have hk := List.mem_range.mp hk
    omega
  have hnumber : ∀ k ∈ 0 :: ks, k ≤ torProcesses := by
    intro k hk
    rcases List.mem_cons.mp hk with rfl | hk
    · exact Nat.zero_le _
    · obtain ⟨-, u, hu, rfl⟩ := (hks.mem_iff k).mp hk
      exact ((sampleFrom_eq_some hsampled).2.1 u
        (hperm.mem_iff.mp (List.mem_filter.mp hu).1)).1
  have hlow : ∀ p ∈ (0 :: ks).flatMap fun k => [(socksPort k : ℤ), (controlPort k : ℤ)],
      1024 ≤ p ∧ p ≤ 9051 + 2 * torProcesses := by
    intro p hp
    obtain ⟨k, hk, hp⟩ := List.mem_flatMap.mp hp
    have hle := hnumber k hk
    simp only [List.mem_cons, List.not_mem_nil, or_false, socksPort, controlPort] at hp
    omega
  constructor
  · rw [ports, List.nodup_append]
    have hzero : 0 ∉ ks := fun h => ((hks.mem_iff 0).mp h).1 rfl
    refine ⟨socksPorts_nodup (List.nodup_cons.mpr ⟨hzero, hks.nodup⟩), ?_, ?_⟩
    · rw [honion.nodup_iff]
      apply List.nodup_range.map
      intro j k heq
      simp only at heq
      omega
    · intro p hp q hq
      have hp := hlow p hp
      have hq := hhigh q hq
      omega
  · intro p hp
    rcases List.mem_append.mp hp with hp | hp
    · have hp := hlow p hp
      omega
    · have hp := hhigh p hp
      omega

end

theorem ports_nodup_torUsers : sampleUsers 2 1 [0, 0, 0] =
      some [⟨0, 0, 1, 65534⟩, ⟨1, 0, 2, 65533⟩, ⟨2, 0, 1, 65532⟩] ∧
    (ports torUsers [1, 2]).Nodup := by
  have hks : TorNumbers torUsers [1, 2] := by
    refine ⟨by decide, fun k => ?_⟩
    simp only [torUsers, List.mem_cons, List.not_mem_nil, or_false, exists_eq_or_imp,
      exists_eq_left]
    omega
  have hsampled : sampleUsers 2 1 [0, 0, 0] =
      some [⟨0, 0, 1, 65534⟩, ⟨1, 0, 2, 65533⟩, ⟨2, 0, 1, 65532⟩] := rfl
  refine ⟨hsampled, ?_⟩
  exact (ports_nodup (c := 0) hsampled (by decide : torUsers.Perm _) (by decide) hks
    (by decide)).1

end SignalSim.Mnettools
