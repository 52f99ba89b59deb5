import SignalSim.Foundations.Words
import SignalSim.Mnettools.Recipients

/-!
# The addresses of onion services

`mnettortools.py` gives every user a port and writes a hosts file with a line for each user, in
which the user's name stands for an address. `gen-onions.sh` puts the onion addresses in with one
`sed` for each user. `parse_hosts_file` of `mgen-peer.rs` reads the file.

## Main definitions

* `TorUser` — a user with the client, the tor process and the port that were chosen
* `sampleUsers` — the choices, which count the ports of each client down
* `hostsFile`, `genOnions`, `parseHostsFile` — the file, the replacements and the table

## Main results

* `onionPort_eq` — the port of a user
* `hosts_resolve` — the table has the onion address of every user, and nothing else
-/

namespace SignalSim.Mnettools

open SignalSim.Mgen.Peer

/-! ### Users -/

/-- A user of `mnettortools.py`. -/
structure TorUser where
  id : ℕ
  /-- The index of the client's directory among the paths. -/
  client : ℕ
  torProcess : ℕ
  onionPort : ℤ
  deriving DecidableEq

/-- `name`. -/
def TorUser.name (u : TorUser) : Text := "user".toList ++ Text.ofNat u.id

/-- `sample_user`, with the client that was chosen. `counters` has the last port of each client;
there may be no client to choose. -/
def sampleUser (torProcesses id client : ℕ) (counters : List ℤ) : Option (TorUser × List ℤ) := do
  let counter ← counters[client]?
  let port := counter - 1
  let torProcess := if torProcesses > 0 then id % torProcesses + 1 else 0
  return (⟨id, client, torProcess, port⟩, counters.set client port)

/-- The users from `id` on. -/
def sampleFrom (torProcesses : ℕ) : ℕ → List ℕ → List ℤ → Option (List TorUser)
  | _, [], _ => some []
  | id, client :: clients, counters => do
    let (user, counters) ← sampleUser torProcesses id client counters
    let users ← sampleFrom torProcesses (id + 1) clients counters
    return user :: users

/-- All users, with the client that is chosen for each of them. -/
def sampleUsers (torProcesses paths : ℕ) (clients : List ℕ) : Option (List TorUser) :=
  sampleFrom torProcesses 0 clients (List.replicate paths 65535)

section

variable {torProcesses id client paths : ℕ} {counters counters' : List ℤ} {u : TorUser}
  {us : List TorUser} {clients : List ℕ}

theorem sampleUser_eq_some
    (h : sampleUser torProcesses id client counters = some (u, counters')) :
    ∃ counter, counters[client]? = some counter ∧ u.id = id ∧ u.client = client ∧
      u.onionPort = counter - 1 ∧ counters' = counters.set client (counter - 1) ∧
      u.torProcess ≤ torProcesses ∧ (u.torProcess = 0 ↔ torProcesses = 0) := by
  obtain ⟨counter, hcounter, h⟩ := Option.bind_eq_some_iff.mp h
  obtain ⟨rfl, rfl⟩ := Prod.mk.inj (Option.some_inj.mp h)
  refine ⟨counter, hcounter, rfl, rfl, rfl, rfl, ?_⟩
  dsimp only
  split
  case isTrue hpos =>
    have hlt := Nat.mod_lt id hpos
    omega
  case isFalse hpos => omega

/-- The number of a user is its position, and the ports of a client are counted down. -/
theorem sampleFrom_eq_some (h : sampleFrom torProcesses id clients counters = some us) :
    us.map (·.id) = List.range' id us.length ∧
      (∀ u ∈ us, u.torProcess ≤ torProcesses ∧ (u.torProcess = 0 ↔ torProcesses = 0)) ∧
      ∀ (client : ℕ) (counter : ℤ), counters[client]? = some counter →
        (us.filter (·.client = client)).map (·.onionPort) =
          (List.range (us.countP (·.client = client))).map fun k : ℕ => counter - 1 - k := by
  induction clients generalizing id counters us with
  | nil =>
    obtain rfl := Option.some_inj.mp h
    exact ⟨rfl, fun u hu => (nomatch hu), fun _ _ _ => rfl⟩
  | cons c clients ih =>
    obtain ⟨⟨u, counters'⟩, huser, h⟩ := Option.bind_eq_some_iff.mp h
    obtain ⟨rest, hrest, h⟩ := Option.bind_eq_some_iff.mp h
    obtain rfl := Option.some_inj.mp h
    obtain ⟨counter, hcounter, hid, hclient, hport, rfl, htor⟩ := sampleUser_eq_some huser
    obtain ⟨hids, htors, hports⟩ := ih hrest
    refine ⟨?_, List.forall_mem_cons.mpr ⟨htor, htors⟩, ?_⟩
    · rw [List.map_cons, hids, hid, List.length_cons, List.range'_succ]
    · intro client last hlast
      by_cases heq : u.client = client
      · -- the client of this user: the others go on from the new counter
        obtain rfl : c = client := hclient.symm.trans heq
        obtain rfl := Option.some_inj.mp (hcounter.symm.trans hlast)
        obtain ⟨hlt, -⟩ := List.getElem?_eq_some_iff.mp hcounter
        have hnext := hports c (counter - 1) (by rw [List.getElem?_set_self hlt])
        rw [List.filter_cons_of_pos (by simpa using heq), List.map_cons, hnext, hport,
          List.countP_cons_of_pos (by simpa using heq), List.range_succ_eq_map, List.map_cons,
          List.map_map]
        congr 1
        · simp
        · apply List.map_congr_left
          intro k _
          simp only [Function.comp_apply, Nat.cast_succ]
          omega
      · have hne : c ≠ client := fun h => heq (hclient.trans h)
        rw [List.filter_cons_of_neg (by simpa using heq),
          List.countP_cons_of_neg (by simpa using heq)]
        exact hports client last (by rwa [List.getElem?_set_ne hne])

/-- The clients are those that were chosen. -/
theorem sampleFrom_clients (h : sampleFrom torProcesses id clients counters = some us) :
    us.map (·.client) = clients ∧ ∀ u ∈ us, u.client < counters.length := by
  induction clients generalizing id counters us with
  | nil =>
    obtain rfl := Option.some_inj.mp h
    exact ⟨rfl, fun u hu => (nomatch hu)⟩
  | cons c clients ih =>
    obtain ⟨⟨u, counters'⟩, huser, h⟩ := Option.bind_eq_some_iff.mp h
    obtain ⟨rest, hrest, h⟩ := Option.bind_eq_some_iff.mp h
    obtain rfl := Option.some_inj.mp h
    obtain ⟨counter, hcounter, -, hclient, -, rfl, -⟩ := sampleUser_eq_some huser
    obtain ⟨hclients, hlt⟩ := ih hrest
    rw [List.length_set] at hlt
    refine ⟨by rw [List.map_cons, hclient, hclients], List.forall_mem_cons.mpr ⟨?_, hlt⟩⟩
    rw [hclient]
    exact (List.getElem?_eq_some_iff.mp hcounter).1

/-- **Ports.** The ports of the users of a client are counted down from 65534. -/
theorem onionPort_eq (h : sampleUsers torProcesses paths clients = some us) {client : ℕ}
    (hclient : client < paths) :
    (us.filter (·.client = client)).map (·.onionPort) =
      (List.range (us.countP (·.client = client))).map fun k : ℕ => 65534 - (k : ℤ) := by
  apply (sampleFrom_eq_some h).2.2 client 65535
  rw [List.getElem?_replicate, if_pos hclient]

/-- No two users have the same port at the same client. -/
theorem eq_of_onionPort_eq (h : sampleUsers torProcesses paths clients = some us) {v : TorUser}
    (hu : u ∈ us) (hv : v ∈ us) (hclient : u.client = v.client)
    (hport : u.onionPort = v.onionPort) : u = v := by
  have hlt : v.client < paths := by
    have hlt := (sampleFrom_clients h).2 v hv
    rwa [List.length_replicate] at hlt
  have hports : ((us.filter (·.client = v.client)).map (·.onionPort)).Nodup := by
    rw [onionPort_eq h hlt]
    refine List.nodup_range.map fun j k heq => ?_
    omega
  have hmem (x : TorUser) (hx : x ∈ us) (hc : x.client = v.client) :
      x ∈ us.filter (·.client = v.client) := List.mem_filter.mpr ⟨hx, decide_eq_true hc⟩
  exact List.inj_on_of_nodup_map hports (hmem u hu hclient) (hmem v hv rfl) hport

theorem ids_eq_range (h : sampleUsers torProcesses paths clients = some us) :
    us.map (·.id) = List.range clients.length := by
  have hlen : us.length = clients.length := by
    rw [← (sampleFrom_clients h).1, List.length_map]
  rw [(sampleFrom_eq_some h).1, hlen, List.range_eq_range']

end

/-! ### The hosts file -/

/-- The line of a user, with an address. -/
def hostsLine (u : TorUser) (address : Text) : Text :=
  address ++ ':' :: Text.ofInt u.onionPort ++ ' ' :: u.name

/-- `hosts_lines`, in which the address is still the user's name. -/
def hostsFile (us : List TorUser) : Text :=
  us.flatMap fun u => Text.line (hostsLine u u.name)

/-- `s/^$user:/$onion:/`, on a line. -/
def replaceUser (user onion line : Text) : Text :=
  if user ++ [':'] <+: line then onion ++ ':' :: line.drop (user.length + 1) else line

/-- The replacements for the directories of the users, one after the other. -/
def genOnions (onion : ℕ → Text) (dirs : List TorUser) (file : Text) : Text :=
  dirs.foldl (fun file v => Text.mapLines (replaceUser v.name (onion v.id)) file) file

/-- `parse_hosts_file`. -/
def parseHostsFile (contents : Text) : HostsMap :=
  (Text.lines contents).foldl (fun ret line =>
    match Text.words line with
    | [] => ret
    | addr :: names =>
      names.foldl (fun ret name => ret.insert (String.ofList name) (String.ofList addr)) ret) ∅

/-- An onion address is a word without a colon that ends in `.onion`. -/
structure OnionAddress (t : Text) : Prop where
  word : Text.Word t
  no_colon : ':' ∉ t
  onion : ".onion".toList <:+ t

section

variable {u v : TorUser} {us vs : List TorUser} {onion : ℕ → Text} {addr : TorUser → Text}
  {a b rest : Text} {c : Char}

theorem TorUser.name_injective (h : u.name = v.name) : u.id = v.id :=
  Text.ofNat_injective (List.append_cancel_left h)

theorem TorUser.mem_name (h : c ∈ u.name) : c ∈ "user".toList ∨ c.isDigit := by
  rcases List.mem_append.mp h with h | h
  · exact .inl h
  · exact .inr (Text.isDigit_of_mem_ofNat h)

theorem TorUser.not_mem_name (hc : c ∉ "user".toList) (hdigit : c.isDigit = false) :
    c ∉ u.name := by
  intro h
  rcases u.mem_name h with h | h
  · exact hc h
  · cases hdigit.symm.trans h

theorem TorUser.word_name (u : TorUser) : Text.Word u.name where
  ne_nil := List.append_ne_nil_of_left_ne_nil (by decide) _
  no_space := by
    intro c hc
    rcases u.mem_name hc with h | h
    · have hword : "user".toList.Forall (Text.isAsciiWhitespace · = false) := by decide
      exact List.forall_iff_forall_mem.mp hword c h
    · by_contra hspace
      have hspace : Text.isAsciiWhitespace c = true := by simpa using hspace
      cases h.symm.trans (Text.not_isDigit_of_isAsciiWhitespace hspace)

theorem OnionAddress.ne_name (h : OnionAddress a) : a ≠ u.name := by
  rintro rfl
  have hdot : '.' ∈ u.name := h.onion.mem (by decide)
  exact TorUser.not_mem_name (by decide) (by decide) hdot

/-- What a text without a colon begins with before its colon. -/
theorem append_colon_prefix_iff (ha : ':' ∉ a) (hb : ':' ∉ b) :
    a ++ [':'] <+: b ++ ':' :: rest ↔ a = b := by
  constructor
  · rintro ⟨t, ht⟩
    have hnot (x : Text) (hx : ':' ∉ x) : ∀ c ∈ x, decide (c ≠ ':') = true := fun c hc =>
      decide_eq_true fun heq => hx (heq ▸ hc)
    have htake := congrArg (List.takeWhile (· ≠ ':')) ht
    rw [List.append_assoc, List.takeWhile_append_of_pos (hnot a ha),
      List.takeWhile_append_of_pos (hnot b hb)] at htake
    simpa using htake
  · rintro rfl
    exact ⟨rest, by simp⟩

/-- A replacement changes the line of the user if it has not been changed before. -/
theorem replaceUser_hostsLine (ha : ':' ∉ a) (b : Text) :
    replaceUser v.name b (hostsLine u a) = hostsLine u (if v.name = a then b else a) := by
  have hname : ':' ∉ v.name := TorUser.not_mem_name (by decide) (by decide)
  rw [replaceUser, hostsLine, List.append_assoc, List.cons_append,
    if_congr (append_colon_prefix_iff hname ha) rfl rfl]
  split
  case isTrue heq =>
    subst heq
    rw [hostsLine, List.append_assoc, List.cons_append, List.append_cons v.name,
      List.drop_left' (by simp)]
  case isFalse => rw [hostsLine, List.append_assoc, List.cons_append]

/-- An address in the file is the name of the user or the onion address. -/
def Known (onion : ℕ → Text) (us : List TorUser) (addr : TorUser → Text) : Prop :=
  ∀ u ∈ us, addr u = u.name ∨ addr u = onion u.id

theorem not_mem_hostsLine (hc : c = '\n' ∨ c = '\r') (ha : Text.Word a) : c ∉ hostsLine u a := by
  have hspace : Text.isAsciiWhitespace c = true := by
    rcases hc with rfl | rfl <;> rfl
  have hword {w : Text} (hw : Text.Word w) : c ∉ w := by
    intro hmem
    cases (hw.no_space c hmem).symm.trans hspace
  have hport : c ∉ Text.ofInt u.onionPort := by
    intro hmem
    cases (Text.no_space_ofInt hmem).symm.trans hspace
  intro hmem
  simp only [hostsLine, List.mem_append, List.mem_cons] at hmem
  rcases hmem with (h | rfl | h) | rfl | h
  · exact hword ha h
  · rcases hc with h | h <;> exact absurd h (by decide)
  · exact hport h
  · rcases hc with h | h <;> exact absurd h (by decide)
  · exact hword u.word_name h

theorem Known.word (h : Known onion us addr) (honion : ∀ u ∈ us, OnionAddress (onion u.id))
    (hu : u ∈ us) : Text.Word (addr u) := by
  rcases h u hu with heq | heq
  · exact heq ▸ u.word_name
  · exact heq ▸ (honion u hu).word

theorem Known.no_colon (h : Known onion us addr) (honion : ∀ u ∈ us, OnionAddress (onion u.id))
    (hu : u ∈ us) : ':' ∉ addr u := by
  rcases h u hu with heq | heq
  · exact heq ▸ TorUser.not_mem_name (by decide) (by decide)
  · exact heq ▸ (honion u hu).no_colon

/-- One replacement. -/
theorem mapLines_replaceUser (h : Known onion us addr)
    (honion : ∀ u ∈ us, OnionAddress (onion u.id)) :
    Text.mapLines (replaceUser v.name (onion v.id))
        (us.flatMap fun u => Text.line (hostsLine u (addr u))) =
      us.flatMap fun u =>
        Text.line (hostsLine u (if v.name = addr u then onion v.id else addr u)) := by
  have hlines : ∀ l ∈ us.map fun u => hostsLine u (addr u), '\n' ∉ l := by
    intro l hl
    obtain ⟨u, hu, rfl⟩ := List.mem_map.mp hl
    exact not_mem_hostsLine (.inl rfl) (h.word honion hu)
  have hnil : replaceUser v.name (onion v.id) [] = [] := by
    rw [replaceUser, if_neg]
    intro hprefix
    have hlen := hprefix.length_le
    simp at hlen
  have hmap := Text.mapLines_flatMap_line hlines hnil
  rw [List.flatMap_map, List.map_map, List.flatMap_map] at hmap
  rw [hmap]
  exact List.flatMap_congr fun u hu =>
    congrArg Text.line (replaceUser_hostsLine (h.no_colon honion hu) _)

/-- All replacements. Whoever has a directory has the onion address. -/
theorem genOnions_eq (honion : ∀ u ∈ us, OnionAddress (onion u.id)) (h : Known onion us addr) :
    ∃ addr' : TorUser → Text,
      genOnions onion vs (us.flatMap fun u => Text.line (hostsLine u (addr u))) =
        us.flatMap (fun u => Text.line (hostsLine u (addr' u))) ∧
      ∀ u ∈ us, addr' u = onion u.id ∨ addr' u = addr u ∧ u.id ∉ vs.map (·.id) := by
  induction vs generalizing addr with
  | nil => exact ⟨addr, rfl, fun u _ => .inr ⟨rfl, List.not_mem_nil⟩⟩
  | cons v vs ih =>
    have hstep : ∀ u ∈ us, (if v.name = addr u then onion v.id else addr u) = onion u.id ∨
        (if v.name = addr u then onion v.id else addr u) = addr u ∧ u.id ≠ v.id := by
      intro u hu
      rcases h u hu with heq | heq
      · by_cases hv : v.name = addr u
        · rw [if_pos hv, TorUser.name_injective (hv.trans heq)]
          exact .inl rfl
        · rw [if_neg hv, heq]
          refine .inr ⟨rfl, fun hid => hv ?_⟩
          rw [heq, TorUser.name, TorUser.name, hid]
      · have hne : v.name ≠ addr u := fun hv => (honion u hu).ne_name (heq.symm.trans hv.symm)
        rw [if_neg hne]
        exact .inl heq
    obtain ⟨addr', hfile, hall⟩ := ih fun u hu => (hstep u hu).elim .inr fun h' =>
      (h u hu).imp h'.1.trans h'.1.trans
    refine ⟨addr', ?_, ?_⟩
    · rw [genOnions, List.foldl_cons, mapLines_replaceUser h honion]
      exact hfile
    · intro u hu
      rcases hall u hu with heq | ⟨heq, hnot⟩
      · exact .inl heq
      · rcases hstep u hu with hadd | ⟨hadd, hid⟩
        · exact .inl (heq.trans hadd)
        · refine .inr ⟨heq.trans hadd, ?_⟩
          rw [List.map_cons, List.mem_cons, not_or]
          exact ⟨hid, hnot⟩

/-- The table of a file in which every line has an address, a port and a name. -/
theorem parseHostsFile_eq (hword : ∀ u ∈ us, Text.Word (addr u)) :
    parseHostsFile (us.flatMap fun u => Text.line (hostsLine u (addr u))) =
      us.foldl (fun ret u => ret.insert (String.ofList u.name)
        (String.ofList (addr u ++ ':' :: Text.ofInt u.onionPort))) ∅ := by
  have hlines : Text.lines (us.flatMap fun u => Text.line (hostsLine u (addr u))) =
      us.map fun u => hostsLine u (addr u) := by
    have hinline : ∀ l ∈ us.map fun u => hostsLine u (addr u), Text.Inline l := by
      intro l hl
      obtain ⟨u, hu, rfl⟩ := List.mem_map.mp hl
      intro c hc
      exact ⟨fun heq => not_mem_hostsLine (.inl heq) (hword u hu) hc,
        fun heq => not_mem_hostsLine (.inr heq) (hword u hu) hc⟩
    rw [← Text.lines_flatMap_line hinline, List.flatMap_map]
  rw [parseHostsFile, hlines, List.foldl_map]
  apply List.foldl_ext
  intro ret u hu
  have haddr : Text.Word (addr u ++ ':' :: Text.ofInt u.onionPort) := by
    refine ⟨List.append_ne_nil_of_left_ne_nil (hword u hu).ne_nil _, ?_⟩
    intro c hc
    rcases List.mem_append.mp hc with hc | hc
    · exact (hword u hu).no_space c hc
    · rcases List.mem_cons.mp hc with rfl | hc
      · rfl
      · exact Text.no_space_ofInt hc
  have hwords : Text.words (hostsLine u (addr u)) =
      [addr u ++ ':' :: Text.ofInt u.onionPort, u.name] := by
    rw [hostsLine, Text.words_append_space haddr, Text.words_of_word u.word_name]
  simp only [hwords, List.foldl_cons, List.foldl_nil]

/-- The file after the replacements for all directories. -/
theorem genOnions_hostsFile (honion : ∀ u ∈ us, OnionAddress (onion u.id))
    (hvs : ∀ u ∈ us, u.id ∈ vs.map (·.id)) : genOnions onion vs (hostsFile us) =
      us.flatMap fun u => Text.line (hostsLine u (onion u.id)) := by
  have hknown : Known onion us TorUser.name := fun u _ => .inl rfl
  obtain ⟨addr, hfile, haddr⟩ := @genOnions_eq us vs onion _ honion hknown
  rw [hostsFile, hfile]
  refine List.flatMap_congr fun u hu => ?_
  rw [(haddr u hu).resolve_right fun h => h.2 (hvs u hu)]

/-- The table has the addresses under the names. -/
theorem lookup_parseHostsFile (hids : (us.map (·.id)).Nodup) (hword : ∀ u ∈ us, Text.Word (addr u))
    (name address : String) :
    (parseHostsFile (us.flatMap fun u => Text.line (hostsLine u (addr u)))).lookup name =
        some address ↔
      ∃ u ∈ us, name = userName u.id ∧
        address = String.ofList (addr u ++ ':' :: Text.ofInt u.onionPort) := by
  have hname : (us.map fun u => String.ofList u.name).Nodup := by
    refine List.Nodup.map_on ?_ (List.Nodup.of_map _ hids)
    intro u hu v hv heq
    exact List.inj_on_of_nodup_map hids hu hv
      (TorUser.name_injective (String.ofList_injective heq))
  rw [parseHostsFile_eq hword]
  refine (Entry.lookup_foldl_insert_nodup
    (fun u : TorUser => String.ofList u.name) _ hname).trans ?_
  refine exists_congr fun u => and_congr_right fun _ => ?_
  rw [eq_comm, @eq_comm _ _ address]
  rfl

/-- **Hosts.** After the replacements for all directories, in whatever order they are made and the
lines were written, the peers find the onion address and the port of each user under the name, and
no other name. -/
theorem hosts_resolve (hids : (us.map (·.id)).Nodup) (honion : ∀ u ∈ us, OnionAddress (onion u.id))
    (hvs : ∀ u ∈ us, u.id ∈ vs.map (·.id)) (name address : String) :
    (parseHostsFile (genOnions onion vs (hostsFile us))).lookup name = some address ↔
      ∃ u ∈ us, name = userName u.id ∧
        address = String.ofList (onion u.id ++ ':' :: Text.ofInt u.onionPort) := by
  rw [genOnions_hostsFile honion hvs]
  exact @lookup_parseHostsFile us (fun u => onion u.id) hids (fun u hu => (honion u hu).word) name
    address

end

/-- An address for each user. -/
def letterOnion (id : ℕ) : Text := List.replicate (id + 1) 'a' ++ ".onion".toList

theorem onionAddress_letterOnion (id : ℕ) : OnionAddress (letterOnion id) := by
  refine ⟨⟨List.append_ne_nil_of_right_ne_nil _ (by decide), ?_⟩, ?_, List.suffix_append _ _⟩
  · intro c hc
    rcases List.mem_append.mp hc with hc | hc
    · rw [List.eq_of_mem_replicate hc]
      rfl
    · have hword : ".onion".toList.Forall (Text.isAsciiWhitespace · = false) := by decide
      exact List.forall_iff_forall_mem.mp hword c hc
  · intro hc
    rcases List.mem_append.mp hc with hc | hc
    · cases List.eq_of_mem_replicate hc
    · exact absurd hc (by decide)

theorem hosts_resolve_prefix :
    (parseHostsFile (genOnions letterOnion [⟨1, 0, 0, 65534⟩, ⟨11, 0, 0, 65533⟩]
      (hostsFile [⟨11, 0, 0, 65533⟩, ⟨1, 0, 0, 65534⟩]))).lookup (userName 1) =
        some "aa.onion:65534" := by
  apply (hosts_resolve (by decide) (fun u _ => onionAddress_letterOnion u.id) (by decide) _ _).mpr
  exact ⟨⟨1, 0, 0, 65534⟩, by decide, rfl, by decide⟩

end SignalSim.Mnettools
