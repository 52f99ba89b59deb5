import Mathlib.Data.List.Sort
import SignalSim.Foundations.Text

/-!
# The addresses of the servers

`mnettools.py` gives every message server and the web server that goes with it an address of a
block of 256, each time the first one that is free. `get_free_ip` ends the program if there is
none.

## Main definitions

* `getFreeIp`, `addServers` — the search, and the loop over the servers
* `freeOctets` — the addresses that are free at the start

## Main results

* `addServers_eq` — the addresses are the first free ones, in order and in pairs
-/

namespace SignalSim.Mnettools

def ipAddress (i : ℕ) : Text := "1.1.1.".toList ++ Text.ofNat i

/-- `get_free_ip`; `none` is `exit(1)`. -/
def getFreeIp (start : ℕ) (takenIps : List Text) : Option Text :=
  ((List.range' start (256 - start)).map ipAddress).find? (· ∉ takenIps)

/-- `int(ip.split('.')[-1])`. -/
def lastOctet (ip : Text) : Option ℕ := (ip.splitOn '.').getLast?.bind Text.parseDigits

/-- The loop over the servers, each with the address of its web server. -/
def addServers : ℕ → List Text → Option (List (Text × Text))
  | 0, _ => some []
  | servers + 1, takenIps => do
    let serverIp ← getFreeIp 2 takenIps
    let octet ← lastOctet serverIp
    let webIp ← getFreeIp (octet + 1) takenIps
    let rest ← addServers servers (serverIp :: webIp :: takenIps)
    return (serverIp, webIp) :: rest

/-- The last parts of the free addresses. -/
def freeOctets (takenIps : List Text) : List ℕ :=
  (List.range' 2 254).filter fun i => ipAddress i ∉ takenIps

variable {start servers a b i : ℕ} {takenIps : List Text} {rest : List ℕ} {ip : Text}

theorem ipAddress_injective : Function.Injective ipAddress := fun _ _ h =>
  Text.ofNat_injective (List.append_cancel_left h)

theorem lastOctet_ipAddress (i : ℕ) : lastOctet (ipAddress i) = some i := by
  have hdigits : '.' ∉ Text.ofNat i := fun h => absurd (Text.isDigit_of_mem_ofNat h) (by decide)
  have hsplit : (ipAddress i).splitOn '.' = [['1'], ['1'], ['1'], Text.ofNat i] := by
    have hip : ipAddress i = ['1'] ++ '.' :: (['1'] ++ '.' :: (['1'] ++ '.' :: Text.ofNat i)) := rfl
    rw [hip, List.splitOn_append_cons_self_of_not_mem (by decide),
      List.splitOn_append_cons_self_of_not_mem (by decide),
      List.splitOn_append_cons_self_of_not_mem (by decide), List.splitOn_eq_singleton hdigits]
  rw [lastOctet, hsplit]
  exact Text.parseDigits_ofNat

theorem freeOctets_pairwise : (freeOctets takenIps).Pairwise (· < ·) :=
  List.Pairwise.filter _ List.pairwise_lt_range'

/-- The search finds the first free address from the start on. -/
theorem getFreeIp_eq (h : 2 ≤ start) :
    getFreeIp start takenIps =
      ((freeOctets takenIps).filter (start ≤ ·)).head?.map ipAddress := by
  have hrange : (List.range' 2 254).filter (start ≤ ·) = List.range' start (256 - start) := by
    apply (List.Pairwise.filter _ List.pairwise_lt_range').eq_of_mem_iff List.pairwise_lt_range'
    intro i
    simp only [List.mem_filter, List.mem_range'_1, decide_eq_true_eq]
    omega
  rw [getFreeIp, List.find?_map, freeOctets, List.filter_comm, hrange, List.head?_filter]
  rfl

/-- The first free address is the server's, the second one that of the web server. -/
theorem getFreeIp_of_cons (h : freeOctets takenIps = a :: rest) :
    getFreeIp 2 takenIps = some (ipAddress a) ∧
      getFreeIp (a + 1) takenIps = rest.head?.map ipAddress := by
  have hsorted := @freeOctets_pairwise takenIps
  have hmem : ∀ i ∈ freeOctets takenIps, 2 ≤ i := by
    intro i hi
    exact (List.mem_range'_1.mp (List.mem_filter.mp hi).1).1
  rw [h] at hsorted hmem
  obtain ⟨hlt, -⟩ := List.pairwise_cons.mp hsorted
  have htwo := hmem a List.mem_cons_self
  constructor
  · rw [getFreeIp_eq le_rfl, h, List.filter_cons_of_pos (by simpa using htwo)]
    rfl
  · rw [getFreeIp_eq (by omega), h, List.filter_cons_of_neg (by simp)]
    rw [List.filter_eq_self.mpr fun i hi => decide_eq_true (Nat.succ_le_of_lt (hlt i hi))]

/-- The addresses that have been given are not free any more. -/
theorem freeOctets_cons (h : freeOctets takenIps = a :: b :: rest) :
    freeOctets (ipAddress a :: ipAddress b :: takenIps) = rest := by
  have hsorted := @freeOctets_pairwise takenIps
  rw [h] at hsorted
  obtain ⟨ha, hsorted⟩ := List.pairwise_cons.mp hsorted
  obtain ⟨hb, -⟩ := List.pairwise_cons.mp hsorted
  have hfree : freeOctets (ipAddress a :: ipAddress b :: takenIps) =
      (freeOctets takenIps).filter fun i => i ≠ a ∧ i ≠ b := by
    rw [freeOctets, freeOctets, List.filter_filter]
    apply List.filter_congr
    intro i _
    simp [ipAddress_injective.eq_iff, Bool.and_assoc]
  rw [hfree, h, List.filter_cons_of_neg (by simp), List.filter_cons_of_neg (by simp)]
  apply List.filter_eq_self.mpr
  intro i hi
  have hia := ha i (List.mem_cons_of_mem b hi)
  have hib := hb i hi
  exact decide_eq_true ⟨hia.ne', hib.ne'⟩

/-- **Addresses.** There are enough addresses exactly if twice as many are free as there are
servers, and then the servers and their web servers take the first ones in turn. -/
theorem addServers_eq (servers : ℕ) (takenIps : List Text) :
    ((addServers servers takenIps).isSome ↔ 2 * servers ≤ (freeOctets takenIps).length) ∧
      ∀ ps, addServers servers takenIps = some ps →
        ps.flatMap (fun p => [p.1, p.2]) =
          ((freeOctets takenIps).take (2 * servers)).map ipAddress := by
  induction servers generalizing takenIps with
  | zero =>
    refine ⟨iff_of_true rfl (Nat.zero_le _), ?_⟩
    rintro ps ⟨⟩
    rfl
  | succ servers ih =>
    match hfree : freeOctets takenIps with
    | [] =>
      have hnone : getFreeIp 2 takenIps = none := by
        rw [getFreeIp_eq le_rfl, hfree]
        rfl
      rw [addServers, hnone]
      exact ⟨iff_of_false Bool.noConfusion (by simp), nofun⟩
    | [a] =>
      obtain ⟨hserver, hweb⟩ := getFreeIp_of_cons hfree
      simp only [addServers, hserver, Option.bind_eq_bind, Option.bind_some, lastOctet_ipAddress,
        hweb]
      refine ⟨iff_of_false Bool.noConfusion ?_, nofun⟩
      rw [List.length_singleton]
      omega
    | a :: b :: rest =>
      obtain ⟨hserver, hweb⟩ := getFreeIp_of_cons hfree
      obtain ⟨hsome, hall⟩ := ih (ipAddress a :: ipAddress b :: takenIps)
      rw [freeOctets_cons hfree] at hsome hall
      simp only [addServers, hserver, Option.bind_eq_bind, Option.bind_some, lastOctet_ipAddress,
        hweb, List.head?_cons, Option.map_some]
      constructor
      · have hmore : ((addServers servers (ipAddress a :: ipAddress b :: takenIps)).bind fun ps =>
            some ((ipAddress a, ipAddress b) :: ps)).isSome =
              (addServers servers (ipAddress a :: ipAddress b :: takenIps)).isSome := by
          cases addServers servers (ipAddress a :: ipAddress b :: takenIps) <;> rfl
        refine (Bool.eq_iff_iff.mp hmore).trans (hsome.trans ?_)
        rw [List.length_cons, List.length_cons]
        omega
      · intro ps hps
        obtain ⟨qs, hqs, hps⟩ := Option.bind_eq_some_iff.mp hps
        obtain rfl := Option.some_inj.mp hps
        rw [List.flatMap_cons, hall qs hqs, Nat.mul_succ, List.take_succ_cons, List.take_succ_cons]
        rfl

end SignalSim.Mnettools
