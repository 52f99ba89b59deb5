import SignalSim.Foundations.Keys
import SignalSim.Mgentools.BadRecords
import SignalSim.Mgentools.Statistics

/-!
# The order of the lines

The conversations of a process print their lines to one file, in an order that depends on the
scheduler, and `core` reads the files one after the other. A receipt is reported by whoever sent the
message, so what counts for it are earlier lines of the same conversation. Hence the numbers that
are written do not depend on how the lines of different conversations are interleaved, and neither
do they depend on the order of the files.

## Main definitions

* `SameLines` — every conversation has the same lines in the same order
* `Serializers.Same` — the same numbers are written, in some order

## Main results

* `receipts_filter` — the receipts for the messages of a conversation
* `core_same` — what is written for interleaved logs
-/

namespace SignalSim.Mgentools

variable {F : Type} {rs rs' : List (Record F)} {r : Record F} {m : Member}

/-- Every conversation has the same lines in the same order. -/
def SameLines (rs rs' : List (Record F)) : Prop :=
  ∀ m, rs.filter (·.member = m) = rs'.filter (·.member = m)

/-- The same numbers are written, in some order. -/
structure Serializers.Same (s t : Serializers F) : Prop where
  rttAll : s.rttAll.Perm t.rttAll
  rttTimeout : s.rttTimeout.Perm t.rttTimeout
  rttMean : s.rttMean.Perm t.rttMean
  sentCount : s.sentCount.Perm t.sentCount
  timeoutBySend : s.timeoutBySend.Perm t.timeoutBySend
  timeoutByReceive : s.timeoutByReceive.Perm t.timeoutByReceive

/-! ### Orders -/

theorem SameLines.perm (h : SameLines rs rs') : rs.Perm rs' := perm_of_filter_key_eq Record.member h

@[refl] theorem Serializers.Same.refl (s : Serializers F) : s.Same s :=
  ⟨.refl _, .refl _, .refl _, .refl _, .refl _, .refl _⟩

theorem Serializers.Same.trans {s t u : Serializers F} (hst : s.Same t) (htu : t.Same u) :
    s.Same u where
  rttAll := hst.rttAll.trans htu.rttAll
  rttTimeout := hst.rttTimeout.trans htu.rttTimeout
  rttMean := hst.rttMean.trans htu.rttMean
  sentCount := hst.sentCount.trans htu.sentCount
  timeoutBySend := hst.timeoutBySend.trans htu.timeoutBySend
  timeoutByReceive := hst.timeoutByReceive.trans htu.timeoutByReceive

theorem Serializers.Same.append {s s' t t' : Serializers F} (hs : s.Same s') (ht : t.Same t') :
    (s.append t).Same (s'.append t') where
  rttAll := hs.rttAll.append ht.rttAll
  rttTimeout := hs.rttTimeout.append ht.rttTimeout
  rttMean := hs.rttMean.append ht.rttMean
  sentCount := hs.sentCount.append ht.sentCount
  timeoutBySend := hs.timeoutBySend.append ht.timeoutBySend
  timeoutByReceive := hs.timeoutByReceive.append ht.timeoutByReceive

section

variable {os os' : List (Serializers F)}

theorem foldl_append_same {s s' : Serializers F} (hs : s.Same s')
    (h : List.Forall₂ Serializers.Same os os') :
    (os.foldl .append s).Same (os'.foldl .append s') := by
  induction h generalizing s s' with
  | nil => exact hs
  | cons ho _ ih => exact ih (hs.append ho)

theorem append_append_perm {α : Type} (xs ys zs : List α) :
    (xs ++ ys ++ zs).Perm (xs ++ zs ++ ys) := by
  rw [List.append_assoc, List.append_assoc]
  exact List.perm_append_comm.append_left xs

/-- Outputs in another order. -/
theorem foldl_append_perm (h : os.Perm os') (s : Serializers F) :
    (os.foldl .append s).Same (os'.foldl .append s) := by
  induction h generalizing s with
  | nil => exact .refl s
  | cons o _ ih => exact ih (s.append o)
  | swap o o' os =>
    have hswap : ((s.append o').append o).Same ((s.append o).append o') :=
      ⟨append_append_perm _ _ _, append_append_perm _ _ _, append_append_perm _ _ _,
        append_append_perm _ _ _, append_append_perm _ _ _, append_append_perm _ _ _⟩
    simp only [List.foldl_cons]
    exact foldl_append_same hswap (List.forall₂_same.mpr fun o _ => .refl o)
  | trans _ _ ih ih' => exact (ih s).trans (ih' s)

end

/-! ### The lines of a conversation -/

variable [Floating F] {filterTime : F} {table : BootstrapTable F}

theorem sendsOf_filter :
    sendsOf filterTime (rs.filter (·.member = m)) m = sendsOf filterTime rs m := by
  rw [sendsOf, List.filterMap_filter, sendsOf]
  refine List.filterMap_congr fun r _ => ?_
  by_cases hm : r.member = m
  · simp [hm]
  · cases report filterTime r <;> simp [hm]

/-- A receipt depends on earlier lines of the conversation. -/
theorem counted_filter : counted filterTime table (rs.filter (·.member = r.member)) r =
    counted filterTime table rs r := by
  unfold counted
  simp only [sentTime, sendsOf_filter]

theorem member_of_mem_counted {c : Receipt F} (h : c ∈ (counted filterTime table rs r).toList) :
    c.member = r.member := by
  obtain ⟨-, -, hm, -⟩ := counted_eq_some (Option.mem_toList.mp h)
  exact hm.symm

/-- **Receipts.** Those for the messages of a conversation are in its own lines. -/
theorem receipts_filter (m : Member) :
    (receipts filterTime table rs).filter (·.member = m) =
      receipts filterTime table (rs.filter (·.member = m)) := by
  induction rs using List.reverseRecOn with
  | nil => rfl
  | append_singleton rs r ih =>
    rw [receipts_concat, List.filter_append, ih, List.filter_append]
    by_cases hm : r.member = m
    · subst hm
      have hall : (counted filterTime table rs r).toList.filter (·.member = r.member) =
          (counted filterTime table rs r).toList :=
        List.filter_eq_self.mpr fun c hc => decide_eq_true (member_of_mem_counted hc)
      rw [List.filter_cons_of_pos (by simp), List.filter_nil, receipts_concat, counted_filter,
        hall]
    · have hnone : (counted filterTime table rs r).toList.filter (·.member = m) = [] :=
        List.filter_eq_nil_iff.mpr fun c hc heq =>
          hm ((member_of_mem_counted hc).symm.trans (of_decide_eq_true heq))
      rw [List.filter_cons_of_neg (by simpa using hm), List.filter_nil, hnone, List.append_nil,
        List.append_nil]

namespace SameLines

variable (h : SameLines rs rs')

include h

theorem sendsOf_eq (m : Member) : sendsOf filterTime rs m = sendsOf filterTime rs' m := by
  rw [← sendsOf_filter, h m, sendsOf_filter]

theorem receipts_perm : (receipts filterTime table rs).Perm (receipts filterTime table rs') := by
  refine perm_of_filter_key_eq Receipt.member fun m => ?_
  rw [receipts_filter, h m, receipts_filter]

theorem incomingOf_eq (m : Member) : incomingOf (receipts filterTime table rs) m =
    incomingOf (receipts filterTime table rs') m := by
  simp only [incomingOf, rttsOf, receipts_filter, h m]

theorem outgoingOf_perm (m : Member) : (outgoingOf (receipts filterTime table rs) m).Perm
    (outgoingOf (receipts filterTime table rs') m) :=
  (h.receipts_perm.filter _).map _

/-- The running values are the same, although the receipts of a sender may come in another order. -/
theorem valueOf_eq (m : Member) :
    valueOf filterTime table rs m = valueOf filterTime table rs' m := by
  have hout : (outgoingOf (receipts filterTime table rs) m).Perm
      (outgoingOf (receipts filterTime table rs') m) := h.outgoingOf_perm m
  rw [valueOf, valueOf, h.sendsOf_eq, h.incomingOf_eq, RunningValue.of, RunningValue.of,
    hout.length_eq, lateCount, lateCount, hout.countP_eq, lateCount]

theorem wellFormed (hwf : ∀ r ∈ rs, WellFormed filterTime table r) :
    ∀ r ∈ rs', WellFormed filterTime table r :=
  fun r hr => hwf r (h.perm.mem_iff.mpr hr)

end SameLines

/-! ### One file -/

/-- Every record of a log that is read to its end is well formed. -/
theorem wellFormed_of_foldlM {s s' : LogState F}
    (h : rs.foldlM (processRecord filterTime table) s = .ok s') :
    ∀ r ∈ rs, WellFormed filterTime table r := by
  induction rs generalizing s with
  | nil => exact fun r hr => absurd hr List.not_mem_nil
  | cons r rs ih =>
    rw [List.foldlM_cons] at h
    obtain ⟨s₁, hs₁, h⟩ := Result.bind_eq_ok h
    refine List.forall_mem_cons.mpr ⟨?_, ih h⟩
    apply wellFormed_of_not_bad
    · intro hbad
      obtain ⟨e, -, he⟩ := processRecord_of_bad table s hbad
      rw [he] at hs₁
      cases hs₁
    · by_contra horphan
      rw [processRecord_of_orphan (by simpa using horphan)] at hs₁
      cases hs₁

section Read

variable {serializers serializers' : Serializers F} {s t : LogState F}

/-- The entries of the tables are the same. -/
theorem values_perm (h : SameLines rs rs') (hs : Reads filterTime table serializers rs s)
    (ht : Reads filterTime table serializers' rs' t) : s.values.Perm t.values := by
  have hkeys : s.runningValues.keys.Perm t.runningValues.keys := by
    refine (List.perm_ext_iff_of_nodup (AList.keys_nodup _) (AList.keys_nodup _)).mpr fun m => ?_
    have hnil : outgoingOf (receipts filterTime table rs) m = [] ↔
        outgoingOf (receipts filterTime table rs') m = [] := by
      rw [← List.length_eq_zero_iff, (h.outgoingOf_perm m).length_eq, List.length_eq_zero_iff]
    rw [hs.mem_keys, ht.mem_keys, h.sendsOf_eq, Ne, Ne, Ne, hnil]
  have hvalues := hs.map_values id
  have hvalues' := ht.map_values id
  rw [List.map_id] at hvalues hvalues'
  rw [hvalues, hvalues', List.map_congr_left fun m _ => congrArg id (h.valueOf_eq m)]
  exact hkeys.map _

/-- What is written is the same. -/
theorem written_same {rtts rtts' : List F} {vs vs' : List (RunningValue F)}
    (hrtts : rtts.Perm rtts') (hvs : vs.Perm vs') : (written rtts vs).Same (written rtts' vs') where
  rttAll := hrtts
  rttTimeout := hrtts.filter _
  rttMean := hvs.map _
  sentCount := hvs.map _
  timeoutBySend := (hvs.filter _).map _
  timeoutByReceive := (hvs.filter _).map _

end Read

/-! ### One file -/

section Output

variable {serializers out : Serializers F} {results results' : List (Option (Record F))}

/-- What `process_log` writes for a file. -/
structure IsOutput (filterTime : F) (table : BootstrapTable F) (results : List (Option (Record F)))
    (out : Serializers F) : Prop where
  exists_readLog : ∃ s, readLog filterTime table ⟨∅, ∅, .empty⟩ results = .ok s ∧
    (∀ v ∈ s.values, v.Settled) ∧
    out = written ((receipts filterTime table results.reduceOption).map (·.rtt)) s.values

/-- It is written behind what has been written before. -/
theorem processLog_eq_ok_iff : processLog filterTime table serializers results = .ok out ↔
    ∃ o, IsOutput filterTime table results o ∧ out = serializers.append o := by
  constructor
  · intro h
    obtain ⟨s, hs, hv, rfl⟩ := processLog_eq_ok h
    obtain ⟨t, ht, hrunning⟩ :=
      readLog_congr (s := ⟨∅, ∅, serializers⟩) (t := ⟨∅, ∅, .empty⟩) rfl rfl hs
    have hvalues : s.values = t.values := by rw [LogState.values, hrunning, LogState.values]
    rw [hvalues] at hv ⊢
    exact ⟨_, ⟨t, ht, hv, rfl⟩, rfl⟩
  · rintro ⟨o, ⟨s, hs, hv, rfl⟩, rfl⟩
    obtain ⟨t, ht, hrunning⟩ :=
      readLog_congr (s := ⟨∅, ∅, .empty⟩) (t := ⟨∅, ∅, serializers⟩) rfl rfl hs
    have hvalues : s.values = t.values := by rw [LogState.values, hrunning, LogState.values]
    rw [hvalues] at hv ⊢
    exact processLog_of_readLog ht hv

/-- **A file.** It does not matter how the lines of different conversations are interleaved. -/
theorem IsOutput.same (h : SameLines results.reduceOption results'.reduceOption)
    (hout : IsOutput filterTime table results out) :
    ∃ out', IsOutput filterTime table results' out' ∧ out.Same out' := by
  obtain ⟨s, hs, hv, rfl⟩ := hout
  obtain ⟨t, ht⟩ := exists_readLog_eq_ok (s := ⟨∅, ∅, .empty⟩)
    (h.wellFormed (wellFormed_of_foldlM hs))
  have hvalues := values_perm h (readLog_reads hs) (readLog_reads ht)
  exact ⟨_, ⟨t, ht, fun v hmem => hv v (hvalues.mem_iff.mpr hmem), rfl⟩,
    written_same (h.receipts_perm.map _) hvalues⟩

end Output

/-! ### All files -/

section Core

variable {logs logs' : List (List (Option (Record F)))} {serializers out : Serializers F}
  {os os' : List (Serializers F)}

theorem foldlM_processLog_eq_ok_iff :
    logs.foldlM (processLog filterTime table) serializers = .ok out ↔
      ∃ os, List.Forall₂ (IsOutput filterTime table) logs os ∧
        out = os.foldl .append serializers := by
  induction logs generalizing serializers with
  | nil =>
    constructor
    · rintro ⟨⟩
      exact ⟨[], .nil, rfl⟩
    · rintro ⟨os, hos, rfl⟩
      cases hos
      rfl
  | cons l logs ih =>
    rw [List.foldlM_cons]
    constructor
    · intro h
      obtain ⟨s, hs, h⟩ := Result.bind_eq_ok h
      obtain ⟨o, ho, rfl⟩ := processLog_eq_ok_iff.mp hs
      obtain ⟨os, hos, rfl⟩ := ih.mp h
      exact ⟨o :: os, .cons ho hos, rfl⟩
    · rintro ⟨os, hos, rfl⟩
      cases hos with
      | @cons _ o _ os ho hos =>
        rw [processLog_eq_ok_iff.mpr ⟨o, ho, rfl⟩]
        exact ih.mpr ⟨os, hos, rfl⟩

/-- **The order of the lines.** `core` writes the same numbers for the files in any order, with the
lines of different conversations interleaved in any way. -/
theorem core_same {perm : List (List (Option (Record F)))} (hperm : logs.Perm perm)
    (hlines : List.Forall₂ (fun l l' => SameLines l.reduceOption l'.reduceOption) perm logs')
    (hcore : core filterTime table logs = .ok out) :
    ∃ out', core filterTime table logs' = .ok out' ∧ out.Same out' := by
  obtain ⟨os, hos, rfl⟩ := foldlM_processLog_eq_ok_iff.mp hcore
  obtain ⟨os', hos', hperm'⟩ := List.perm_comp_forall₂ hperm.symm hos
  obtain ⟨os'', hos'', hsame⟩ : ∃ os'', List.Forall₂ (IsOutput filterTime table) logs' os'' ∧
      List.Forall₂ Serializers.Same os' os'' := by
    clear hos hperm' hperm hcore
    induction hlines generalizing os' with
    | nil =>
      cases hos'
      exact ⟨[], .nil, .nil⟩
    | cons hl _ ih =>
      cases hos' with
      | cons ho hos' =>
        obtain ⟨o', ho', hsame⟩ := ho.same hl
        obtain ⟨os'', hos'', hrest⟩ := ih _ hos'
        exact ⟨o' :: os'', .cons ho' hos'', .cons hsame hrest⟩
  exact ⟨_, foldlM_processLog_eq_ok_iff.mpr ⟨os'', hos'', rfl⟩,
    (foldl_append_perm hperm'.symm _).trans (foldl_append_same (.refl _) hsame)⟩

end Core

/-- Lines of two conversations, of which one comes before or after the others. -/
theorem sameLines_example : SameLines [exampleSend, exampleReceipt, exampleReply]
    [exampleReply, exampleSend, exampleReceipt] := by
  intro m
  by_cases hA : m = (['A'], ['g'])
  · subst hA
    decide
  · by_cases hB : m = (['B'], ['g'])
    · subst hB
      decide
    · have hnone : ∀ r ∈ [exampleSend, exampleReceipt, exampleReply], r.member ≠ m := by
        simp only [List.forall_mem_cons]
        exact ⟨Ne.symm hA, Ne.symm hA, Ne.symm hB, by simp⟩
      have hnone' : ∀ r ∈ [exampleReply, exampleSend, exampleReceipt], r.member ≠ m := by
        simp only [List.forall_mem_cons] at hnone ⊢
        exact ⟨hnone.2.2.1, hnone.1, hnone.2.1, by simp⟩
      rw [filter_key_eq_nil Record.member hnone, filter_key_eq_nil Record.member hnone']

/-- The other file is read first, and has a row that is no record. -/
theorem core_same_example : ∃ out out',
    core 0 exampleTable [[some exampleSend, some exampleReceipt, some exampleReply], []] =
      .ok out ∧
    core 0 exampleTable [[none], [some exampleReply, some exampleSend, some exampleReceipt]] =
      .ok out' ∧ out.Same out' := by
  have hcounts : (core 0 exampleTable
      [[some exampleSend, some exampleReceipt, some exampleReply], []]).map (·.sentCount) =
        .ok [1, 1] := rfl
  obtain ⟨out, hout, -⟩ := Result.map_eq_ok hcounts
  have hempty : SameLines ([] : List (Option (Record ℚ))).reduceOption [none].reduceOption :=
    fun _ => rfl
  have hlines : List.Forall₂ (fun l l' : List (Option (Record ℚ)) =>
      SameLines l.reduceOption l'.reduceOption)
      [[], [some exampleSend, some exampleReceipt, some exampleReply]]
      [[none], [some exampleReply, some exampleSend, some exampleReceipt]] :=
    .cons hempty (.cons sameLines_example .nil)
  obtain ⟨out', hout', hsame⟩ := core_same (.swap _ _ []) hlines hout
  exact ⟨out, out', hout, hout', hsame⟩

end SignalSim.Mgentools
