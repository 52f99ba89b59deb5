import Mathlib.Algebra.Order.BigOperators.Group.List
import Mathlib.Data.List.Forall2
import Mathlib.Data.List.Nodup
import SignalSim.Mgentools.Balance

/-!
# One statistic per conversation

`core` writes a mean and a count for every entry of every file. An entry belongs to whoever sends a
message of the file, and also to whoever is the sender of a receipt there, although the messages of
that conversation may be in another file. So it depends on how the users are spread over the files
whether there is one statistic for each.

## Main definitions

* `coreEntries` — the entries of all files
* `OnePerMember` — there is one statistic for each conversation, with its number of messages
* `SendersLogHere` — the senders of the receipts that count have lines of their own in the file

## Main results

* `core_eq_ok` — what `core` writes for its entries
* `core_onePerMember_iff` — when there is one statistic for each conversation
-/

namespace SignalSim.Mgentools

variable {F : Type}

/-- The entries after a file is read. -/
def LogState.entries (s : LogState F) : List (Member × RunningValue F) :=
  s.runningValues.entries.map fun e => (e.1, e.2)

section

variable [Floating F] (filterTime : F) (table : BootstrapTable F)

/-- The entries of a file. -/
def logEntries (results : List (Option (Record F))) :
    Except Stop (List (Member × RunningValue F)) :=
  (readLog filterTime table ⟨∅, ∅, .empty⟩ results).map (·.entries)

/-- The entries of all files, for each of which `core` writes a mean and a count. -/
def coreEntries (logs : List (List (Option (Record F)))) :
    Except Stop (List (List (Member × RunningValue F))) :=
  logs.mapM (logEntries filterTime table)

end

/-- A line about what a conversation sends or receives. -/
def Record.IsOwnLine (r : Record F) (m : Member) : Prop :=
  r.member = m ∧ (r.actionData[0]? = some "send".toList ∨ r.actionData[0]? = some "receive".toList)

/-- A file has lines of a conversation. -/
def HasLines (results : List (Option (Record F))) (m : Member) : Prop :=
  ∃ r ∈ results.reduceOption, r.IsOwnLine m

/-- All lines of a conversation are in one file. -/
def OneFile (logs : List (List (Option (Record F)))) : Prop :=
  logs.Pairwise fun l l' => ∀ m, HasLines l m → ¬ HasLines l' m

/-- The messages of a conversation in all files. -/
def totalSends [Floating F] (filterTime : F) (logs : List (List (Option (Record F))))
    (m : Member) : ℕ :=
  (logs.map fun l => (sendsOf filterTime l.reduceOption m).length).sum

/-- There is at most one statistic for a conversation, its count is the number of its messages, and
it is from the file with the lines of the conversation. -/
structure OnePerMember [Floating F] (filterTime : F) (logs : List (List (Option (Record F))))
    (es : List (List (Member × RunningValue F))) : Prop where
  nodup : (es.flatten.map (·.1)).Nodup
  sentCount : ∀ e ∈ es.flatten, e.2.sentCount.toNat = totalSends filterTime logs e.1
  hasLines : List.Forall₂ (fun l es => ∀ e ∈ es, HasLines l e.1) logs es

/-- Whoever sends a receipt that counts has lines of its own in the same file. -/
def SendersLogHere [Floating F] (filterTime : F) (table : BootstrapTable F)
    (logs : List (List (Option (Record F)))) : Prop :=
  ∀ l ∈ logs, ∀ c ∈ receipts filterTime table l.reduceOption, HasLines l c.sender

variable [Floating F] {filterTime : F} {table : BootstrapTable F} {serializers out : Serializers F}
  {s s' t t' : LogState F} {r : Record F} {rs : List (Record F)} {m : Member}
  {results : List (Option (Record F))} {logs : List (List (Option (Record F)))}
  {es : List (List (Member × RunningValue F))}

/-! ### What `core` writes -/

/-- The tables do not depend on what is written. -/
theorem processRecord_congr (hsent : s.sentTimes = t.sentTimes)
    (hrunning : s.runningValues = t.runningValues)
    (h : processRecord filterTime table s r = .ok s') :
    ∃ t', processRecord filterTime table t r = .ok t' ∧ s'.sentTimes = t'.sentTimes ∧
      s'.runningValues = t'.runningValues := by
  unfold processRecord at h ⊢
  split at h
  · rename_i htime
    cases h
    exact ⟨t, if_pos htime, hsent, hrunning⟩
  · rename_i htime
    obtain ⟨a, ha, h⟩ := Result.bind_eq_ok h
    rw [if_neg htime, ha]
    cases a with
    | send id =>
      cases h
      have hrunning' : (s.send r.member id r.time).runningValues =
          (t.send r.member id r.time).runningValues := by
        rw [LogState.send, LogState.send, hrunning]
      exact ⟨_, rfl, congrArg (AList.insert _ _) hsent, hrunning'⟩
    | other =>
      cases h
      exact ⟨t, rfl, hsent, hrunning⟩
    | receipt sender id =>
      obtain ⟨start, hstart, h⟩ := Result.bind_eq_ok h
      simp only [Result.ok_bind, hstart]
      rw [hsent] at h
      cases hl : t.sentTimes.lookup (r.member, id) with
      | none =>
        rw [hl] at h
        cases h
        exact ⟨t, rfl, hsent, hrunning⟩
      | some sent =>
        rw [hl] at h
        by_cases hlt : start > sent
        · simp only [if_pos hlt] at h ⊢
          cases h
          exact ⟨t, rfl, hsent, hrunning⟩
        · simp only [if_neg hlt] at h ⊢
          cases h
          exact ⟨_, rfl, hsent, by rw [LogState.receipt, LogState.receipt, hrunning]⟩

theorem readLog_congr (hsent : s.sentTimes = t.sentTimes)
    (hrunning : s.runningValues = t.runningValues)
    (h : readLog filterTime table s results = .ok s') :
    ∃ t', readLog filterTime table t results = .ok t' ∧
      s'.runningValues = t'.runningValues := by
  unfold readLog at h ⊢
  generalize results.reduceOption = rs at h
  induction rs generalizing s t with
  | nil =>
    cases h
    exact ⟨t, rfl, hrunning⟩
  | cons r rs ih =>
    rw [List.foldlM_cons] at h
    obtain ⟨s₁, hs₁, h⟩ := Result.bind_eq_ok h
    obtain ⟨t₁, ht₁, hsent₁, hrunning₁⟩ := processRecord_congr hsent hrunning hs₁
    rw [List.foldlM_cons, ht₁]
    exact ih hsent₁ hrunning₁ h

/-- A file's entries, and what is written for them. -/
theorem logEntries_of_processLog
    (h : processLog filterTime table serializers results = .ok out) :
    ∃ es, logEntries filterTime table results = .ok es ∧
      out.rttMean = serializers.rttMean ++ es.map (·.2.runningRttMean) ∧
      out.sentCount = serializers.sentCount ++ es.map (·.2.sentCount) := by
  obtain ⟨s, hs, -, rfl⟩ := processLog_eq_ok h
  obtain ⟨t, ht, hrunning⟩ :=
    readLog_congr (s := ⟨∅, ∅, serializers⟩) (t := ⟨∅, ∅, .empty⟩) rfl rfl hs
  refine ⟨t.entries, by rw [logEntries, ht]; rfl, ?_, ?_⟩
  · simp [Serializers.append, written, LogState.values, LogState.entries, hrunning]
  · simp [Serializers.append, written, LogState.values, LogState.entries, hrunning]

/-- `core` writes a mean and a count for each of its entries. -/
theorem core_eq_ok (h : core filterTime table logs = .ok out) :
    ∃ es, coreEntries filterTime table logs = .ok es ∧
      out.rttMean = es.flatten.map (·.2.runningRttMean) ∧
      out.sentCount = es.flatten.map (·.2.sentCount) := by
  unfold core at h
  suffices haux : ∀ serializers, logs.foldlM (processLog filterTime table) serializers = .ok out →
      ∃ es, coreEntries filterTime table logs = .ok es ∧
        out.rttMean = serializers.rttMean ++ es.flatten.map (·.2.runningRttMean) ∧
        out.sentCount = serializers.sentCount ++ es.flatten.map (·.2.sentCount) from haux _ h
  clear h
  induction logs with
  | nil =>
    intro serializers h
    cases h
    exact ⟨[], rfl, by simp, by simp⟩
  | cons l logs ih =>
    intro serializers h
    rw [List.foldlM_cons] at h
    obtain ⟨t, ht, h⟩ := Result.bind_eq_ok h
    obtain ⟨e, he, hmean, hcount⟩ := logEntries_of_processLog ht
    obtain ⟨es, hes, hmeans, hcounts⟩ := ih t h
    refine ⟨e :: es, ?_, ?_, ?_⟩
    · rw [coreEntries, List.mapM_cons, he, Result.ok_bind, ← coreEntries, hes]
      rfl
    · rw [hmeans, hmean, List.flatten_cons, List.map_append, List.append_assoc]
    · rw [hcounts, hcount, List.flatten_cons, List.map_append, List.append_assoc]

/-! ### The entries -/

/-- What the entries of a file are. -/
structure AreEntries (filterTime : F) (table : BootstrapTable F)
    (results : List (Option (Record F))) (e : List (Member × RunningValue F)) : Prop where
  nodup : (e.map (·.1)).Nodup
  eq_valueOf : ∀ p ∈ e, p.2 = valueOf filterTime table results.reduceOption p.1
  mem (m : Member) : (∃ p ∈ e, p.1 = m) ↔ sendsOf filterTime results.reduceOption m ≠ [] ∨
    outgoingOf (receipts filterTime table results.reduceOption) m ≠ []

theorem areEntries_of_logEntries {e : List (Member × RunningValue F)}
    (h : logEntries filterTime table results = .ok e) :
    AreEntries filterTime table results e := by
  obtain ⟨s, hs, rfl⟩ := Result.map_eq_ok h
  have hreads := readLog_reads hs
  have hentries := hreads.map_entries Prod.mk
  constructor
  case nodup =>
    rw [LogState.entries, List.map_map]
    exact AList.keys_nodup s.runningValues
  case eq_valueOf =>
    intro p hp
    rw [LogState.entries, hentries] at hp
    obtain ⟨m, -, rfl⟩ := List.mem_map.mp hp
    rfl
  case mem =>
    intro m
    rw [← hreads.mem_keys, LogState.entries, hentries]
    constructor
    · rintro ⟨p, hp, rfl⟩
      obtain ⟨m, hm, rfl⟩ := List.mem_map.mp hp
      exact hm
    · exact fun hm => ⟨_, List.mem_map_of_mem hm, rfl⟩

theorem areEntries_of_coreEntries (h : coreEntries filterTime table logs = .ok es) :
    List.Forall₂ (AreEntries filterTime table) logs es :=
  (Result.mapM_eq_ok h).imp fun _ _ => areEntries_of_logEntries

/-- A message is a line of its conversation. -/
theorem hasLines_of_sendsOf (h : sendsOf filterTime results.reduceOption m ≠ []) :
    HasLines results m := by
  obtain ⟨⟨id, time⟩, hmem⟩ := List.exists_mem_of_ne_nil _ h
  obtain ⟨r, hr, hreport, hm, -⟩ := mem_sendsOf.mp hmem
  have haction := (action_of_report hreport (by simp)).2
  exact ⟨r, hr, hm, .inl (verb_of_send haction)⟩

theorem AreEntries.hasLines {e : List (Member × RunningValue F)}
    (he : AreEntries filterTime table results e)
    (h : ∀ c ∈ receipts filterTime table results.reduceOption, HasLines results c.sender) :
    ∀ p ∈ e, HasLines results p.1 := by
  intro p hp
  rcases (he.mem p.1).mp ⟨p, hp, rfl⟩ with hsends | hout
  · exact hasLines_of_sendsOf hsends
  · obtain ⟨c, hc, hsender⟩ := rttsOf_ne_nil.mp hout
    rw [← hsender]
    exact h c hc

/-! ### Spread over files -/

/-- All messages of a conversation with lines in a file are in that file. -/
theorem totalSends_eq (hone : OneFile logs) (hmem : results ∈ logs) (hlines : HasLines results m) :
    totalSends filterTime logs m = (sendsOf filterTime results.reduceOption m).length := by
  have hnone {l : List (Option (Record F))} (hl : ¬ HasLines l m) :
      (sendsOf filterTime l.reduceOption m).length = 0 :=
    List.length_eq_zero_iff.mpr (not_not.mp fun hne => hl (hasLines_of_sendsOf hne))
  induction logs with
  | nil => cases hmem
  | cons l logs ih =>
    obtain ⟨hl, hrest⟩ := List.pairwise_cons.mp hone
    rw [totalSends, List.map_cons, List.sum_cons]
    rcases List.mem_cons.mp hmem with rfl | hmem
    · rw [List.sum_eq_zero, Nat.add_zero]
      intro n hn
      obtain ⟨l', hl', rfl⟩ := List.mem_map.mp hn
      exact hnone (hl l' hl' m hlines)
    · rw [← totalSends, ih hrest hmem, hnone fun hother => hl _ hmem m hother hlines, Nat.zero_add]

theorem le_totalSends (filterTime : F) (m : Member) (hmem : results ∈ logs) :
    (sendsOf filterTime results.reduceOption m).length ≤ totalSends filterTime logs m :=
  List.le_sum_of_mem (List.mem_map_of_mem hmem)

/-- The counters of messages can hold what they count. -/
def SendsFit (filterTime : F) (logs : List (List (Option (Record F)))) : Prop :=
  ∀ l ∈ logs, ∀ m, (sendsOf filterTime l.reduceOption m).length < 2 ^ 32

theorem onePerMember_of_sendersLogHere (hone : OneFile logs)
    (hes : List.Forall₂ (AreEntries filterTime table) logs es)
    (hsenders : SendersLogHere filterTime table logs) (hfit : SendsFit filterTime logs) :
    OnePerMember filterTime logs es := by
  -- each file's entries, where they come from and that they have lines there
  have hlines : List.Forall₂ (fun l e => l ∈ logs ∧ AreEntries filterTime table l e ∧
      ∀ p ∈ e, HasLines l p.1) logs es :=
    (List.forall₂_and_left _ _).mpr ⟨fun _ hl => hl, hes⟩ |>.imp fun l e ⟨hl, he⟩ =>
      ⟨hl, he, he.hasLines (hsenders l hl)⟩
  constructor
  case hasLines => exact hlines.imp fun _ _ h => h.2.2
  case nodup =>
    rw [List.map_flatten, List.nodup_flatten]
    constructor
    · intro ms hms
      obtain ⟨e, he, rfl⟩ := List.mem_map.mp hms
      obtain ⟨l, -, -, hentries, -⟩ := Result.exists_of_mem_right hlines he
      exact hentries.nodup
    · rw [List.pairwise_map]
      refine Result.pairwise_right hlines ?_ hone
      intro l l' e e' hdisjoint he he'
      rw [List.disjoint_left]
      intro m hm hm'
      obtain ⟨p, hp, rfl⟩ := List.mem_map.mp hm
      obtain ⟨p', hp', heq⟩ := List.mem_map.mp hm'
      exact hdisjoint p.1 (he.2.2 p hp) (heq ▸ he'.2.2 p' hp')
  case sentCount =>
    intro p hp
    obtain ⟨e, he, hp⟩ := List.mem_flatten.mp hp
    obtain ⟨l, hl, -, hentries, hown⟩ := Result.exists_of_mem_right hlines he
    rw [totalSends_eq hone hl (hown p hp), hentries.eq_valueOf p hp]
    exact UInt32.toNat_ofNat_of_lt' (hfit l hl p.1)

theorem sendersLogHere_of_onePerMember
    (hes : List.Forall₂ (AreEntries filterTime table) logs es)
    (h : OnePerMember filterTime logs es) :
    SendersLogHere filterTime table logs ∧ SendsFit filterTime logs := by
  have hboth := List.Forall₂.mp (fun l e he hl => And.intro he hl) hes h.hasLines
  constructor
  · intro l hl c hc
    obtain ⟨e, -, he, hown⟩ := Result.exists_of_mem_left hboth hl
    obtain ⟨p, hp, hsender⟩ := (he.mem c.sender).mpr (.inr (rttsOf_ne_nil.mpr ⟨c, hc, rfl⟩))
    rw [← hsender]
    exact hown p hp
  · intro l hl m
    obtain ⟨e, hmem, he, -⟩ := Result.exists_of_mem_left hboth hl
    by_cases hsends : sendsOf filterTime l.reduceOption m = []
    · rw [hsends, List.length_nil]
      decide
    · -- the count that is written is no less than the number of messages in this file
      obtain ⟨p, hp, rfl⟩ := (he.mem m).mpr (.inl hsends)
      have hcount := h.sentCount p (List.mem_flatten.mpr ⟨e, hmem, hp⟩)
      have hle := le_totalSends filterTime p.1 hl
      exact Nat.lt_of_le_of_lt (hle.trans_eq hcount.symm) p.2.sentCount.toNat_lt

/-- A message from `B` to `g`. -/
def exampleReply : Record ℚ :=
  ⟨3, ['B'], ['g'], ["send".toList, "Idle".toList, "Idle".toList, ['0'], ['0']]⟩

/-- The log of `A`, with a receipt from `B`, and the log of `B`. -/
def splitLogs : List (List (Option (Record ℚ))) := [exampleLog 1, [some exampleReply]]

theorem oneFile_splitLogs : OneFile splitLogs := by
  refine List.pairwise_cons.mpr ⟨fun l hl m hA hB => ?_, List.pairwise_singleton _ _⟩
  obtain rfl := List.mem_singleton.mp hl
  obtain ⟨r, hr, rfl, -⟩ := hA
  obtain ⟨r', hr', hm, -⟩ := hB
  obtain rfl := List.mem_singleton.mp hr'
  have huser : r.user = ['A'] := by
    rcases List.mem_cons.mp hr with rfl | hr
    · rfl
    · obtain rfl := List.mem_singleton.mp hr
      rfl
  have huser' : r.user = ['B'] := (congrArg Prod.fst hm).symm
  rw [huser] at huser'
  cases huser'

/-- **Two statistics for one conversation.** `B` gets a count of zero for its receipt, and its own
in its own log. -/
theorem not_onePerMember_splitLogs : OneFile splitLogs ∧
    (core 0 exampleTable splitLogs).map (·.sentCount) = .ok [0, 1, 1] ∧
    ∃ es, coreEntries 0 exampleTable splitLogs = .ok es ∧ ¬ OnePerMember 0 splitLogs es := by
  have hmembers : (coreEntries 0 exampleTable splitLogs).map (·.flatten.map (·.1)) =
      .ok [(['B'], ['g']), (['A'], ['g']), (['B'], ['g'])] := rfl
  obtain ⟨es, hes, hmembers⟩ := Result.map_eq_ok hmembers
  refine ⟨oneFile_splitLogs, rfl, es, hes, fun h => ?_⟩
  have hnodup := h.nodup
  rw [hmembers] at hnodup
  exact absurd hnodup (by decide)

/-- **One statistic for each conversation.** `core` writes a mean and a count for each entry; when
the lines of every conversation are in one file, there is one entry for each with its number of
messages exactly if the senders of receipts log where the receipts do, and no counter of messages
wraps around. -/
theorem core_onePerMember_iff (hone : OneFile logs) (hcore : core filterTime table logs = .ok out) :
    ∃ es, coreEntries filterTime table logs = .ok es ∧
      out.rttMean = es.flatten.map (·.2.runningRttMean) ∧
      out.sentCount = es.flatten.map (·.2.sentCount) ∧
      (OnePerMember filterTime logs es ↔
        SendersLogHere filterTime table logs ∧ SendsFit filterTime logs) := by
  obtain ⟨es, hes, hmean, hcount⟩ := core_eq_ok hcore
  have hentries := areEntries_of_coreEntries hes
  refine ⟨es, hes, hmean, hcount, sendersLogHere_of_onePerMember hentries, ?_⟩
  rintro ⟨hsenders, hfit⟩
  exact onePerMember_of_sendersLogHere hone hentries hsenders hfit

/-- The two logs. -/
theorem core_onePerMember_iff_splitLogs : ∃ out es, core 0 exampleTable splitLogs = .ok out ∧
    coreEntries 0 exampleTable splitLogs = .ok es ∧
    out.rttMean = es.flatten.map (·.2.runningRttMean) ∧
    out.sentCount = es.flatten.map (·.2.sentCount) ∧
    (OnePerMember 0 splitLogs es ↔
      SendersLogHere 0 exampleTable splitLogs ∧ SendsFit 0 splitLogs) := by
  have hcounts : (core 0 exampleTable splitLogs).map (·.sentCount) = .ok [0, 1, 1] := rfl
  obtain ⟨out, hout, -⟩ := Result.map_eq_ok hcounts
  obtain ⟨es, hes⟩ := core_onePerMember_iff oneFile_splitLogs hout
  exact ⟨out, es, hout, hes⟩

end SignalSim.Mgentools
