import SignalSim.Mgentools.ReadBack

/-!
# Records that cannot be interpreted

Before `process_log` looks at the fields of an action, it has skipped the rows that are not records:
those with fewer than five fields, or whose time is not a number. The rows that are records may
still lack the fields that their action needs, or have no number where it needs one. The analyser
does not skip these. It panics on the index, or returns the error of `parse`, unless it has
panicked before over a receipt from somebody that the bootstrap table lacks.

## Main definitions

* `results` — what the reader makes of the rows of a file
* `Record.Malformed` — a record that lacks a field that its action needs
* `interpretable` — a row that is a record, and not such a one
* `SkipsBadRecords` — the others are as if they were absent
* `Record.Bad` — a record after the filter time that cannot be interpreted
* `Record.orphan` — a receipt after the filter time from somebody without a bootstrap time

## Main results

* `isOk_action_eq_false` — which records the code fails to interpret
* `skipsBadRecords_iff` — they are skipped exactly if the first orphan comes before all bad records
* `not_skipsBadRecords_cutOff` — a last line that has been cut off
-/

namespace SignalSim.Mgentools

variable {F : Type}

/-- What the reader makes of the rows of a file, where there is no row if the bytes are no text. -/
def results (parseFloat : Text → Option F) (rows : List (Option (List Text))) :
    List (Option (Record F)) :=
  rows.map fun row => row.bind (deserialize parseFloat)

/-- A field that the action needs is missing, or is not the number that it should be. -/
def Record.Malformed (r : Record F) : Prop :=
  r.actionData[0]? = none ∨
    (r.actionData[0]? = some "send".toList ∧
      r.actionData[4]?.bind (Text.parseNat (2 ^ 32)) = none) ∨
    (r.actionData[0]? = some "receive".toList ∧
      (r.actionData[4]? = none ∨ r.actionData[4]? = some "receipt".toList ∧
        r.actionData[5]?.bind (Text.parseNat (2 ^ 32)) = none))

instance : DecidablePred (@Record.Malformed F) := fun _ =>
  inferInstanceAs (Decidable (_ ∨ _ ∨ _))

/-- A row that is a record with the fields that its action needs. -/
def interpretable (parseFloat : Text → Option F) (row : Option (List Text)) : Bool :=
  (row.bind (deserialize parseFloat)).any fun r => ¬ r.Malformed

/-- `process_log` skips the rows that it cannot interpret: it comes to the same without them, and
they stop it neither by an index nor by an error. -/
structure SkipsBadRecords [Floating F] (parseFloat : Text → Option F) (filterTime : F)
    (table : BootstrapTable F) (serializers : Serializers F) (rows : List (Option (List Text))) :
    Prop where
  skips : processLog filterTime table serializers (results parseFloat rows) =
    processLog filterTime table serializers
      (results parseFloat (rows.filter (interpretable parseFloat)))
  index : processLog filterTime table serializers (results parseFloat rows) ≠ .error .index
  parse : processLog filterTime table serializers (results parseFloat rows) ≠ .error .parse

/-- A record after the filter time that cannot be interpreted. -/
def Record.Bad [Floating F] (filterTime : F) (r : Record F) : Prop :=
  ¬ r.time ≤ filterTime ∧ r.Malformed

/-- A receipt after the filter time from somebody without a bootstrap time. -/
def Record.orphan [Floating F] (filterTime : F) (table : BootstrapTable F) (r : Record F) :
    Bool :=
  match report filterTime r with
  | .receipt sender _ => (table.lookup (sender, r.group)).isNone
  | _ => false

/-! ### What cannot be interpreted -/

variable {r : Record F} {e : Stop}

theorem index_eq_error {data : List Text} {i : ℕ} (h : index data i = .error e) :
    data[i]? = none ∧ e = .index := by
  unfold index at h
  cases hi : data[i]? with
  | none =>
    rw [hi] at h
    cases h
    exact ⟨rfl, rfl⟩
  | some t =>
    rw [hi] at h
    cases h

theorem parseId_eq_error {t : Text} (h : parseId t = .error e) :
    Text.parseNat (2 ^ 32) t = none ∧ e = .parse := by
  unfold parseId at h
  cases ht : Text.parseNat (2 ^ 32) t with
  | none =>
    rw [ht] at h
    cases h
    exact ⟨rfl, rfl⟩
  | some id =>
    rw [ht] at h
    cases h

/-- What stops the interpretation of a record is an index or a number. -/
theorem stop_of_action (h : r.action = .error e) : e = .index ∨ e = .parse := by
  rcases Result.bind_eq_error h with hverb | ⟨verb, -, h⟩
  · exact .inl (index_eq_error hverb).2
  split at h
  · rcases Result.bind_eq_error h with hfield | ⟨t, -, h⟩
    · exact .inl (index_eq_error hfield).2
    · rcases Result.bind_eq_error h with hid | ⟨id, -, h⟩
      · exact .inr (parseId_eq_error hid).2
      · cases h
  split at h
  · rcases Result.bind_eq_error h with hkind | ⟨kind, -, h⟩
    · exact .inl (index_eq_error hkind).2
    split at h
    · cases h
    rcases Result.bind_eq_error h with hsender | ⟨sender, -, h⟩
    · exact .inl (index_eq_error hsender).2
    rcases Result.bind_eq_error h with hfield | ⟨t, -, h⟩
    · exact .inl (index_eq_error hfield).2
    rcases Result.bind_eq_error h with hid | ⟨id, -, h⟩
    · exact .inr (parseId_eq_error hid).2
    · cases h
  · cases h

theorem index_of_none {data : List Text} {i : ℕ} (h : data[i]? = none) :
    index data i = .error .index := by
  rw [index, h]
  rfl

/-- A field that is to be a number. -/
theorem isOk_parseId_eq_false {data : List Text} {i : ℕ} {f : ℕ → Action} :
    (do return f (← parseId (← index data i)) : Except Stop Action).isOk = false ↔
      data[i]?.bind (Text.parseNat (2 ^ 32)) = none := by
  cases hi : data[i]? with
  | none =>
    rw [index_of_none hi]
    exact ⟨fun _ => rfl, fun _ => rfl⟩
  | some t =>
    rw [index_of_getElem? hi, Result.ok_bind, Option.bind_some, parseId]
    cases Text.parseNat (2 ^ 32) t with
    | none => exact ⟨fun _ => rfl, fun _ => rfl⟩
    | some id => exact ⟨fun h => (by cases h), fun h => (by cases h)⟩

/-- **Bad records.** The code fails to interpret the malformed records. -/
theorem isOk_action_eq_false : r.action.isOk = false ↔ r.Malformed := by
  rw [Record.Malformed]
  cases hverb : r.actionData[0]? with
  | none =>
    rw [Record.action, index_of_none hverb]
    exact ⟨fun _ => .inl rfl, fun _ => rfl⟩
  | some verb =>
    rw [Record.action, index_of_getElem? hverb, Result.ok_bind]
    by_cases hsend : verb = "send".toList
    · subst hsend
      rw [if_pos rfl, isOk_parseId_eq_false]
      constructor
      · intro h
        exact .inr (.inl ⟨rfl, h⟩)
      · rintro (h | ⟨-, h⟩ | ⟨h, -⟩)
        · cases h
        · exact h
        · exact absurd (Option.some.inj h) (by decide)
    rw [if_neg hsend]
    by_cases hreceive : verb = "receive".toList
    · subst hreceive
      rw [if_pos rfl]
      cases hkind : r.actionData[4]? with
      | none =>
        rw [index_of_none hkind]
        exact ⟨fun _ => .inr (.inr ⟨rfl, .inl rfl⟩), fun _ => rfl⟩
      | some kind =>
        rw [index_of_getElem? hkind, Result.ok_bind]
        by_cases hreceipt : kind = "receipt".toList
        · subst hreceipt
          -- the sender comes before the word
          obtain ⟨hlt, -⟩ := List.getElem?_eq_some_iff.mp hkind
          have hsender := List.getElem?_eq_getElem (l := r.actionData) (i := 3) (by omega)
          rw [if_neg (not_not.mpr rfl), index_of_getElem? hsender, Result.ok_bind,
            isOk_parseId_eq_false]
          constructor
          · intro h
            exact .inr (.inr ⟨rfl, .inr ⟨rfl, h⟩⟩)
          · rintro (h | ⟨h, -⟩ | ⟨-, h | ⟨-, h⟩⟩)
            · cases h
            · exact absurd (Option.some.inj h) hsend
            · cases h
            · exact h
        · rw [if_pos hreceipt]
          refine ⟨fun h => (by cases h), ?_⟩
          rintro (h | ⟨h, -⟩ | ⟨-, h | ⟨h, -⟩⟩)
          · cases h
          · exact absurd (Option.some.inj h) hsend
          · cases h
          · exact absurd (Option.some.inj h) hreceipt
    · rw [if_neg hreceive]
      refine ⟨fun h => (by cases h), ?_⟩
      rintro (h | ⟨h, -⟩ | ⟨h, -⟩)
      · cases h
      · exact absurd (Option.some.inj h) hsend
      · exact absurd (Option.some.inj h) hreceive

/-! ### Rows -/

variable {parseFloat : Text → Option F} {rs : List (Record F)} {rows : List (Option (List Text))}

theorem reduceOption_results_of_none {row : Option (List Text)}
    (h : row.bind (deserialize parseFloat) = none) :
    (results parseFloat (row :: rows)).reduceOption = (results parseFloat rows).reduceOption := by
  rw [results, List.map_cons, h, List.reduceOption_cons_of_none]
  rfl

theorem reduceOption_results_of_some {row : Option (List Text)}
    (h : row.bind (deserialize parseFloat) = some r) :
    (results parseFloat (row :: rows)).reduceOption =
      r :: (results parseFloat rows).reduceOption := by
  rw [results, List.map_cons, h, List.reduceOption_cons_of_some]
  rfl

/-- The rows that can be interpreted are the records that can. -/
theorem reduceOption_results_filter :
    (results parseFloat (rows.filter (interpretable parseFloat))).reduceOption =
      (results parseFloat rows).reduceOption.filter (¬ ·.Malformed) := by
  induction rows with
  | nil => rfl
  | cons row rows ih =>
    rw [List.filter_cons, interpretable]
    cases hrow : row.bind (deserialize parseFloat) with
    | none =>
      rw [reduceOption_results_of_none hrow]
      exact ih
    | some r =>
      rw [reduceOption_results_of_some hrow, List.filter_cons, Option.any_some]
      split
      · rw [reduceOption_results_of_some hrow, ih]
      · exact ih

/-! ### Reading on -/

variable [Floating F] {filterTime : F} {table : BootstrapTable F}
  {serializers : Serializers F} {s : LogState F}

theorem processRecord_of_bad (table : BootstrapTable F) (s : LogState F) (hr : r.Bad filterTime) :
    ∃ e, r.action = .error e ∧ processRecord filterTime table s r = .error e := by
  cases haction : r.action with
  | error e =>
    refine ⟨e, rfl, ?_⟩
    rw [processRecord, if_neg hr.1, haction]
    rfl
  | ok a =>
    have hisOk := isOk_action_eq_false.mpr hr.2
    rw [haction] at hisOk
    cases hisOk

theorem report_of_orphan (hr : r.orphan filterTime table = true) :
    ∃ sender id, report filterTime r = .receipt sender id ∧
      table.lookup (sender, r.group) = none := by
  unfold Record.orphan at hr
  split at hr
  · exact ⟨_, _, ‹_›, Option.isNone_iff_eq_none.mp hr⟩
  · cases hr

theorem action_of_orphan (hr : r.orphan filterTime table = true) :
    ¬ r.time ≤ filterTime ∧ ∃ sender id, r.action = .ok (.receipt sender id) ∧
      table.lookup (sender, r.group) = none := by
  obtain ⟨sender, id, hreport, htable⟩ := report_of_orphan hr
  obtain ⟨htime, haction⟩ := action_of_report hreport (by simp)
  exact ⟨htime, sender, id, haction, htable⟩

theorem not_malformed_of_orphan (hr : r.orphan filterTime table = true) : ¬ r.Malformed := by
  obtain ⟨-, sender, id, haction, -⟩ := action_of_orphan hr
  rw [← isOk_action_eq_false, haction]
  exact Bool.noConfusion

theorem processRecord_of_orphan (hr : r.orphan filterTime table = true) :
    processRecord filterTime table s r = .error .key := by
  obtain ⟨htime, sender, id, haction, htable⟩ := action_of_orphan hr
  rw [processRecord, if_neg htime, haction, Result.ok_bind]
  simp only [htable, Option.elim_none]
  rfl

/-- Other records stop nothing. -/
theorem wellFormed_of_not_bad (hbad : ¬ r.Bad filterTime)
    (horphan : r.orphan filterTime table = false) : WellFormed filterTime table r where
  action htime := by
    cases haction : r.action with
    | error e =>
      have hisOk : r.action.isOk = false := by
        rw [haction]
        rfl
      exact absurd ⟨htime, isOk_action_eq_false.mp hisOk⟩ hbad
    | ok a => exact ⟨a, rfl⟩
  covered {sender id} h := by
    have hlookup : (table.lookup (sender, r.group)).isNone = false := by
      rw [Record.orphan, h] at horphan
      exact horphan
    rw [Option.isNone_eq_false_iff] at hlookup
    exact AList.lookup_isSome.mp hlookup

/-- A record that cannot be interpreted and does not stop the reading changes nothing. -/
theorem processRecord_of_malformed (hr : r.Malformed) (hbad : ¬ r.Bad filterTime) :
    processRecord filterTime table s r = .ok s := by
  rw [processRecord, if_pos]
  · rfl
  · by_contra htime
    exact hbad ⟨htime, hr⟩

/-- The records read before the first orphan. -/
def beforeOrphan (filterTime : F) (table : BootstrapTable F) (rs : List (Record F)) :
    List (Record F) :=
  rs.takeWhile fun r => !r.orphan filterTime table

theorem beforeOrphan_of_orphan (hr : r.orphan filterTime table = true) :
    beforeOrphan filterTime table (r :: rs) = [] := by
  rw [beforeOrphan, List.takeWhile_cons_of_neg]
  simp [hr]

theorem beforeOrphan_cons (hr : r.orphan filterTime table = false) :
    beforeOrphan filterTime table (r :: rs) = r :: beforeOrphan filterTime table rs := by
  rw [beforeOrphan, List.takeWhile_cons_of_pos]
  · rfl
  · simp [hr]

/-- A bad record before the first orphan stops the reading. -/
theorem foldlM_of_bad (h : ∃ r ∈ beforeOrphan filterTime table rs, r.Bad filterTime) :
    ∃ (r : Record F) (e : Stop), r.action = .error e ∧
      rs.foldlM (processRecord filterTime table) s = .error e := by
  induction rs generalizing s with
  | nil =>
    obtain ⟨r, hr, -⟩ := h
    cases hr
  | cons r rs ih =>
    rw [List.foldlM_cons]
    by_cases hbad : r.Bad filterTime
    · obtain ⟨e, haction, he⟩ := processRecord_of_bad table s hbad
      exact ⟨r, e, haction, by rw [he]; rfl⟩
    obtain ⟨r', hmem, hr'⟩ := h
    cases horphan : r.orphan filterTime table with
    | true =>
      rw [beforeOrphan_of_orphan horphan] at hmem
      cases hmem
    | false =>
      rw [beforeOrphan_cons horphan, List.mem_cons] at hmem
      obtain ⟨s', hs'⟩ := (wellFormed_of_not_bad hbad horphan).processRecord_isOk s
      obtain rfl | hmem := hmem
      · exact absurd hr' hbad
      · rw [hs']
        exact ih ⟨r', hmem, hr'⟩

/-- Without one, the records that cannot be interpreted may be left out. -/
theorem foldlM_filter (h : ∀ r ∈ beforeOrphan filterTime table rs, ¬ r.Bad filterTime) :
    (rs.filter (¬ ·.Malformed)).foldlM (processRecord filterTime table) s =
      rs.foldlM (processRecord filterTime table) s := by
  induction rs generalizing s with
  | nil => rfl
  | cons r rs ih =>
    cases horphan : r.orphan filterTime table with
    | true =>
      have hkeep : ¬ r.Malformed := not_malformed_of_orphan horphan
      rw [List.filter_cons_of_pos (by simpa using hkeep), List.foldlM_cons, List.foldlM_cons,
        processRecord_of_orphan horphan]
      rfl
    | false =>
      rw [beforeOrphan_cons horphan, List.forall_mem_cons] at h
      by_cases hr : r.Malformed
      · rw [List.filter_cons_of_neg (by simpa using hr), List.foldlM_cons,
          processRecord_of_malformed hr h.1]
        exact ih h.2
      · rw [List.filter_cons_of_pos (by simpa using hr), List.foldlM_cons, List.foldlM_cons]
        obtain ⟨s', hs'⟩ := (wellFormed_of_not_bad h.1 horphan).processRecord_isOk s
        rw [hs']
        exact ih h.2

/-! ### Files -/

theorem fraction_eq_error {timeouts n : UInt32}
    (h : (fraction timeouts n : Except Stop (List F)) = .error e) :
    e = .assertion := by
  unfold fraction at h
  split at h
  · cases h
  · split at h <;> cases h
    rfl

theorem writeValue_eq_error {out : Serializers F} {v : RunningValue F}
    (h : writeValue out v = .error e) : e = .assertion := by
  rcases Result.bind_eq_error h with hsend | ⟨bySend, -, h⟩
  · exact fraction_eq_error hsend
  · rcases Result.bind_eq_error h with hreceive | ⟨byReceive, -, h⟩
    · exact fraction_eq_error hreceive
    · cases h

/-- Only the reading of the records fails otherwise than by an assertion. -/
theorem readLog_of_processLog {rs : List (Option (Record F))} (he : e ≠ .assertion)
    (h : processLog filterTime table serializers rs = .error e) :
    readLog filterTime table ⟨∅, ∅, serializers⟩ rs = .error e := by
  rcases Result.bind_eq_error h with h | ⟨s, -, h⟩
  · exact h
  · obtain ⟨v, -, out, h⟩ := Result.foldlM_eq_error h
    exact absurd (writeValue_eq_error h) he

/-- Records that can be interpreted stop the reading only as orphans. -/
theorem processRecord_eq_error (hr : ¬ r.Malformed)
    (h : processRecord filterTime table s r = .error e) : e = .key := by
  cases horphan : r.orphan filterTime table with
  | true =>
    rw [processRecord_of_orphan horphan] at h
    exact (Except.error.inj h).symm
  | false =>
    obtain ⟨s', hs'⟩ := (wellFormed_of_not_bad (fun hbad => hr hbad.2) horphan).processRecord_isOk s
    rw [hs'] at h
    cases h

/-- Without bad records, a file stops by an orphan or an assertion. -/
theorem processLog_filter_eq_error
    (h : processLog filterTime table serializers
      (results parseFloat (rows.filter (interpretable parseFloat))) = .error e) :
    e = .key ∨ e = .assertion := by
  by_cases he : e = .assertion
  · exact .inr he
  · have hread := readLog_of_processLog he h
    rw [readLog, reduceOption_results_filter] at hread
    obtain ⟨r, hr, s, herror⟩ := Result.foldlM_eq_error hread
    exact .inl (processRecord_eq_error (of_decide_eq_true (List.mem_filter.mp hr).2) herror)

/-- **Robustness.** The analyser skips the rows it cannot interpret exactly if none of them is a
record after the filter time, unless an orphan has stopped it before. -/
theorem skipsBadRecords_iff (parseFloat : Text → Option F) (filterTime : F)
    (table : BootstrapTable F) (serializers : Serializers F) (rows : List (Option (List Text))) :
    SkipsBadRecords parseFloat filterTime table serializers rows ↔
      ∀ r ∈ beforeOrphan filterTime table (results parseFloat rows).reduceOption,
        ¬ r.Bad filterTime := by
  constructor
  · intro h r hr hbad
    obtain ⟨r', e, haction, he⟩ :=
      foldlM_of_bad (s := ⟨∅, ∅, serializers⟩) ⟨r, hr, hbad⟩
    have hstop : processLog filterTime table serializers (results parseFloat rows) = .error e := by
      rw [processLog, readLog, he]
      rfl
    rcases stop_of_action haction with rfl | rfl
    · exact h.index hstop
    · exact h.parse hstop
  · intro h
    have hskips : processLog filterTime table serializers (results parseFloat rows) =
        processLog filterTime table serializers
          (results parseFloat (rows.filter (interpretable parseFloat))) := by
      rw [processLog, processLog, readLog, readLog, reduceOption_results_filter, foldlM_filter h]
    refine ⟨hskips, fun hstop => ?_, fun hstop => ?_⟩
    · rw [hskips] at hstop
      rcases processLog_filter_eq_error hstop with h | h <;> cases h
    · rw [hskips] at hstop
      rcases processLog_filter_eq_error hstop with h | h <;> cases h

/-- Whole numbers, and what is not a number. -/
def parseWhole (t : Text) : Option Float :=
  if t = "NaN".toList then some (0 / 0) else (Text.parseDigits t).map Float.ofNat

/-- A file of one line, which has been cut off behind the word for a message. -/
def cutOff (time : Text) : List (Option (List Text)) :=
  [some ["0".toList, time, "alice".toList, "g".toList, "send".toList]]

/-- **Cut off.** The analyser panics over the last line of a process that was still running. A time
that is not a number is not before the filter time. -/
theorem not_skipsBadRecords_cutOff :
    (processLog 0 ∅ .empty (results parseWhole (cutOff "5".toList)) = .error .index ∧
      ¬ SkipsBadRecords parseWhole 0 ∅ .empty (cutOff "5".toList)) ∧
    processLog 0 ∅ .empty (results parseWhole (cutOff "NaN".toList)) = .error .index ∧
      ¬ SkipsBadRecords parseWhole 0 ∅ .empty (cutOff "NaN".toList) := by
  have hsend : processLog 0 ∅ .empty (results parseWhole (cutOff "5".toList)) =
      .error .index := rfl
  have hnan : processLog 0 ∅ .empty (results parseWhole (cutOff "NaN".toList)) =
      .error .index := rfl
  exact ⟨⟨hsend, fun h => h.index hsend⟩, hnan, fun h => h.index hnan⟩

end SignalSim.Mgentools
