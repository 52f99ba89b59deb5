import SignalSim.SamExtractor.Process

/-!
# The file between the two programs

What `log_counters` writes for a user, followed by a line of states, is what `parse_stats_file`
reads back.

## Main results

* `parseStatsFile_logCounters` — runs with at least one counter, and the states, come back
-/

namespace SignalSim.SamExtractor

/-- A state as the hidden Markov model writes it. -/
def stateText : State → Text
  | .idle => ['0']
  | .active => ['1']

/-- The line of states that is added to the file of a user. -/
def stateLine (states : List State) : Text := formatList (states.map stateText)

/-- The sizes of a run fit into `usize`. -/
structure DataRun.Sized (run : DataRun) : Prop where
  ne_nil : run.minuteCounters ≠ []
  length_lt : run.minuteCounters.length < UInt64.size
  firstMessage_lt : run.firstMessage < UInt64.size

section

variable {α : Type*} {xs ys zs : List α}

theorem slice_eq_some {i j : ℕ} {ys : List α} :
    slice xs i j = some ys ↔ (i ≤ j ∧ j ≤ xs.length) ∧ (xs.take j).drop i = ys := by
  rw [slice, Option.ite_none_right_eq_some, Option.some_inj]

theorem slice_append : slice (xs ++ ys ++ zs) xs.length (xs.length + ys.length) = some ys := by
  rw [slice_eq_some]
  constructor
  · simp
  · rw [List.append_assoc, List.take_length_add_append, List.take_left', List.drop_left']
    all_goals rfl

end

/-! ### Lists on a line -/

section

variable {α : Type*} {f : α → Text} {xs : List α}

/-- No field of a number has a comma or the end of a line in it. -/
def IsNumeral (t : Text) : Prop := ∀ c ∈ t, c.isDigit ∨ c = '-'

theorem isNumeral_ofNat (n : ℕ) : IsNumeral (Text.ofNat n) :=
  fun _ hc => .inl (Text.isDigit_of_mem_ofNat hc)

theorem isNumeral_ofInt (z : ℤ) : IsNumeral (Text.ofInt z) :=
  fun _ => Text.isDigit_or_eq_of_mem_ofInt

theorem isNumeral_stateText (s : State) : IsNumeral (stateText s) := by
  cases s <;> simp [IsNumeral, stateText]

theorem IsNumeral.not_mem {t : Text} (h : IsNumeral t) {c : Char} (hdigit : ¬ c.isDigit)
    (hc : c ≠ '-') : c ∉ t := by
  intro hmem
  rcases h c hmem with hd | hd
  · exact hdigit hd
  · exact hc hd

theorem fields_numerals (hf : ∀ x, IsNumeral (f x)) (hne : xs ≠ []) :
    Text.fields (Text.commaSeparated (xs.map f)) = xs.map f := by
  apply Text.fields_commaSeparated
  · simpa using hne
  · intro t ht
    obtain ⟨x, -, rfl⟩ := List.mem_map.mp ht
    exact (hf x).not_mem (by decide) (by decide)

theorem lines_formatList (hf : ∀ x, IsNumeral (f x)) (rest : Text) :
    Text.lines (formatList (xs.map f) ++ rest) =
      Text.commaSeparated (xs.map f) :: Text.lines rest := by
  apply Text.lines_line
  intro c hc
  rcases Text.mem_commaSeparated hc with rfl | ⟨t, ht, hc⟩
  · decide
  · obtain ⟨x, -, rfl⟩ := List.mem_map.mp ht
    constructor <;> rintro rfl
    · exact (hf x).not_mem (by decide) (by decide) hc
    · exact (hf x).not_mem (by decide) (by decide) hc

/-- A list whose elements are read back one by one. -/
theorem mapM_map_eq_some {β : Type*} {g : Text → Option β} {h : β → α}
    (hg : ∀ x ∈ xs, (g (f x)).map h = some x) :
    ((xs.map f).mapM g).map (·.map h) = some xs := by
  induction xs with
  | nil => rfl
  | cons x xs ih =>
    obtain ⟨b, hb, hk⟩ := Option.map_eq_some_iff.mp (hg x List.mem_cons_self)
    obtain ⟨bs, hbs, hks⟩ :=
      Option.map_eq_some_iff.mp (ih fun y hy => hg y (List.mem_cons_of_mem x hy))
    rw [List.map_cons, List.mapM_cons, hb, hbs]
    simp [hk, hks]

end

/-! ### The runs -/

/-- The loop over `lens` takes the counters of one run after the other. -/
theorem parseDataRuns_eq (dataRuns : List DataRun) (hsized : ∀ r ∈ dataRuns, r.Sized)
    (done : List UInt16) :
    parseDataRuns (done ++ dataRuns.flatMap (·.minuteCounters)) done.length
      (dataRuns.map fun r => Text.ofNat r.minuteCounters.length)
      (dataRuns.map fun r => Text.ofInt r.conversationId.toInt)
      (dataRuns.map fun r => Text.ofNat r.firstMessage) = some dataRuns := by
  induction dataRuns generalizing done with
  | nil => rfl
  | cons r rs ih =>
    have hr := hsized r List.mem_cons_self
    have hrest := ih (fun q hq => hsized q (List.mem_cons_of_mem r hq)) (done ++ r.minuteCounters)
    rw [List.length_append, List.append_assoc] at hrest
    -- `index` is behind the counters of the runs that are done
    have hslice : slice (done ++ (r :: rs).flatMap (·.minuteCounters)) done.length
        (done.length + r.minuteCounters.length) = some r.minuteCounters := by
      rw [List.flatMap_cons, ← List.append_assoc]
      exact slice_append
    have hid : Text.parseInt 2147483648 (Text.ofInt r.conversationId.toInt) =
        some r.conversationId.toInt :=
      Text.parseInt_ofInt r.conversationId.le_toInt r.conversationId.toInt_lt
    simp only [List.map_cons, parseDataRuns, Text.parseNat_ofNat hr.length_lt,
      Text.parseNat_ofNat hr.firstMessage_lt, hid, Option.bind_eq_bind, Option.bind_some, hslice]
    rw [List.flatMap_cons, hrest]
    simp

/-- The line of counters has a number in it: a line without one would not parse. -/
theorem minuteCounters_ne_nil {dataRuns : List DataRun} (hruns : dataRuns ≠ [])
    (hsized : ∀ r ∈ dataRuns, r.Sized) : dataRuns.flatMap (·.minuteCounters) ≠ [] := by
  obtain ⟨r, rs, rfl⟩ := List.exists_cons_of_ne_nil hruns
  rw [List.flatMap_cons]
  exact List.append_ne_nil_of_left_ne_nil (hsized r List.mem_cons_self).ne_nil _

/-- **Round trip.** The file of a user with a line of states gives back the runs and the
states, whatever follows. -/
theorem parseStatsFile_logCounters (user : UserId) {dataRuns : List DataRun}
    {states : List State} (hruns : dataRuns ≠ []) (hsized : ∀ r ∈ dataRuns, r.Sized)
    (hstates : states ≠ []) (rest : Text) :
    parseStatsFile user (logCounters dataRuns ++ stateLine states ++ rest) =
      some ⟨⟨user, dataRuns⟩, states⟩ := by
  have hcounters := minuteCounters_ne_nil hruns hsized
  have hparse : (((dataRuns.flatMap (·.minuteCounters)).map fun c => Text.ofNat c.toNat).mapM
      (Text.parseNat UInt16.size)).map (·.map UInt16.ofNat) =
        some (dataRuns.flatMap (·.minuteCounters)) := by
    apply mapM_map_eq_some
    intro c _
    rw [Text.parseNat_ofNat c.toNat_lt_size, Option.map_some, UInt16.ofNat_toNat]
  obtain ⟨counters, hcs, hback⟩ := Option.map_eq_some_iff.mp hparse
  have hruns' := parseDataRuns_eq dataRuns hsized []
  have hstate : (states.map stateText).map parseState = states := by
    rw [List.map_map]
    apply List.map_id''
    intro s
    cases s <;> rfl
  -- every line ends before the next one begins, as no numeral has the end of a line in it
  unfold parseStatsFile logCounters stateLine
  simp only [List.append_assoc]
  rw [lines_formatList fun c => isNumeral_ofNat _, lines_formatList fun r => isNumeral_ofNat _,
    lines_formatList fun r => isNumeral_ofInt _, lines_formatList fun r => isNumeral_ofNat _,
    lines_formatList isNumeral_stateText]
  simp only
  rw [fields_numerals (fun c => isNumeral_ofNat _) hcounters,
    fields_numerals (fun r => isNumeral_ofNat _) hruns,
    fields_numerals (fun r => isNumeral_ofInt _) hruns,
    fields_numerals (fun r => isNumeral_ofNat _) hruns,
    fields_numerals isNumeral_stateText hstates, hcs, hstate]
  simp only [Option.bind_eq_bind, Option.bind_some, hback]
  rw [List.nil_append, List.length_nil] at hruns'
  rw [hruns']
  rfl

end SignalSim.SamExtractor
