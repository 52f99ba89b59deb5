import SignalSim.Foundations.Result
import SignalSim.Hmm.GetStates
import SignalSim.SamExtractor.StatsFile

/-!
# The stats file of a user on its way through the labelling

`log_counters` writes four lines for a user, `get_w.py` reads the first two of them and writes
all four again with a line of labels and a line of rates after them, and `parse_stats_file`
takes the runs and the labels from that. The lines of numerals pass `readlines`, `strip` and
`print` as they are.

## Main definitions

* `readlines`, `strip`, `int` — what the script does to text
* `labelFile` — the file the script writes for a user's file

## Main results

* `labelFile_logCounters` — the four lines are copied, and the counters and lengths are read
* `parseStatsFile_labelled` — runs and labels are read back, and the script passes the runs on
-/

namespace SignalSim.Hmm

open SignalSim.SamExtractor

/-! ### Text -/

/-- `str.isspace`. -/
def isSpace (c : Char) : Bool :=
  let code := c.toNat
  (9 ≤ code && code ≤ 13) || (28 ≤ code && code ≤ 32) || (0x2000 ≤ code && code ≤ 0x200a) ||
    code ∈ [0x85, 0xa0, 0x1680, 0x2028, 0x2029, 0x202f, 0x205f, 0x3000]

/-- `str.strip`. -/
def strip (t : Text) : Text := ((t.dropWhile isSpace).reverse.dropWhile isSpace).reverse

/-- The ends of lines as a file opened for text has them. -/
def universalNewlines : Text → Text
  | '\r' :: '\n' :: t => '\n' :: universalNewlines t
  | '\r' :: t => '\n' :: universalNewlines t
  | c :: t => c :: universalNewlines t
  | [] => []

/-- `readlines`: the lines with their ends, and what follows the last of them. -/
def readlines (data : Text) : List Text :=
  let pieces := (universalNewlines data).splitOn '\n'
  pieces.dropLast.map Text.line ++ pieces.getLast?.toList.filter fun l => l ≠ []

/-- The digits of an `int`, in groups with underscores between them. -/
def intDigits (t : Text) : Option ℕ :=
  let groups := t.splitOn '_'
  if [] ∈ groups then none else Text.parseDigits groups.flatten

/-- `int` of a text in ASCII. -/
def int (t : Text) : Option ℤ :=
  match strip t with
  | '-' :: ds => (intDigits ds).map fun n : ℕ => -(n : ℤ)
  | '+' :: ds => (intDigits ds).map fun n : ℕ => (n : ℤ)
  | ds => (intDigits ds).map fun n : ℕ => (n : ℤ)

/-- `[int(n) for n in line.strip().split(',')]`. -/
def ints (line : Text) : Option (List ℤ) := (Text.fields (strip line)).mapM int

section Text

variable {t : Text} {c : Char}

theorem dropWhile_isSpace (h : ∀ c ∈ t, ¬ isSpace c) : t.dropWhile isSpace = t := by
  cases t with
  | nil => rfl
  | cons c t => exact List.dropWhile_cons_of_neg (h c List.mem_cons_self)

/-- A line without white space loses its end alone. -/
theorem strip_line (h : ∀ c ∈ t, ¬ isSpace c) : strip (Text.line t) = t := by
  cases t with
  | nil => rfl
  | cons c t =>
    have hfront : (Text.line (c :: t)).dropWhile isSpace = Text.line (c :: t) :=
      List.dropWhile_cons_of_neg (h c List.mem_cons_self)
    rw [strip, hfront, Text.line, List.reverse_append, List.reverse_singleton,
      List.singleton_append, List.dropWhile_cons_of_pos (by decide),
      dropWhile_isSpace fun d hd => h d (List.mem_reverse.mp hd), List.reverse_reverse]

/-- A text without white space is not stripped of anything. -/
theorem strip_of_forall (h : ∀ c ∈ t, ¬ isSpace c) : strip t = t := by
  rw [strip, dropWhile_isSpace h, dropWhile_isSpace fun d hd => h d (List.mem_reverse.mp hd),
    List.reverse_reverse]

theorem universalNewlines_line {l : Text} (h : Text.Inline l) :
    universalNewlines (Text.line l ++ t) = Text.line l ++ universalNewlines t := by
  induction l with
  | nil => rfl
  | cons c l ih =>
    have hc : c ≠ '\r' := (h c List.mem_cons_self).2
    have hl := ih fun d hd => h d (List.mem_cons_of_mem c hd)
    have hcons : ∀ s : Text, universalNewlines (c :: s) = c :: universalNewlines s := by
      intro s
      rw [universalNewlines]
      · exact fun _ hret _ => hc hret
      · exact fun hret => hc hret
    rw [Text.line, List.cons_append, List.cons_append, hcons]
    exact congrArg (c :: ·) hl

theorem readlines_line {l : Text} (h : Text.Inline l) :
    readlines (Text.line l ++ t) = Text.line l :: readlines t := by
  have hnew : '\n' ∉ l := fun hmem => (h _ hmem).1 rfl
  have hne : (universalNewlines t).splitOn '\n' ≠ [] := List.splitOn_ne_nil '\n' _
  rw [readlines, universalNewlines_line h, Text.line, List.append_assoc, List.singleton_append,
    List.splitOn_append_cons_self_of_not_mem hnew]
  simp only [List.dropLast_cons_of_ne_nil hne, List.map_cons, List.cons_append,
    List.getLast?_cons_of_ne_nil hne]
  rfl

theorem not_isSpace_of_isDigit (h : c.isDigit) : ¬ isSpace c := by
  have hcode : 48 ≤ c.toNat ∧ c.toNat ≤ 57 := by
    rw [Char.isDigit, Bool.and_eq_true, decide_eq_true_iff, decide_eq_true_iff] at h
    exact ⟨UInt32.le_iff_toNat_le.mp h.1, UInt32.le_iff_toNat_le.mp h.2⟩
  simp only [isSpace, Bool.or_eq_true, Bool.and_eq_true, decide_eq_true_iff, List.mem_cons,
    List.not_mem_nil, or_false]
  omega

theorem int_ofNat (n : ℕ) : int (Text.ofNat n) = some (n : ℤ) := by
  have hdigit : ∀ c ∈ Text.ofNat n, c.isDigit := fun c hc => Text.isDigit_of_mem_ofNat hc
  have hspace : ∀ c ∈ Text.ofNat n, ¬ isSpace c :=
    fun c hc => not_isSpace_of_isDigit (hdigit c hc)
  have hgroups : (Text.ofNat n).splitOn '_' = [Text.ofNat n] :=
    List.splitOn_eq_singleton fun h => by simpa using hdigit _ h
  have hdigits : intDigits (Text.ofNat n) = some n := by
    have hne : [] ∉ [Text.ofNat n] := fun h => Text.ofNat_ne_nil (List.mem_singleton.mp h).symm
    simp only [intDigits, hgroups, if_neg hne, List.flatten_singleton, Text.parseDigits_ofNat]
  rw [int, strip_of_forall hspace]
  -- a numeral does not start with a sign
  split
  · next heq => exact absurd (hdigit '-' (heq ▸ List.mem_cons_self)) (by decide)
  · next heq => exact absurd (hdigit '+' (heq ▸ List.mem_cons_self)) (by decide)
  · rw [hdigits]
    rfl

/-- The line of a list of numerals. -/
theorem not_isSpace_of_mem_numerals {α : Type*} {f : α → Text} (hf : ∀ x, IsNumeral (f x))
    (xs : List α) : ∀ c ∈ Text.commaSeparated (xs.map f), ¬ isSpace c := by
  intro c hc
  rcases Text.mem_commaSeparated hc with rfl | ⟨t, ht, hc⟩
  · decide
  · obtain ⟨x, -, rfl⟩ := List.mem_map.mp ht
    rcases hf x c hc with h | rfl
    · exact not_isSpace_of_isDigit h
    · decide

theorem inline_numerals {α : Type*} {f : α → Text} (hf : ∀ x, IsNumeral (f x))
    (xs : List α) : Text.Inline (Text.commaSeparated (xs.map f)) := by
  intro c hc
  constructor <;> rintro rfl
  · exact not_isSpace_of_mem_numerals hf xs _ hc (by decide)
  · exact not_isSpace_of_mem_numerals hf xs _ hc (by decide)

theorem ints_numerals {α : Type*} (f : α → ℕ) {xs : List α} (hne : xs ≠ []) :
    ints (formatList (xs.map fun x => Text.ofNat (f x))) = some (xs.map fun x => (f x : ℤ)) := by
  have hnum : ∀ x, IsNumeral (Text.ofNat (f x)) := fun x => isNumeral_ofNat _
  rw [ints, formatList, strip_line (not_isSpace_of_mem_numerals hnum xs),
    fields_numerals hnum hne]
  exact Result.mapM_map_eq_some_map fun x _ => int_ofNat (f x)

end Text

/-! ### The file -/

section File

variable {Model Score Rate : Type} [LinearOrder Score] [LinearOrder Rate]

/-- A pass of the loop over the files: what is written for the file of a user, which may be
nothing; `none` if the script raises. -/
def labelFile (hmm : PoissonHMM Model Score Rate) (str : Rate → Text) (data : Text) :
    Option (Option Text) :=
  match readlines data with
  | line0 :: line1 :: rest => do
    let counts ← ints line0
    let lens ← ints line1
    match ← hmm.getStates str counts lens with
    -- `None` cannot be unpacked
    | .empty => none
    | .unpredicted => some none
    | .labelled states lambdas =>
      match rest with
      | line2 :: line3 :: _ =>
        some (some (Text.line (strip line0) ++ Text.line (strip line1) ++
          Text.line (strip line2) ++ Text.line (strip line3) ++ Text.line states ++
          Text.line lambdas))
      | _ => none
  | _ => none

variable {hmm : PoissonHMM Model Score Rate} {str : Rate → Text} {dataRuns : List DataRun}

theorem readlines_logCounters (dataRuns : List DataRun) : readlines (logCounters dataRuns) =
    [formatList ((dataRuns.flatMap (·.minuteCounters)).map fun c => Text.ofNat c.toNat),
      formatList (dataRuns.map fun r => Text.ofNat r.minuteCounters.length),
      formatList (dataRuns.map fun r => Text.ofInt r.conversationId.toInt),
      formatList (dataRuns.map fun r => Text.ofNat r.firstMessage)] := by
  have hlast := readlines_line (t := []) (inline_numerals
    (fun r : DataRun => isNumeral_ofNat r.firstMessage) dataRuns)
  rw [List.append_nil] at hlast
  unfold logCounters formatList
  simp only [List.append_assoc]
  rw [readlines_line (inline_numerals (fun c => isNumeral_ofNat _) _),
    readlines_line (inline_numerals (fun r => isNumeral_ofNat _) _),
    readlines_line (inline_numerals (fun r => isNumeral_ofInt _) _), hlast]
  rfl

/-- The script sees the counters and the lengths of the runs, and copies the four lines. -/
theorem labelFile_logCounters (hruns : dataRuns ≠ []) (hsized : ∀ r ∈ dataRuns, r.Sized) :
    labelFile hmm str (logCounters dataRuns) =
      match hmm.getStates str ((dataRuns.flatMap (·.minuteCounters)).map fun c => (c.toNat : ℤ))
        (dataRuns.map fun r => (r.minuteCounters.length : ℤ)) with
      | none => none
      | some .empty => none
      | some .unpredicted => some none
      | some (.labelled states lambdas) =>
        some (some (logCounters dataRuns ++ Text.line states ++ Text.line lambdas)) := by
  have hcounters := minuteCounters_ne_nil hruns hsized
  have hcopy : ∀ {α : Type} {f : α → Text} (_ : ∀ x, IsNumeral (f x)) (xs : List α),
      Text.line (strip (formatList (xs.map f))) = formatList (xs.map f) := fun hf xs => by
    rw [formatList, strip_line (not_isSpace_of_mem_numerals hf xs)]
  rw [labelFile, readlines_logCounters]
  simp only [ints_numerals _ hcounters, ints_numerals _ hruns, Option.bind_eq_bind,
    Option.bind_some]
  cases hmm.getStates str ((dataRuns.flatMap (·.minuteCounters)).map fun c => (c.toNat : ℤ))
      (dataRuns.map fun r => (r.minuteCounters.length : ℤ)) with
  | none => rfl
  | some result =>
    cases result with
    | empty | unpredicted => rfl
    | labelled states lambdas =>
      simp only [Option.bind_some]
      rw [hcopy fun c => isNumeral_ofNat _, hcopy fun r => isNumeral_ofNat _,
        hcopy fun r => isNumeral_ofInt _, hcopy fun r => isNumeral_ofNat _]
      rfl

/-- What the script writes for the file of a user: the same four lines, and a line of states
before that of the rates. -/
theorem exists_of_labelFile (hruns : dataRuns ≠ []) (hsized : ∀ r ∈ dataRuns, r.Sized)
    {out : Text} (h : labelFile hmm str (logCounters dataRuns) = some (some out)) :
    ∃ states lambdas, out = logCounters dataRuns ++ stateLine states ++ Text.line lambdas := by
  rw [labelFile_logCounters hruns hsized] at h
  split at h
  · cases h
  · cases h
  · cases h
  · next line lambdas hstates =>
    obtain ⟨model, predicted, -, -, labels, rfl, -, hbinary, -⟩ :=
      PoissonHMM.getStates_eq_labelled hstates
    have hlabel : ∀ label ∈ labels, (stateText ∘ parseState) label = id label := by
      intro label hmem
      rcases hbinary label hmem with rfl | rfl
      · rfl
      · rfl
    have hlabels : (labels.map parseState).map stateText = labels := by
      rw [List.map_map, List.map_congr_left hlabel, List.map_id]
    cases h
    exact ⟨labels.map parseState, lambdas, by rw [stateLine, hlabels, formatList]⟩

/-- **Round trip.** The lines of a user's runs with a line of labels give the runs and the
labels back, whatever follows; and these are the lines the labelling script passes on. -/
theorem parseStatsFile_labelled (user : UserId) (hruns : dataRuns ≠ [])
    (hsized : ∀ r ∈ dataRuns, r.Sized) :
    (∀ states, states ≠ [] → ∀ rest,
      parseStatsFile user (logCounters dataRuns ++ stateLine states ++ rest) =
        some ⟨⟨user, dataRuns⟩, states⟩) ∧
    ∀ (hmm : PoissonHMM Model Score Rate) (str : Rate → Text) (out : Text),
      labelFile hmm str (logCounters dataRuns) = some (some out) →
        ∃ states lambdas, out = logCounters dataRuns ++ stateLine states ++ Text.line lambdas :=
  ⟨fun _ hstates rest => parseStatsFile_logCounters user hruns hsized hstates rest,
    fun _ _ _ h => exists_of_labelFile hruns hsized h⟩

end File

/-- A run with three counters. -/
def shortRun : DataRun := ⟨-7, 2, [0, 4, 1]⟩

theorem shortRun_sized : ∀ r ∈ [shortRun], r.Sized := by
  intro r hr
  obtain rfl := List.mem_singleton.mp hr
  exact ⟨by decide, by decide, by decide⟩

theorem parseStatsFile_labelled_shortRun :
    (∀ states, states ≠ [] → ∀ rest,
      parseStatsFile 5 (logCounters [shortRun] ++ stateLine states ++ rest) =
        some ⟨⟨5, [shortRun]⟩, states⟩) ∧
    ∀ (hmm : PoissonHMM ℕ ℤ ℕ) (str : ℕ → Text) (out : Text),
      labelFile hmm str (logCounters [shortRun]) = some (some out) →
        ∃ states lambdas, out = logCounters [shortRun] ++ stateLine states ++ Text.line lambdas :=
  parseStatsFile_labelled 5 (by decide) shortRun_sized

/-- A line without a label is read as a label. -/
theorem parseStatsFile_no_labels :
    parseStatsFile 5 (logCounters [shortRun] ++ stateLine []) ≠ some ⟨⟨5, [shortRun]⟩, []⟩ := by
  intro h
  have hstates := congrArg (·.map (·.states)) h
  simp only [Option.map_some] at hstates
  exact absurd hstates (by decide)

end SignalSim.Hmm
