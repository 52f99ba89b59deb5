import SignalSim.Foundations.Text

/-!
# Words and whole lines

A line as words between white space, and a file as a list of lines that are replaced one by one.

## Main results

* `Text.words_append_space` — the words of a line that is built of words
* `Text.lines_flatMap_line` — the lines of a file that is built of lines
* `Text.mapLines_flatMap_line` — the same file with each line replaced
-/

namespace SignalSim.Text

/-! ### Words -/

def isAsciiWhitespace (c : Char) : Bool :=
  c = ' ' || c = '\t' || c = '\n' || c = '\x0c' || c = '\r'

/-- What is between white space. -/
def words (t : Text) : List Text := (t.splitOnP isAsciiWhitespace).filter (· ≠ [])

/-- A word has characters, none of which are white space. -/
structure Word (t : Text) : Prop where
  ne_nil : t ≠ []
  no_space : ∀ c ∈ t, isAsciiWhitespace c = false

variable {w t : Text} {c : Char}

theorem not_isDigit_of_isAsciiWhitespace (h : isAsciiWhitespace c = true) : c.isDigit = false := by
  simp only [isAsciiWhitespace, Bool.or_eq_true, decide_eq_true_eq] at h
  rcases h with (((rfl | rfl) | rfl) | rfl) | rfl <;> rfl

/-- A numeral is in one word. -/
theorem no_space_ofInt {z : ℤ} (h : c ∈ ofInt z) : isAsciiWhitespace c = false := by
  by_contra hspace
  have hspace : isAsciiWhitespace c = true := by simpa using hspace
  rcases isDigit_or_eq_of_mem_ofInt h with hdigit | rfl
  · cases hdigit.symm.trans (not_isDigit_of_isAsciiWhitespace hspace)
  · cases hspace

theorem words_of_word (h : Word w) : words w = [w] := by
  rw [words, List.splitOnP_eq_singleton h.no_space,
    List.filter_cons_of_pos (by simpa using h.ne_nil)]
  rfl

theorem words_append_space (h : Word w) (t : Text) : words (w ++ ' ' :: t) = w :: words t := by
  rw [words, List.splitOnP_append_cons_of_forall_mem h.no_space ' ' (by decide),
    List.filter_cons_of_pos (by simpa using h.ne_nil)]
  rfl

/-! ### Lines -/

/-- Replace each line; what is behind the last newline is one too. -/
def mapLines (f : Text → Text) (t : Text) : Text := ['\n'].intercalate ((t.splitOn '\n').map f)

variable {ls : List Text} {f : Text → Text}

theorem lines_flatMap_line (h : ∀ l ∈ ls, Inline l) : lines (ls.flatMap line) = ls := by
  induction ls with
  | nil => rfl
  | cons l ls ih =>
    obtain ⟨hl, hls⟩ := List.forall_mem_cons.mp h
    rw [List.flatMap_cons, lines_line hl, ih hls]

theorem splitOn_flatMap_line (h : ∀ l ∈ ls, '\n' ∉ l) :
    (ls.flatMap line).splitOn '\n' = ls ++ [[]] := by
  induction ls with
  | nil => rfl
  | cons l ls ih =>
    obtain ⟨hl, hls⟩ := List.forall_mem_cons.mp h
    rw [List.flatMap_cons, line, List.append_assoc, List.singleton_append,
      List.splitOn_append_cons_self_of_not_mem hl, ih hls, List.cons_append]

theorem intercalate_append_nil : ['\n'].intercalate (ls ++ [[]]) = ls.flatMap line := by
  induction ls with
  | nil => rfl
  | cons l ls ih =>
    rw [List.flatMap_cons, ← ih]
    cases ls with
    | nil => simp [line]
    | cons l' ls =>
      rw [List.cons_append, List.cons_append, List.intercalate_cons_cons]
      rfl

/-- No line may be broken in two, nor one come out of nothing at the end. -/
theorem mapLines_flatMap_line (h : ∀ l ∈ ls, '\n' ∉ l) (hnil : f [] = []) :
    mapLines f (ls.flatMap line) = (ls.map f).flatMap line := by
  rw [mapLines, splitOn_flatMap_line h, List.map_append, List.map_singleton, hnil,
    intercalate_append_nil]

end SignalSim.Text
