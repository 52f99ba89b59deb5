import Mathlib.Data.Int.Init
import Mathlib.Data.Option.Basic
import Mathlib.Tactic.Common

/-!
# Lines of comma-separated decimals

Text as the list of its characters: decimal numerals and the integers they stand for, lists
separated by commas, and lines.

## Main results

* `Text.parseNat_ofNat`, `Text.parseInt_ofInt` — a number is read back from its numeral
* `Text.fields_commaSeparated` — so are the fields of a list without commas in them
* `Text.lines_line` — and the lines of a text
-/

namespace SignalSim

/-- A text, as its characters. -/
abbrev Text := List Char

instance : LawfulBEq Text := inferInstance

namespace Text

/-! ### Numerals -/

/-- The decimal numeral of a natural number. -/
def ofNat (n : ℕ) : Text := Nat.toDigits 10 n

/-- The decimal numeral of an integer. -/
def ofInt : ℤ → Text
  | .ofNat n => ofNat n
  | .negSucc n => '-' :: ofNat (n + 1)

/-- A nonempty sequence of decimal digits. -/
def parseDigits (t : Text) : Option ℕ :=
  if t ≠ [] ∧ t.all Char.isDigit then some (Nat.ofDigitChars 10 t 0) else none

/-- An unsigned integer below `bound`; a plus sign may stand before it. -/
def parseNat (bound : ℕ) : Text → Option ℕ
  | '+' :: ds => (parseDigits ds).filter (· < bound)
  | ds => (parseDigits ds).filter (· < bound)

/-- A signed integer from `-bound` up to below `bound`. -/
def parseInt (bound : ℕ) : Text → Option ℤ
  | '-' :: ds => ((parseDigits ds).filter (· ≤ bound)).map fun n : ℕ => -(n : ℤ)
  | ds => (parseNat bound ds).map fun n : ℕ => (n : ℤ)

variable {n bound : ℕ} {c : Char} {t : Text}

theorem isDigit_of_mem_ofNat (h : c ∈ ofNat n) : c.isDigit :=
  Nat.isDigit_of_mem_toDigits (by decide) (by decide) h

theorem ofNat_ne_nil : ofNat n ≠ [] := Nat.toDigits_ne_nil

@[simp] theorem parseDigits_ofNat : parseDigits (ofNat n) = some n := by
  rw [parseDigits, if_pos ⟨ofNat_ne_nil, List.all_eq_true.mpr fun _ => isDigit_of_mem_ofNat⟩]
  exact congrArg some Nat.ofDigitChars_ten_toDigits

theorem ofNat_injective : Function.Injective ofNat := by
  intro m n h
  have hparse := congrArg parseDigits h
  rwa [parseDigits_ofNat, parseDigits_ofNat, Option.some_inj] at hparse

theorem parseNat_of_head (h : t.head? ≠ some '+') :
    parseNat bound t = (parseDigits t).filter (· < bound) := by
  unfold parseNat
  split
  · exact absurd rfl h
  · rfl

theorem parseInt_of_head (h : t.head? ≠ some '-') :
    parseInt bound t = (parseNat bound t).map fun n : ℕ => (n : ℤ) := by
  unfold parseInt
  split
  · exact absurd rfl h
  · rfl

/-- A numeral does not start with a sign. -/
theorem head?_ofNat_ne (h : ¬ c.isDigit) : (ofNat n).head? ≠ some c :=
  fun hc => h (isDigit_of_mem_ofNat (List.mem_of_mem_head? hc))

theorem parseNat_ofNat (h : n < bound) : parseNat bound (ofNat n) = some n := by
  rw [parseNat_of_head (head?_ofNat_ne (by decide)), parseDigits_ofNat]
  exact Option.filter_eq_some_iff.mpr ⟨rfl, decide_eq_true h⟩

theorem parseInt_ofInt {z : ℤ} (hlow : -(bound : ℤ) ≤ z) (hhigh : z < bound) :
    parseInt bound (ofInt z) = some z := by
  cases z with
  | ofNat n =>
    rw [ofInt, parseInt_of_head (head?_ofNat_ne (by decide)),
      parseNat_ofNat (Int.ofNat_lt.mp hhigh)]
    rfl
  | negSucc n =>
    have hle : n + 1 ≤ bound := by omega
    have hfilter : (some (n + 1)).filter (· ≤ bound) = some (n + 1) :=
      Option.filter_eq_some_iff.mpr ⟨rfl, decide_eq_true hle⟩
    rw [ofInt, parseInt, parseDigits_ofNat, hfilter]
    rfl

/-- The characters of a numeral. -/
theorem ofInt_injective : Function.Injective ofInt := by
  intro z z' h
  have hread (x : ℤ) (hx : x.natAbs ≤ z.natAbs + z'.natAbs) :
      parseInt (z.natAbs + z'.natAbs + 1) (ofInt x) = some x :=
    parseInt_ofInt (by omega) (by omega)
  have hz := hread z (Nat.le_add_right _ _)
  rw [h, hread z' (Nat.le_add_left _ _)] at hz
  exact (Option.some_inj.mp hz).symm

theorem isDigit_or_eq_of_mem_ofInt {z : ℤ} (h : c ∈ ofInt z) : c.isDigit ∨ c = '-' := by
  cases z with
  | ofNat n => exact .inl (isDigit_of_mem_ofNat h)
  | negSucc n =>
    rcases List.mem_cons.mp h with rfl | h
    · exact .inr rfl
    · exact .inl (isDigit_of_mem_ofNat h)

theorem not_mem_ofInt {z : ℤ} (hdigit : c.isDigit = false) (hne : c ≠ '-') : c ∉ ofInt z := by
  intro hmem
  rcases isDigit_or_eq_of_mem_ofInt hmem with h | h
  · cases hdigit.symm.trans h
  · exact hne h

/-! ### Lists -/

/-- The fields with commas between them. -/
def commaSeparated (fields : List Text) : Text := [','].intercalate fields

/-- What is between the commas. -/
def fields (t : Text) : List Text := t.splitOn ','

theorem fields_commaSeparated {fs : List Text} (hne : fs ≠ []) (hfs : ∀ f ∈ fs, ',' ∉ f) :
    fields (commaSeparated fs) = fs :=
  List.splitOn_intercalate ',' hfs hne

theorem mem_commaSeparated {fs : List Text} (h : c ∈ commaSeparated fs) :
    c = ',' ∨ ∃ f ∈ fs, c ∈ f := by
  induction fs with
  | nil => cases h
  | cons f fs ih =>
    cases fs with
    | nil => exact .inr ⟨f, List.mem_singleton_self f, by simpa [commaSeparated] using h⟩
    | cons g fs =>
      simp only [commaSeparated, List.intercalate_cons_cons, List.mem_append,
        List.mem_singleton] at h
      rcases h with (h | h) | h
      · exact .inr ⟨f, List.mem_cons_self, h⟩
      · exact .inl h
      · rcases ih h with h | ⟨k, hk, hc⟩
        · exact .inl h
        · exact .inr ⟨k, List.mem_cons_of_mem f hk, hc⟩

/-! ### Lines -/

/-- A carriage return at the end of a line belongs to its end. -/
def stripReturn (t : Text) : Text := if t.getLast? = some '\r' then t.dropLast else t

/-- The lines of a text. What follows the last newline is a line if there is anything. -/
def lines (t : Text) : List Text :=
  let pieces := t.splitOn '\n'
  pieces.dropLast.map stripReturn ++ pieces.getLast?.toList.filter fun l => l ≠ []

/-- A line with its end. -/
def line (t : Text) : Text := t ++ ['\n']

/-- No character ends a line before its end. -/
def Inline (t : Text) : Prop := ∀ c ∈ t, c ≠ '\n' ∧ c ≠ '\r'

theorem lines_line {l : Text} (h : Inline l) : lines (line l ++ t) = l :: lines t := by
  have hnew : '\n' ∉ l := fun hmem => (h _ hmem).1 rfl
  have hreturn : stripReturn l = l := by
    rw [stripReturn, if_neg]
    exact fun hlast => (h _ (List.mem_of_getLast? hlast)).2 rfl
  have hne : t.splitOn '\n' ≠ [] := List.splitOn_ne_nil '\n' t
  rw [lines, line, List.append_assoc, List.singleton_append,
    List.splitOn_append_cons_self_of_not_mem hnew]
  simp only [List.dropLast_cons_of_ne_nil hne, List.map_cons, hreturn, List.cons_append,
    List.getLast?_cons_of_ne_nil hne]
  rfl

end Text

end SignalSim
