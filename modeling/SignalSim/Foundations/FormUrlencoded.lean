import Mathlib.Data.List.Infix
import Mathlib.Data.List.TakeWhile
import SignalSim.Foundations.Text

/-!
# Form-urlencoded queries

Parsers of `application/x-www-form-urlencoded`: pairs of a name and a value between ampersands, in
which a plus sign stands for a space and a percent sign with two hexadecimal digits for a byte. A
byte is the character that has its number.

## Main definitions

* `FormParser` — a parser of forms, with what it says of itself
* `FormUrlencoded.Escaped` — a byte is written with a percent sign
* `FormUrlencoded.standard` — one parser

## Main results

* `FormParser.decode_eq_self_iff` — which names and values stand for themselves
* `FormParser.exists_of_mem_parse` — a value is no longer than what is parsed
* `FormParser.mem_parse_iff` — which values come back as they were written
-/

namespace SignalSim

namespace FormUrlencoded

/-- The value of a hexadecimal digit. -/
def hexValue (c : Char) : Option ℕ :=
  if '0' ≤ c ∧ c ≤ '9' then some (c.toNat - '0'.toNat)
  else if 'a' ≤ c ∧ c ≤ 'f' then some (c.toNat - 'a'.toNat + 10)
  else if 'A' ≤ c ∧ c ≤ 'F' then some (c.toNat - 'A'.toNat + 10)
  else none

/-- The byte whose digits a text begins with. -/
def byteOf : Text → Option Char
  | h :: l :: _ => (hexValue h).bind fun a => (hexValue l).map fun b => Char.ofNat (16 * a + b)
  | _ => none

/-- A byte is written with a percent sign. -/
def Escaped (t : Text) : Prop := ∃ u, '%' :: u <:+ t ∧ (byteOf u).isSome

def Ascii (t : Text) : Prop := ∀ c ∈ t, c.toNat < 128

instance : DecidablePred Ascii := List.decidableBAll (Char.toNat · < 128)

variable {t : Text} {c : Char}

theorem escaped_cons : Escaped (c :: t) ↔ (c = '%' ∧ (byteOf t).isSome) ∨ Escaped t := by
  constructor
  · rintro ⟨u, hu, hbyte⟩
    rcases List.suffix_cons_iff.mp hu with heq | hu
    · obtain ⟨rfl, rfl⟩ := List.cons.inj heq
      exact .inl ⟨rfl, hbyte⟩
    · exact .inr ⟨u, hu, hbyte⟩
  · rintro (⟨rfl, hbyte⟩ | ⟨u, hu, hbyte⟩)
    · exact ⟨t, List.suffix_rfl, hbyte⟩
    · exact ⟨u, hu.trans (List.suffix_cons _ _), hbyte⟩

theorem not_escaped_nil : ¬ Escaped [] := by
  rintro ⟨u, hu, -⟩
  cases List.suffix_nil.mp hu

theorem two_le_length_of_byteOf (h : byteOf t = some c) : 2 ≤ t.length := by
  match t, h with
  | _ :: _ :: rest, _ => exact Nat.le_add_left 2 rest.length

end FormUrlencoded

open FormUrlencoded

/-- A parser of forms. -/
structure FormParser where
  /-- The names and values of a form. -/
  parse : Text → List (String × String)
  /-- The bytes that a name or a value is written for. -/
  decode : Text → Text
  /-- The string of these bytes. -/
  lossy : Text → String
  parse_nil : parse [] = []
  parse_append (t u : Text) : parse (t ++ '&' :: u) = parse t ++ parse u
  /-- The value begins after the first equals sign. -/
  parse_pair (name value : Text) : '=' ∉ name → '&' ∉ name → '&' ∉ value →
    parse (name ++ '=' :: value) = [(lossy (decode name), lossy (decode value))]
  /-- Without one there is no value. -/
  parse_name (name : Text) : name ≠ [] → '=' ∉ name → '&' ∉ name →
    parse name = [(lossy (decode name), lossy [])]
  decode_nil : decode [] = []
  decode_plus (t : Text) : decode ('+' :: t) = ' ' :: decode t
  /-- The digits behind a percent sign are taken with it. -/
  decode_percent (t : Text) (c : Char) : byteOf t = some c →
    decode ('%' :: t) = c :: decode (t.drop 2)
  /-- Other ASCII characters are their bytes. -/
  decode_cons (c : Char) (t : Text) : c.toNat < 128 → c ≠ '+' →
    ¬ (c = '%' ∧ (byteOf t).isSome) → decode (c :: t) = c :: decode t
  /-- No other bytes give an ASCII string than those of the string. -/
  lossy_ascii (bytes : Text) (s : String) : Ascii s.toList →
    (lossy bytes = s ↔ bytes = s.toList)

namespace FormParser

variable {forms : FormParser} {t name value : Text} {c : Char} {m s : String} {p : String × String}

/-! ### Decoding -/

theorem length_decode_le (ht : Ascii t) : (forms.decode t).length ≤ t.length := by
  induction hn : t.length using Nat.strong_induction_on generalizing t with
  | _ n ih =>
    subst hn
    cases t with
    | nil => simp [forms.decode_nil]
    | cons c t =>
      obtain ⟨hc, htail⟩ := List.forall_mem_cons.mp ht
      have hrest := ih t.length (Nat.lt_succ_self _) htail rfl
      by_cases hplus : c = '+'
      · subst hplus
        rw [forms.decode_plus]
        exact Nat.succ_le_succ hrest
      by_cases hpercent : c = '%' ∧ (byteOf t).isSome
      · obtain ⟨rfl, hbyte⟩ := hpercent
        obtain ⟨b, hb⟩ := Option.isSome_iff_exists.mp hbyte
        have hlen : (t.drop 2).length < ('%' :: t).length := by
          rw [List.length_drop, List.length_cons]
          omega
        rw [forms.decode_percent t b hb]
        have hdrop : Ascii (t.drop 2) := fun c hc => htail c (List.mem_of_mem_drop hc)
        exact Nat.lt_of_le_of_lt (ih _ hlen hdrop rfl) hlen
      · rw [forms.decode_cons c t hc hplus hpercent]
        exact Nat.succ_le_succ hrest

/-- **Verbatim.** What stands for itself has no plus sign and no byte written with a percent
sign. -/
theorem decode_eq_self_iff (ht : Ascii t) : forms.decode t = t ↔ '+' ∉ t ∧ ¬ Escaped t := by
  induction t with
  | nil => simp [forms.decode_nil, not_escaped_nil]
  | cons c t ih =>
    obtain ⟨hc, htail⟩ := List.forall_mem_cons.mp ht
    rw [List.mem_cons, escaped_cons]
    by_cases hplus : c = '+'
    · subst hplus
      simp [forms.decode_plus]
    by_cases hpercent : c = '%' ∧ (byteOf t).isSome
    · refine iff_of_false (fun h => ?_) (fun h => h.2 (.inl hpercent))
      obtain ⟨rfl, hbyte⟩ := hpercent
      obtain ⟨b, hb⟩ := Option.isSome_iff_exists.mp hbyte
      -- three characters have become one
      have htwo := two_le_length_of_byteOf hb
      have hle : (forms.decode (t.drop 2)).length ≤ (t.drop 2).length :=
        length_decode_le fun c hc => htail c (List.mem_of_mem_drop hc)
      have hlen := congrArg List.length h
      rw [forms.decode_percent t b hb, List.length_cons, List.length_cons] at hlen
      rw [List.length_drop] at hle
      omega
    · simp [forms.decode_cons c t hc hplus hpercent, ih htail, Ne.symm hplus, hpercent]

/-! ### Pairs -/

/-- A value is what a part of the form is written for. -/
theorem exists_of_mem_parse (hp : p ∈ forms.parse t) :
    ∃ v : Text, p.2 = forms.lossy (forms.decode v) ∧ v.Sublist t := by
  induction hn : t.length using Nat.strong_induction_on generalizing t with
  | _ n ih =>
    subst hn
    by_cases hamp : '&' ∈ t
    · obtain ⟨a, b, rfl, -⟩ := List.eq_append_cons_of_mem hamp
      rw [forms.parse_append, List.mem_append] at hp
      rw [List.length_append, List.length_cons] at ih
      rcases hp with hp | hp
      · obtain ⟨v, hv, hsub⟩ := ih a.length (by omega) hp rfl
        exact ⟨v, hv, hsub.trans (List.sublist_append_left a _)⟩
      · obtain ⟨v, hv, hsub⟩ := ih b.length (by omega) hp rfl
        exact ⟨v, hv, (hsub.cons '&').trans (List.sublist_append_right a _)⟩
    by_cases heq : '=' ∈ t
    · obtain ⟨name, value, rfl, hname⟩ := List.eq_append_cons_of_mem heq
      simp only [List.mem_append, List.mem_cons, not_or] at hamp
      rw [forms.parse_pair name value hname hamp.1 hamp.2.2, List.mem_singleton] at hp
      subst hp
      exact ⟨value, rfl, ((List.Sublist.refl value).cons '=').trans
        (List.sublist_append_right name _)⟩
    · by_cases hnil : t = []
      · subst hnil
        rw [forms.parse_nil] at hp
        cases hp
      · rw [forms.parse_name t hnil heq hamp, List.mem_singleton] at hp
        subst hp
        exact ⟨[], by rw [forms.decode_nil], List.nil_sublist t⟩

/-- The value of the first pair is what comes before an ampersand, and every value is part of what
comes after the first equals sign. -/
theorem exists_of_mem_parse_pair (hname : '=' ∉ name ∧ '&' ∉ name)
    (hp : p ∈ forms.parse (name ++ '=' :: value)) :
    ∃ v : Text, p.2 = forms.lossy (forms.decode v) ∧ v.Sublist value ∧
      ('&' ∈ value → v.length < value.length) := by
  by_cases hmem : '&' ∈ value
  · obtain ⟨v, rest, rfl, hv⟩ := List.eq_append_cons_of_mem hmem
    rw [← List.cons_append, ← List.append_assoc, forms.parse_append,
      forms.parse_pair name v hname.1 hname.2 hv, List.mem_append, List.mem_singleton] at hp
    rw [List.length_append, List.length_cons]
    rcases hp with rfl | hp
    · exact ⟨v, rfl, List.sublist_append_left v _, fun _ => by omega⟩
    · obtain ⟨u, hu, hsub⟩ := exists_of_mem_parse hp
      have hle := hsub.length_le
      exact ⟨u, hu, (hsub.cons '&').trans (List.sublist_append_right v _), fun _ => by omega⟩
  · rw [forms.parse_pair name value hname.1 hname.2 hmem, List.mem_singleton] at hp
    subst hp
    exact ⟨value, rfl, List.Sublist.refl _, fun h => absurd h hmem⟩

/-- An ASCII value is no longer than what it is written as. -/
theorem length_le_of_lossy (hs : Ascii s.toList) (hvalue : Ascii value)
    (h : s = forms.lossy (forms.decode value)) : s.toList.length ≤ value.length := by
  rw [← (forms.lossy_ascii _ s hs).mp h.symm]
  exact length_decode_le hvalue

/-- **One value.** An ASCII value that is written as it is comes back exactly if it stands for
itself and has no ampersand. -/
theorem mem_parse_iff (hname : '=' ∉ name ∧ '&' ∉ name) (hs : Ascii s.toList) :
    (∃ m, (m, s) ∈ forms.parse (name ++ '=' :: s.toList)) ↔
      '&' ∉ s.toList ∧ '+' ∉ s.toList ∧ ¬ Escaped s.toList := by
  have hself : forms.decode s.toList = s.toList ↔ '+' ∉ s.toList ∧ ¬ Escaped s.toList :=
    decode_eq_self_iff hs
  rw [← hself]
  constructor
  · rintro ⟨m, hm⟩
    obtain ⟨v, hv, hsub, hlt⟩ := exists_of_mem_parse_pair hname hm
    have hascii : Ascii v := fun c hc => hs c (hsub.subset hc)
    have hmem : '&' ∉ s.toList := fun hmem =>
      absurd (length_le_of_lossy hs hascii hv) (Nat.not_le_of_lt (hlt hmem))
    refine ⟨hmem, ?_⟩
    rw [forms.parse_pair _ _ hname.1 hname.2 hmem, List.mem_singleton] at hm
    exact (forms.lossy_ascii _ s hs).mp (Prod.mk.inj hm).2.symm
  · rintro ⟨hmem, hdecode⟩
    refine ⟨forms.lossy (forms.decode name), ?_⟩
    rw [forms.parse_pair _ _ hname.1 hname.2 hmem, hdecode, (forms.lossy_ascii _ s hs).mpr rfl]
    exact List.mem_singleton_self _

end FormParser

/-! ### A parser -/

namespace FormUrlencoded

/-- A percent sign without two digits behind it stays. -/
def percentDecode : Text → Text
  | [] => []
  | c :: t =>
    match (if c = '%' then byteOf t else none), t with
    | some b, _ :: _ :: rest => b :: percentDecode rest
    | _, t => c :: percentDecode t

def plusToSpace (c : Char) : Char := if c = '+' then ' ' else c

def decode (t : Text) : Text := percentDecode (t.map plusToSpace)

/-- A string of the bytes if they are ASCII, and the replacement character if they are not. -/
def asciiOrReplacement (bytes : Text) : String :=
  if Ascii bytes then String.ofList bytes else "\ufffd"

/-- The name and the value of what is between ampersands. -/
def pair (t : Text) : String × String :=
  (asciiOrReplacement (decode (t.takeWhile (· ≠ '='))),
    asciiOrReplacement (decode ((t.dropWhile (· ≠ '=')).drop 1)))

/-- There is no pair where nothing is between ampersands. -/
def parse (query : Text) : List (String × String) :=
  ((query.splitOn '&').filter (· ≠ [])).map pair

variable {t : Text} {c : Char}

theorem percentDecode_byte (h : byteOf t = some c) :
    percentDecode ('%' :: t) = c :: percentDecode (t.drop 2) := by
  match t, h with
  | h' :: l :: rest, h => simp [percentDecode, h]

theorem percentDecode_cons (h : ¬ (c = '%' ∧ (byteOf t).isSome)) :
    percentDecode (c :: t) = c :: percentDecode t := by
  have hnone : (if c = '%' then byteOf t else none) = none := by
    by_cases hc : c = '%'
    · rw [if_pos hc]
      exact Option.not_isSome_iff_eq_none.mp fun hbyte => h ⟨hc, hbyte⟩
    · exact if_neg hc
  rw [percentDecode.eq_def]
  simp only [hnone]

theorem hexValue_plusToSpace (c : Char) : hexValue (plusToSpace c) = hexValue c := by
  by_cases hc : c = '+'
  · subst hc
    decide
  · rw [plusToSpace, if_neg hc]

/-- A plus sign is no digit, and neither is a space. -/
theorem byteOf_map_plusToSpace (t : Text) : byteOf (t.map plusToSpace) = byteOf t := by
  match t with
  | [] | [_] => rfl
  | h :: l :: rest => simp only [List.map_cons, byteOf, hexValue_plusToSpace]

theorem parse_of_not_mem (hne : t ≠ []) (h : '&' ∉ t) : parse t = [pair t] := by
  rw [parse, List.splitOn_eq_singleton h]
  simp [hne]

theorem asciiOrReplacement_eq_iff {bytes : Text} {s : String} (hs : Ascii s.toList) :
    asciiOrReplacement bytes = s ↔ bytes = s.toList := by
  unfold asciiOrReplacement
  split
  case isTrue => rw [← String.toList_inj, String.toList_ofList]
  case isFalse hbytes =>
    refine iff_of_false ?_ fun heq => hbytes (heq ▸ hs)
    rintro rfl
    exact absurd hs (by decide)

/-- The parser that splits at ampersands and at equals signs. -/
def standard : FormParser where
  parse := parse
  decode := decode
  lossy := asciiOrReplacement
  parse_nil := rfl
  parse_append t u := by
    rw [parse, List.splitOn_append_cons_self, List.filter_append, List.map_append]
    rfl
  parse_pair name value hname hamp hvalue := by
    have hall : ∀ c ∈ name, (decide (c ≠ '=')) = true := fun c hc =>
      decide_eq_true fun heq => hname (heq ▸ hc)
    rw [parse_of_not_mem (by simp) (by simp [hamp, hvalue]), pair,
      List.takeWhile_append_of_pos hall, List.dropWhile_append_of_pos hall]
    simp
  parse_name name hne hname hamp := by
    have hall : ∀ c ∈ name, (decide (c ≠ '=')) = true := fun c hc =>
      decide_eq_true fun heq => hname (heq ▸ hc)
    rw [parse_of_not_mem hne hamp, pair, List.takeWhile_eq_self_iff.mpr hall,
      List.dropWhile_eq_nil_iff.mpr hall]
    rfl
  decode_nil := rfl
  decode_plus t := percentDecode_cons (c := ' ') fun h => absurd h.1 (by decide)
  decode_percent t c h := by
    have hbyte := byteOf_map_plusToSpace t ▸ h
    simp only [decode, List.map_drop]
    exact percentDecode_byte hbyte
  decode_cons c t _ hplus hpercent := by
    have hc : plusToSpace c = c := if_neg hplus
    rw [decode, List.map_cons, hc]
    exact percentDecode_cons (by rwa [byteOf_map_plusToSpace])
  lossy_ascii _ _ hs := asciiOrReplacement_eq_iff hs

end FormUrlencoded

end SignalSim
