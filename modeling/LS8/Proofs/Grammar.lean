import LS8.Image
import Mathlib.Data.List.DropRight
import Mathlib.Data.Nat.Notation
import Mathlib.Tactic.Ring

/-! The grammar of images: what the lines of a text are, what the code of a line is, and which
number a code denotes. Main statements: each reader finds exactly what the grammar says. -/
namespace LS8

namespace Text

/-- A text and its lines. A line ends with a newline, or with a carriage return and a newline; the
last one may also end with the text. -/
inductive Lined : List Char → List (List Char) → Prop
  | nil : Lined [] []
  | last {line : List Char} (newline : '\n' ∉ line) (nonempty : line ≠ []) : Lined line [line]
  | newline {line rest : List Char} {lines : List (List Char)} (newline : '\n' ∉ line)
      (bare : line.getLast? ≠ some '\r') (tail : Lined rest lines) :
      Lined (line ++ '\n' :: rest) (line :: lines)
  | crlf {line rest : List Char} {lines : List (List Char)} (newline : '\n' ∉ line)
      (tail : Lined rest lines) : Lined (line ++ '\r' :: '\n' :: rest) (line :: lines)

theorem chopReturn_of_bare {line : List Char} (h : line.getLast? ≠ some '\r') :
    chopReturn line = line := if_neg h

@[simp] theorem chopReturn_append_return (line : List Char) :
    chopReturn (line ++ ['\r']) = line := by
  simp [chopReturn]

theorem exists_of_getLast?_eq_return {line : List Char} (h : line.getLast? = some '\r') :
    ∃ init, line = init ++ ['\r'] :=
  ⟨line.dropLast, (List.dropLast_append_getLast? '\r' h).symm⟩

/-- The line of a text that ends with a carriage return and a newline. -/
theorem lines_append_return_newline {line : List Char} (h : '\n' ∉ line) (rest : List Char) :
    lines (line ++ '\r' :: '\n' :: rest) = line :: lines rest := by
  have hr : '\n' ∉ line ++ ['\r'] := by simpa using h
  have he := lines_append_newline hr rest
  rw [chopReturn_append_return, List.append_assoc] at he
  exact he

theorem Lined.lines_eq {text : List Char} {ls : List (List Char)} (h : Lined text ls) :
    lines text = ls := by
  induction h with
  | nil => exact lines_nil
  | last newline nonempty => rw [lines_of_not_mem newline, if_neg nonempty]
  | newline newline bare _ ih =>
    rw [lines_append_newline newline, chopReturn_of_bare bare, ih]
  | crlf newline _ ih => rw [lines_append_return_newline newline, ih]

/-- The induction is on the length of the text, since a line is taken off it at once. -/
theorem lined_lines (text : List Char) : Lined text (lines text) := by
  induction hn : text.length using Nat.strong_induction_on generalizing text with
  | _ n ih =>
    by_cases h : '\n' ∈ text
    · obtain ⟨line, rest, rfl, hl⟩ := List.eq_append_cons_of_mem h
      have hlt : rest.length < n := by
        rw [← hn, List.length_append, List.length_cons]
        omega
      have hr : Lined rest (lines rest) := ih rest.length hlt rest rfl
      by_cases hc : line.getLast? = some '\r'
      · obtain ⟨init, rfl⟩ := exists_of_getLast?_eq_return hc
        have hi : '\n' ∉ init := fun hm => hl (List.mem_append_left _ hm)
        rw [List.append_assoc]
        change Lined (init ++ '\r' :: '\n' :: rest) (lines (init ++ '\r' :: '\n' :: rest))
        rw [lines_append_return_newline hi]
        exact .crlf hi hr
      · rw [lines_append_newline hl, chopReturn_of_bare hc]
        exact .newline hl hc hr
    · rw [lines_of_not_mem h]
      split_ifs with he
      · rw [he]
        exact .nil
      · exact .last h he

theorem lines_eq_iff {text : List Char} {ls : List (List Char)} :
    lines text = ls ↔ Lined text ls := by
  constructor
  · rintro rfl
    exact lined_lines text
  · exact Lined.lines_eq

/-- `core` is what is left of a text without the white space at both ends. -/
def Trimmed (text core : List Char) : Prop :=
  ∃ before after, text = before ++ core ++ after ∧ (∀ c ∈ before, isBlank c) ∧
    (∀ c ∈ after, isBlank c) ∧ (∀ c ∈ core.head?, ¬ isBlank c) ∧
    ∀ c ∈ core.getLast?, ¬ isBlank c

theorem dropWhile_isBlank_append {before core : List Char} (hb : ∀ c ∈ before, isBlank c)
    (hc : ∀ c ∈ core.head?, ¬ isBlank c) : (before ++ core).dropWhile isBlank = core := by
  rw [List.dropWhile_append_of_pos hb]
  cases core with
  | nil => rfl
  | cons c core => rw [List.dropWhile_cons_of_neg (hc c rfl)]

theorem trimEnd_append {core after : List Char} (ha : ∀ c ∈ after, isBlank c)
    (hc : ∀ c ∈ core.getLast?, ¬ isBlank c) : trimEnd (core ++ after) = core := by
  have hr : ∀ c ∈ core.reverse.head?, ¬ isBlank c := by rwa [List.head?_reverse]
  have hb : ∀ c ∈ after.reverse, isBlank c := fun c hm => ha c (List.mem_reverse.mp hm)
  rw [trimEnd, List.reverse_append, dropWhile_isBlank_append hb hr, List.reverse_reverse]

theorem Trimmed.trim_eq {text core : List Char} (h : Trimmed text core) : trim text = core := by
  obtain ⟨before, after, rfl, hb, ha, hh, hl⟩ := h
  rw [trim]
  by_cases hc : core = []
  · subst hc
    have hall : ∀ c ∈ before ++ [] ++ after, isBlank c := by
      intro c hm
      rw [List.append_nil] at hm
      exact (List.mem_append.mp hm).elim (hb c) (ha c)
    rw [List.dropWhile_eq_nil_iff.mpr hall]
    rfl
  · have hh' : ∀ c ∈ (core ++ after).head?, ¬ isBlank c := by
      rwa [List.head?_append_of_ne_nil _ hc]
    rw [List.append_assoc, dropWhile_isBlank_append hb hh', trimEnd_append ha hl]

theorem trimmed_trim (text : List Char) : Trimmed text (trim text) := by
  have hd : text.takeWhile isBlank ++ text.dropWhile isBlank = text :=
    List.takeWhile_append_dropWhile
  let rest := text.dropWhile isBlank
  have hr : rest.rdropWhile isBlank ++ rest.rtakeWhile isBlank = rest :=
    List.rdropWhile_append_rtakeWhile
  have ht : trim text = rest.rdropWhile isBlank := rfl
  refine ⟨text.takeWhile isBlank, rest.rtakeWhile isBlank, ?_, fun c hc => ?_, fun c hc => ?_,
    fun c hc => ?_, fun c hc => ?_⟩
  · rw [List.append_assoc, ht, hr, hd]
  · exact List.mem_takeWhile_imp hc
  · exact List.mem_rtakeWhile_imp hc
  · -- what the end loses does not reach back to the first character that stays
    have hh : rest.head? = some c := by
      rw [← hr, ← ht, List.head?_append, Option.mem_def.mp hc]
      rfl
    have hn := List.head?_dropWhile_not isBlank text
    rw [show text.dropWhile isBlank = rest from rfl, hh] at hn
    simp [hn]
  · rw [ht] at hc
    obtain ⟨hne, he⟩ := List.mem_getLast?_eq_getLast hc
    rw [he]
    exact List.rdropWhile_last_not isBlank rest hne

end Text

namespace Image

/-- The code of a line is what stands before the first `#`, without the white space around. -/
def IsCode (line code : List Char) : Prop :=
  ∃ before, '#' ∉ before ∧ (line = before ∨ ∃ comment, line = before ++ '#' :: comment) ∧
    Text.Trimmed before code

theorem takeWhile_of_no_hash {line : List Char} (h : '#' ∉ line) :
    line.takeWhile (· ≠ '#') = line :=
  List.takeWhile_eq_self_iff.mpr fun _ hc => decide_eq_true fun he => h (he ▸ hc)

theorem takeWhile_append_hash {before : List Char} (h : '#' ∉ before) (comment : List Char) :
    (before ++ '#' :: comment).takeWhile (· ≠ '#') = before := by
  have hb : ∀ c ∈ before, decide (c ≠ '#') = true := fun _ hc =>
    decide_eq_true fun he => h (he ▸ hc)
  rw [List.takeWhile_append_of_pos hb, List.takeWhile_cons_of_neg (by decide), List.append_nil]

theorem IsCode.codeOf_eq {line code : List Char} (h : IsCode line code) : codeOf line = code := by
  obtain ⟨before, hb, rfl | ⟨comment, rfl⟩, ht⟩ := h
  · rw [codeOf, takeWhile_of_no_hash hb, ht.trim_eq]
  · rw [codeOf, takeWhile_append_hash hb, ht.trim_eq]

theorem isCode_codeOf (line : List Char) : IsCode line (codeOf line) := by
  by_cases h : '#' ∈ line
  · obtain ⟨before, comment, rfl, hb⟩ := List.eq_append_cons_of_mem h
    refine ⟨before, hb, Or.inr ⟨comment, rfl⟩, ?_⟩
    rw [codeOf, takeWhile_append_hash hb]
    exact Text.trimmed_trim before
  · refine ⟨line, h, Or.inl rfl, ?_⟩
    rw [codeOf, takeWhile_of_no_hash h]
    exact Text.trimmed_trim line

theorem codeOf_eq_iff {line code : List Char} : codeOf line = code ↔ IsCode line code := by
  constructor
  · rintro rfl
    exact isCode_codeOf line
  · exact IsCode.codeOf_eq

instance (line code : List Char) : Decidable (IsCode line code) :=
  decidable_of_iff _ codeOf_eq_iff

def bit (b : Bool) : Char := if b then '1' else '0'

/-- The number that bits denote, each by its place. -/
def place : List Bool → ℕ
  | [] => 0
  | b :: bits => b.toNat * 2 ^ bits.length + place bits

/-- A code denotes a number if it is at least one binary digit, with a plus sign or without. -/
inductive Denotes : List Char → ℕ → Prop
  | bare (bits : List Bool) (h : bits ≠ []) : Denotes (bits.map bit) (place bits)
  | plus (bits : List Bool) (h : bits ≠ []) : Denotes ('+' :: bits.map bit) (place bits)

theorem bit_eq (b : Bool) : (bit b = '0' ∨ bit b = '1') ∧ bit b ≠ '+' ∧
    (bit b).toNat - '0'.toNat = b.toNat := by
  cases b <;> decide

theorem ofDigitChars_map_bit (bits : List Bool) (n : ℕ) :
    Nat.ofDigitChars 2 (bits.map bit) n = n * 2 ^ bits.length + place bits := by
  induction bits generalizing n with
  | nil => simp [place]
  | cons b bits ih =>
    obtain ⟨-, -, hb⟩ := bit_eq b
    rw [List.map_cons, Nat.ofDigitChars_cons, hb, ih, place, List.length_cons, pow_succ]
    ring

theorem exists_map_bit {text : List Char} (h : ∀ c ∈ text, c = '0' ∨ c = '1') :
    ∃ bits : List Bool, text = bits.map bit := by
  induction text with
  | nil => exact ⟨[], rfl⟩
  | cons c text ih =>
    obtain ⟨bits, rfl⟩ := ih fun d hd => h d (List.mem_cons_of_mem c hd)
    rcases h c List.mem_cons_self with rfl | rfl
    · exact ⟨false :: bits, rfl⟩
    · exact ⟨true :: bits, rfl⟩

theorem binary?_eq_some_iff {text : List Char} {n : ℕ} :
    Text.binary? text = some n ↔ ∃ bits, bits ≠ [] ∧ text = bits.map bit ∧ n = place bits := by
  have hv : ∀ bits : List Bool, Nat.ofDigitChars 2 (bits.map bit) 0 = place bits := fun bits => by
    rw [ofDigitChars_map_bit, Nat.zero_mul, Nat.zero_add]
  unfold Text.binary?
  constructor
  · intro h
    split_ifs at h with hd
    obtain ⟨bits, rfl⟩ := exists_map_bit fun c hc => of_decide_eq_true (List.all_eq_true.mp hd.2 c hc)
    refine ⟨bits, fun hb => hd.1 (by rw [hb]; rfl), rfl, ?_⟩
    rw [← hv, Option.some.inj h]
  · rintro ⟨bits, hb, rfl, rfl⟩
    have hall : (bits.map bit).all fun c => c = '0' ∨ c = '1' := by
      rw [List.all_map, List.all_eq_true]
      exact fun b _ => decide_eq_true (bit_eq b).1
    rw [if_pos ⟨fun he => hb (List.map_eq_nil_iff.mp he), hall⟩, hv]

theorem unsign_map_bit (bits : List Bool) : unsign (bits.map bit) = bits.map bit := by
  cases bits with
  | nil => rfl
  | cons b bits => cases b <;> rfl

theorem unsign_eq (code : List Char) : code = unsign code ∨ code = '+' :: unsign code := by
  unfold unsign
  split
  · exact Or.inr rfl
  · exact Or.inl rfl

theorem binary?_unsign_eq_some_iff {code : List Char} {n : ℕ} :
    Text.binary? (unsign code) = some n ↔ Denotes code n := by
  rw [binary?_eq_some_iff]
  constructor
  · rintro ⟨bits, hb, hu, rfl⟩
    rcases unsign_eq code with hc | hc
    · rw [hc, hu]
      exact .bare bits hb
    · rw [hc, hu]
      exact .plus bits hb
  · rintro (⟨bits, hb⟩ | ⟨bits, hb⟩)
    · exact ⟨bits, hb, unsign_map_bit bits, rfl⟩
    · exact ⟨bits, hb, rfl, rfl⟩

theorem byte?_eq_some_iff {code : List Char} {v : UInt8} :
    byte? code = some v ↔ Denotes code v.toNat := by
  rw [← binary?_unsign_eq_some_iff]
  unfold byte?
  cases Text.binary? (unsign code) with
  | none => simp
  | some n =>
    simp only [Option.some.injEq]
    constructor
    · intro h
      split_ifs at h with hn
      rw [← Option.some.inj h]
      exact (UInt8.toNat_ofNat_of_lt' hn).symm
    · rintro rfl
      rw [if_pos v.toNat_lt]
      exact congrArg some UInt8.ofNat_toNat

theorem byte?_eq_none_iff {code : List Char} :
    byte? code = none ↔ ∀ n ≤ 255, ¬ Denotes code n := by
  rw [Option.eq_none_iff_forall_ne_some]
  constructor
  · intro h n hn hd
    have hv : n.toUInt8.toNat = n := UInt8.toNat_ofNat_of_lt' (Nat.lt_succ_of_le hn)
    exact h n.toUInt8 (byte?_eq_some_iff.mpr (by rwa [hv]))
  · intro h v hv
    exact h v.toNat (Nat.le_of_lt_succ v.toNat_lt) (byte?_eq_some_iff.mp hv)

end Image

end LS8
