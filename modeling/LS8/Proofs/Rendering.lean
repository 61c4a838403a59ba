import LS8.Proofs.Layout
import LS8.Proofs.Parsing

/-! Renderings of images as texts. Main statement: whatever a rendering puts around its bytes, they
are read back from it, and the machine that they are loaded into holds them. -/
namespace LS8.Image

/-- A byte in base 2, with a plus sign or without, and with any number of zeros before it. -/
def numeral (plus : Bool) (zeros : ℕ) (v : UInt8) : List Char :=
  (if plus then ['+'] else []) ++ (List.replicate zeros '0' ++ Nat.toDigits 2 v.toNat)

/-- White space that does not end a line. -/
def Space (text : List Char) : Prop := ∀ c ∈ text, Text.isBlank c ∧ c ≠ '\n'

instance (text : List Char) : Decidable (Space text) := List.decidableBAll _ text

/-- Nothing, or a `#` with a note. -/
def Comment (text : List Char) : Prop := text = [] ∨ ∃ note, text = '#' :: note ∧ '\n' ∉ note

/-- A line without its end, and the bytes that it is there for: one byte, or none if its code does not
denote one. -/
inductive RendersLine : List UInt8 → List Char → Prop
  | byte (v : UInt8) (plus : Bool) (zeros : ℕ) {before after comment : List Char}
      (left : Space before) (right : Space after) (remark : Comment comment) :
      RendersLine [v] (before ++ numeral plus zeros v ++ after ++ comment)
  | filler {line : List Char} (newline : '\n' ∉ line)
      (garbage : ∀ code, IsCode line code → ∀ n ≤ 255, ¬ Denotes code n) : RendersLine [] line

/-- A text whose lines stand for these bytes. The last line may be without an end. -/
inductive Renders : List UInt8 → List Char → Prop
  | nil : Renders [] []
  | last {bytes : List UInt8} {line : List Char} (only : RendersLine bytes line) :
      Renders bytes line
  | newline {bytes later : List UInt8} {line rest : List Char} (first : RendersLine bytes line)
      (tail : Renders later rest) : Renders (bytes ++ later) (line ++ '\n' :: rest)
  | crlf {bytes later : List UInt8} {line rest : List Char} (first : RendersLine bytes line)
      (tail : Renders later rest) : Renders (bytes ++ later) (line ++ '\r' :: '\n' :: rest)

/-- The induction takes the last digit off. -/
theorem digit_of_mem_toDigits {n : ℕ} {c : Char} (h : c ∈ Nat.toDigits 2 n) :
    c = '0' ∨ c = '1' := by
  have hd : ∀ k < 2, k.digitChar = '0' ∨ k.digitChar = '1' := by decide
  induction n using Nat.strong_induction_on with
  | _ n ih =>
    by_cases hn : n < 2
    · rw [Nat.toDigits_of_lt_base hn, List.mem_singleton] at h
      rw [h]
      exact hd n hn
    · have hle : 2 ≤ n := Nat.not_lt.mp hn
      rw [Nat.toDigits_of_base_le (by decide) hle, List.mem_append, List.mem_singleton] at h
      rcases h with h | rfl
      · exact ih (n / 2) (Nat.div_lt_self (by omega) (by decide)) h
      · exact hd (n % 2) (Nat.mod_lt n (by decide))

section Numeral

variable {plus : Bool} {zeros : ℕ} {v : UInt8}

theorem exists_bits (zeros n : ℕ) :
    ∃ bits, bits ≠ [] ∧ List.replicate zeros '0' ++ Nat.toDigits 2 n = bits.map bit ∧
      n = place bits := by
  refine binary?_eq_some_iff.mp ?_
  have hne : List.replicate zeros '0' ++ Nat.toDigits 2 n ≠ [] := by
    simp [Nat.toDigits_ne_nil]
  have hall : (List.replicate zeros '0' ++ Nat.toDigits 2 n).all fun c => c = '0' ∨ c = '1' := by
    rw [List.all_eq_true]
    intro c hc
    rcases List.mem_append.mp hc with hc | hc
    · exact decide_eq_true (Or.inl (List.eq_of_mem_replicate hc))
    · exact decide_eq_true (digit_of_mem_toDigits hc)
  rw [Text.binary?, if_pos ⟨hne, hall⟩, Nat.ofDigitChars_append, Nat.ofDigitChars_replicate_zero,
    Nat.mul_zero, Nat.ofDigitChars_toDigits (by decide) (by decide)]

theorem denotes_numeral (plus : Bool) (zeros : ℕ) (v : UInt8) :
    Denotes (numeral plus zeros v) v.toNat := by
  obtain ⟨bits, hb, hd, hv⟩ := exists_bits zeros v.toNat
  rw [numeral, hd, hv]
  cases plus with
  | false => exact .bare bits hb
  | true => exact .plus bits hb

theorem mem_numeral {c : Char} (h : c ∈ numeral plus zeros v) : c = '+' ∨ c = '0' ∨ c = '1' := by
  obtain ⟨bits, -, hd, -⟩ := exists_bits zeros v.toNat
  rw [numeral, hd] at h
  rcases List.mem_append.mp h with h | h
  · split_ifs at h
    · exact Or.inl (List.mem_singleton.mp h)
    · exact nomatch h
  · obtain ⟨b, -, rfl⟩ := List.mem_map.mp h
    exact Or.inr (bit_eq b).1

theorem not_blank_of_mem_numeral {c : Char} (h : c ∈ numeral plus zeros v) :
    ¬ Text.isBlank c ∧ c ≠ '#' ∧ c ≠ '\n' := by
  rcases mem_numeral h with rfl | rfl | rfl <;> decide

theorem Space.hash_notMem {text : List Char} (h : Space text) : '#' ∉ text := fun hm =>
  absurd (h '#' hm).1 (by decide)

theorem Space.newline_notMem {text : List Char} (h : Space text) : '\n' ∉ text := fun hm =>
  (h '\n' hm).2 rfl

theorem Comment.newline_notMem {text : List Char} (h : Comment text) : '\n' ∉ text := by
  rcases h with rfl | ⟨note, rfl, hn⟩
  · exact List.not_mem_nil
  · simpa using hn

variable {before after comment : List Char}

theorem isCode_numeral (hb : Space before) (ha : Space after) (hc : Comment comment) :
    IsCode (before ++ numeral plus zeros v ++ after ++ comment) (numeral plus zeros v) := by
  have hn : '#' ∉ numeral plus zeros v := fun hm => (not_blank_of_mem_numeral hm).2.1 rfl
  have hh : '#' ∉ before ++ numeral plus zeros v ++ after := by
    simp only [List.mem_append, not_or]
    exact ⟨⟨hb.hash_notMem, hn⟩, ha.hash_notMem⟩
  have ht : Text.Trimmed (before ++ numeral plus zeros v ++ after) (numeral plus zeros v) :=
    ⟨before, after, rfl, fun c h => (hb c h).1, fun c h => (ha c h).1,
      fun c h => (not_blank_of_mem_numeral (List.mem_of_mem_head? h)).1,
      fun c h => (not_blank_of_mem_numeral (List.mem_of_mem_getLast? h)).1⟩
  rcases hc with rfl | ⟨note, rfl, -⟩
  · exact ⟨_, hh, Or.inl (List.append_nil _), ht⟩
  · exact ⟨_, hh, Or.inr ⟨note, rfl⟩, ht⟩

end Numeral

/-- A carriage return at the end of a line is either white space or a part of the comment. -/
theorem codeOf_append_return (line : List Char) : codeOf (line ++ ['\r']) = codeOf line := by
  obtain ⟨before, hb, hl, left, right, ht, hleft, hright, hcode⟩ := isCode_codeOf line
  refine codeOf_eq_iff.mpr ?_
  rcases hl with rfl | ⟨comment, hl⟩
  · have hr : ∀ c ∈ right ++ ['\r'], Text.isBlank c := by
      intro c hc
      rcases List.mem_append.mp hc with hc | hc
      · exact hright c hc
      · rw [List.mem_singleton.mp hc]
        decide
    refine ⟨line ++ ['\r'], by simpa using hb, Or.inl rfl, left, right ++ ['\r'], ?_, hleft, hr,
      hcode⟩
    conv_lhs => rw [ht]
    exact List.append_assoc _ _ _
  · refine ⟨before, hb, Or.inr ⟨comment ++ ['\r'], ?_⟩, left, right, ht, hleft, hright, hcode⟩
    rw [hl, List.append_assoc]
    rfl

theorem codeOf_chopReturn (line : List Char) : codeOf (Text.chopReturn line) = codeOf line := by
  by_cases h : line.getLast? = some '\r'
  · obtain ⟨init, rfl⟩ := Text.exists_of_getLast?_eq_return h
    rw [Text.chopReturn_append_return, codeOf_append_return]
  · rw [Text.chopReturn_of_bare h]

section Renders

variable {bytes : List UInt8} {line text : List Char}

theorem RendersLine.newline_notMem (h : RendersLine bytes line) : '\n' ∉ line := by
  cases h with
  | filler hn hg => exact hn
  | byte v plus zeros hb ha hc =>
    have hv : '\n' ∉ numeral plus zeros v := fun hm => (not_blank_of_mem_numeral hm).2.2 rfl
    simp only [List.mem_append, not_or]
    exact ⟨⟨⟨hb.newline_notMem, hv⟩, ha.newline_notMem⟩, hc.newline_notMem⟩

theorem RendersLine.byte?_eq (h : RendersLine bytes line) :
    (byte? (codeOf line)).toList = bytes := by
  cases h with
  | byte v plus zeros hb ha hc =>
    rw [(isCode_numeral hb ha hc).codeOf_eq, byte?_eq_some_iff.mpr (denotes_numeral plus zeros v)]
    rfl
  | filler hn hg =>
    rw [byte?_eq_none_iff.mpr (hg _ (isCode_codeOf line))]
    rfl

theorem Renders.filterMap_lines (h : Renders bytes text) :
    (Text.lines text).filterMap (fun line => byte? (codeOf line)) = bytes := by
  induction h with
  | nil => rw [Text.lines_nil, List.filterMap_nil]
  | last only =>
    rw [Text.lines_of_not_mem only.newline_notMem, ← only.byte?_eq]
    split_ifs with he
    · rw [he]
      rfl
    · rw [← toList_append_filterMap, List.filterMap_nil, List.append_nil]
  | newline first tail ih =>
    rw [Text.lines_append_newline first.newline_notMem, ← toList_append_filterMap,
      codeOf_chopReturn, first.byte?_eq, ih]
  | crlf first tail ih =>
    rw [Text.lines_append_return_newline first.newline_notMem, ← toList_append_filterMap,
      first.byte?_eq, ih]

end Renders

end LS8.Image

namespace LS8

theorem Memory.read_ofImage (image : List UInt8) {k : ℕ} (hk : k < 256) :
    (ofImage image).read k.toUInt64 = .ok (image.getD k 0) := by
  have ha : k.toUInt64.toNat = k := UInt64.toNat_ofNat_of_lt' (Nat.lt_trans hk (by decide))
  rw [read_of_lt _ (by rwa [ha])]
  simp only [ofImage, ha, Vector.getElem_ofFn]

/-- Every text that renders a list of bytes is parsed to this list, which is loaded if it fits. -/
theorem Image.parse_undoes_rendering {bytes : List UInt8} {text : String}
    (h : Renders bytes text.toList) :
    (parse text).bytes = bytes ∧
      (bytes.length ≤ 256 → ∃ m, Machine.withProgram (parse text).bytes = .ok m ∧
        ∀ k < 256, m.memory.read k.toUInt64 = .ok (bytes.getD k 0)) ∧
      (256 < bytes.length →
        Machine.withProgram (parse text).bytes = .error (.programTooLarge bytes.length)) := by
  have hp : (parse text).bytes = bytes := h.filterMap_lines
  rw [hp]
  refine ⟨rfl, fun hl => ⟨_, Machine.withProgram_of_le hl, fun k hk => ?_⟩,
    Machine.withProgram_of_lt⟩
  exact Memory.read_ofImage bytes hk

/-- Two bytes among other lines, the last one without an end. -/
def mixedText : String := "\t +0101 # five\r\n1 0\n\n11111111\r"

theorem Image.parse_undoes_rendering_mixed :
    Renders [5, 255] mixedText.toList ∧ (parse mixedText).bytes = [5, 255] ∧
      ∃ m, Machine.withProgram (parse mixedText).bytes = .ok m ∧ m.memory.read 1 = .ok 255 := by
  have hf : ∀ line, byte? (codeOf line) = none → '\n' ∉ line → RendersLine [] line :=
    fun line hb hn => .filler hn fun code hc => by
      rw [← hc.codeOf_eq]
      exact byte?_eq_none_iff.mp hb
  have h5 : RendersLine [5] "\t +0101 # five".toList := by
    have hb : Space ['\t', ' '] := by decide
    have ha : Space [' '] := by decide
    exact .byte 5 true 1 hb ha (Or.inr ⟨" five".toList, rfl, by decide⟩)
  have h255 : RendersLine [255] "11111111\r".toList := by
    have hb : Space [] := by decide
    have ha : Space ['\r'] := by decide
    exact .byte 255 false 0 hb ha (Or.inl rfl)
  have h : Renders [5, 255] mixedText.toList :=
    .crlf h5 (.newline (hf "1 0".toList (by decide) (by decide))
      (.newline (hf [] (by decide) (by decide)) (.last h255)))
  obtain ⟨hp, hl, -⟩ := parse_undoes_rendering h
  obtain ⟨m, hm, hr⟩ := hl (by decide)
  exact ⟨h, hp, m, hm, hr 1 (by decide)⟩

end LS8
