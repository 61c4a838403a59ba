import LS8.Proofs.Rendering

/-! Texts put together and texts laid out in another way. Main statement: the image of two texts with
a newline between them is that of the first followed by that of the second, and neither the ends of
lines nor comments nor the white space around a code are of any account. -/
namespace LS8

/-- The record of the same line of a text that begins `k` lines later. -/
def Log.Record.delay (k : ℕ) : Log.Record → Log.Record
  | .skipped line code => .skipped (line + k) code
  | r => r

namespace Text

/-- The pieces of a text between its newlines are one more than these. -/
theorem length_splitOn_newline (text : List Char) :
    (text.splitOn '\n').length = text.count '\n' + 1 := by
  induction text with
  | nil => rfl
  | cons c text ih =>
    rw [List.splitOn, List.splitOnP_cons_eq_if_modifyHead, List.count_cons]
    split_ifs with hc
    · rw [List.length_cons, ← List.splitOn, ih]
    · rw [List.length_modifyHead, ← List.splitOn, ih, Nat.add_zero]

/-- White space around a text does not change what is left of it without white space. -/
theorem Trimmed.pad {text core before after : List Char} (h : Trimmed text core)
    (hb : ∀ c ∈ before, isBlank c) (ha : ∀ c ∈ after, isBlank c) :
    Trimmed (before ++ text ++ after) core := by
  obtain ⟨left, right, rfl, hl, hr, hhead, hlast⟩ := h
  refine ⟨before ++ left, right ++ after, ?_, ?_, ?_, hhead, hlast⟩
  · simp only [List.append_assoc]
  · exact fun c hc => (List.mem_append.mp hc).elim (hb c) (hl c)
  · exact fun c hc => (List.mem_append.mp hc).elim (hr c) (ha c)

end Text

namespace Image

/-- The record of a line with this code, if it is garbage. -/
def record? (code : List Char) (number : ℕ) : Option Log.Record :=
  if code = [] ∨ (byte? code).isSome then none else some (.skipped number (String.ofList code))

/-- What is read from lines with these codes, the first of which has this number. -/
def ofCodes (number : ℕ) (codes : List (List Char)) : Parsed :=
  ⟨codes.filterMap byte?, (codes.zipIdx number).filterMap fun (code, k) => record? code k⟩

/-- The codes of the pieces of a text between its newlines. -/
def codes (text : List Char) : List (List Char) := (text.splitOn '\n').map codeOf

/-- What is read from two images one after the other. -/
def Parsed.append (p q : Parsed) : Parsed := ⟨p.bytes ++ q.bytes, p.records ++ q.records⟩

/-- What is read from the same lines `k` lines later. -/
def Parsed.delay (k : ℕ) (p : Parsed) : Parsed := ⟨p.bytes, p.records.map (Log.Record.delay k)⟩

theorem ofCodes_append (number : ℕ) (cs ds : List (List Char)) : ofCodes number (cs ++ ds) =
    (ofCodes number cs).append (ofCodes (number + cs.length) ds) := by
  simp only [ofCodes, Parsed.append, List.filterMap_append, List.zipIdx_append]

/-- A line without a code can be left out at the end. -/
theorem ofCodes_concat_blank (number : ℕ) (cs : List (List Char)) :
    ofCodes number (cs ++ [[]]) = ofCodes number cs := by
  have hb : ofCodes (number + cs.length) [[]] = ⟨[], []⟩ := rfl
  rw [ofCodes_append, hb, Parsed.append, List.append_nil, List.append_nil]

theorem record?_add (code : List Char) (number k : ℕ) :
    record? code (number + k) = (record? code number).map (Log.Record.delay k) := by
  unfold record?
  split_ifs <;> rfl

theorem ofCodes_add (number k : ℕ) (cs : List (List Char)) :
    ofCodes (number + k) cs = (ofCodes number cs).delay k := by
  have hz : cs.zipIdx (number + k) = (cs.zipIdx number).map fun (c, j) => (c, j + k) := by
    rw [List.zipIdx_eq_map_add, List.zipIdx_eq_map_add (i := number), List.map_map]
    refine List.map_congr_left fun ⟨c, j⟩ _ => ?_
    exact congrArg (c, ·) (Nat.add_right_comm number k j)
  simp only [ofCodes, Parsed.delay, hz, List.filterMap_map, List.map_filterMap, ← record?_add]
  rfl

theorem parseLines_eq (lines : List (List Char)) :
    parseLines lines = ofCodes 1 (lines.map codeOf) := by
  unfold parseLines ofCodes
  rw [List.filterMap_map, List.zipIdx_map, List.filterMap_map]
  rfl

/-- Lines can be taken to end at newlines only: a carriage return is no part of a code, and a piece
without characters has none. -/
theorem parse_eq_ofCodes (text : String) : parse text = ofCodes 1 (codes text.toList) := by
  obtain ⟨init, last, hp⟩ : ∃ init last, text.toList.splitOn '\n' = init ++ [last] :=
    ⟨_, _, (List.dropLast_concat_getLast (List.splitOn_ne_nil '\n' text.toList)).symm⟩
  have hcodes : (init.map Text.chopReturn).map codeOf = init.map codeOf := by
    rw [List.map_map]
    exact List.map_congr_left fun line _ => codeOf_chopReturn line
  have hlast : ofCodes 1 (init.map codeOf ++ ([last].filter (· ≠ [])).map codeOf) =
      ofCodes 1 (init.map codeOf ++ [codeOf last]) := by
    by_cases hl : last = []
    · have hblank : codeOf last = [] := by
        rw [hl]
        rfl
      rw [hblank, ofCodes_concat_blank, hl]
      simp
    · simp [hl]
  rw [parse, parseLines_eq, Text.lines, codes, hp]
  simp only [List.dropLast_concat, List.getLast?_concat, Option.toList_some, List.map_append,
    hcodes, hlast, List.map_singleton]

theorem parse_append_newline (x y : String) : parse (x ++ "\n" ++ y) =
    (parse x).append ((parse y).delay (x.toList.count '\n' + 1)) := by
  have ht : (x ++ "\n" ++ y).toList = x.toList ++ '\n' :: y.toList := by simp
  have hlen : (codes x.toList).length = x.toList.count '\n' + 1 := by
    rw [codes, List.length_map, Text.length_splitOn_newline]
  rw [parse_eq_ofCodes, parse_eq_ofCodes, parse_eq_ofCodes, ht, codes,
    List.splitOn_append_cons_self, List.map_append, ofCodes_append, ← ofCodes_add, ← hlen]
  rfl

/-- A line in two layouts. -/
inductive Relaid : List Char → List Char → Prop
  | same {line : List Char} (newline : '\n' ∉ line) : Relaid line line
  /-- Another comment behind the first `#`. -/
  | note {before note note' : List Char} (hash : '#' ∉ before) (newline : '\n' ∉ before ++ note)
      (newline' : '\n' ∉ note') : Relaid (before ++ '#' :: note) (before ++ '#' :: note')
  /-- A comment where there was none. -/
  | remark {line note : List Char} (hash : '#' ∉ line) (newline : '\n' ∉ line)
      (newline' : '\n' ∉ note) : Relaid line (line ++ '#' :: note)
  /-- Other white space around the code. -/
  | space {before before' code after after' comment : List Char} (hash : '#' ∉ code)
      (newline : '\n' ∉ code) (left : Space before) (left' : Space before') (right : Space after)
      (right' : Space after') (remark : Comment comment) :
      Relaid (before ++ code ++ after ++ comment) (before' ++ code ++ after' ++ comment)

/-- A text in two layouts. Each line may end in the one way here and in the other there. -/
inductive RelaidText : List Char → List Char → Prop
  | last {line line' : List Char} (only : Relaid line line') : RelaidText line line'
  | cons {line line' ending ending' rest rest' : List Char} (first : Relaid line line')
      (ends : ending = ['\n'] ∨ ending = ['\r', '\n'])
      (ends' : ending' = ['\n'] ∨ ending' = ['\r', '\n']) (tail : RelaidText rest rest') :
      RelaidText (line ++ ending ++ rest) (line' ++ ending' ++ rest')

section Relaid

variable {line line' before code after comment : List Char}

theorem Relaid.newline_notMem (h : Relaid line line') : '\n' ∉ line ∧ '\n' ∉ line' := by
  have hne : '\n' ≠ '#' := by decide
  cases h with
  | same h => exact ⟨h, h⟩
  | note _ h h' =>
    simp only [List.mem_append, List.mem_cons, not_or] at h ⊢
    exact ⟨⟨h.1, hne, h.2⟩, h.1, hne, h'⟩
  | remark _ h h' =>
    simp only [List.mem_append, List.mem_cons, not_or]
    exact ⟨h, h, hne, h'⟩
  | space _ h hl hl' hr hr' hc =>
    simp only [List.mem_append, not_or]
    exact ⟨⟨⟨⟨hl.newline_notMem, h⟩, hr.newline_notMem⟩, hc.newline_notMem⟩,
      ⟨⟨hl'.newline_notMem, h⟩, hr'.newline_notMem⟩, hc.newline_notMem⟩

theorem codeOf_append_hash (hb : '#' ∉ before) (note : List Char) :
    codeOf (before ++ '#' :: note) = codeOf before := by
  rw [codeOf, codeOf, takeWhile_append_hash hb, takeWhile_of_no_hash hb]

/-- White space and a comment around a code do not change it. -/
theorem codeOf_pad (hh : '#' ∉ code) (hb : Space before) (ha : Space after)
    (hc : Comment comment) : codeOf (before ++ code ++ after ++ comment) = codeOf code := by
  have hn : '#' ∉ before ++ code ++ after := by
    simp only [List.mem_append, not_or]
    exact ⟨⟨hb.hash_notMem, hh⟩, ha.hash_notMem⟩
  have ht : Text.Trimmed (before ++ code ++ after) (Text.trim code) :=
    (Text.trimmed_trim code).pad (fun c hm => (hb c hm).1) fun c hm => (ha c hm).1
  rw [codeOf_eq_iff, codeOf, takeWhile_of_no_hash hh]
  rcases hc with rfl | ⟨note, rfl, -⟩
  · exact ⟨_, hn, Or.inl (List.append_nil _), ht⟩
  · exact ⟨_, hn, Or.inr ⟨note, rfl⟩, ht⟩

theorem Relaid.codeOf_eq (h : Relaid line line') : codeOf line' = codeOf line := by
  cases h with
  | same _ => rfl
  | note hb _ _ => rw [codeOf_append_hash hb, codeOf_append_hash hb]
  | remark hb _ _ => rw [codeOf_append_hash hb]
  | space hh _ hl hl' hr hr' hc => rw [codeOf_pad hh hl' hr' hc, codeOf_pad hh hl hr hc]

/-- The code of a line is read before its end. -/
theorem codes_append_ending {ending : List Char} (hn : '\n' ∉ line)
    (he : ending = ['\n'] ∨ ending = ['\r', '\n']) (rest : List Char) :
    codes (line ++ ending ++ rest) = codeOf line :: codes rest := by
  rcases he with rfl | rfl
  · rw [codes, List.append_assoc, List.singleton_append,
      List.splitOn_append_cons_self_of_not_mem hn, List.map_cons, codes]
  · have hr : '\n' ∉ line ++ ['\r'] := by simpa using hn
    have hsplit : line ++ ['\r', '\n'] ++ rest = (line ++ ['\r']) ++ '\n' :: rest := by simp
    rw [codes, hsplit, List.splitOn_append_cons_self_of_not_mem hr, List.map_cons,
      codeOf_append_return, codes]

theorem RelaidText.codes_eq {text text' : List Char} (h : RelaidText text text') :
    codes text' = codes text := by
  induction h with
  | last only =>
    obtain ⟨hn, hn'⟩ := only.newline_notMem
    rw [codes, codes, List.splitOn_eq_singleton hn, List.splitOn_eq_singleton hn',
      List.map_singleton, List.map_singleton, only.codeOf_eq]
  | cons first ends ends' _ ih =>
    obtain ⟨hn, hn'⟩ := first.newline_notMem
    rw [codes_append_ending hn ends, codes_append_ending hn' ends', first.codeOf_eq, ih]

end Relaid

/-- The image and the records of two texts with a newline between them are those of the first, and
then those of the second with all its lines delayed; and they are the same for every layout of a
text. -/
theorem parse_composes (x y : String) :
    (parse (x ++ "\n" ++ y)).bytes = (parse x).bytes ++ (parse y).bytes ∧
      (parse (x ++ "\n" ++ y)).records = (parse x).records ++
        (parse y).records.map (Log.Record.delay (x.toList.count '\n' + 1)) ∧
      ∀ text text' : String, RelaidText text.toList text'.toList → parse text' = parse text := by
  rw [parse_append_newline]
  refine ⟨rfl, rfl, fun text text' h => ?_⟩
  rw [parse_eq_ofCodes, parse_eq_ofCodes, h.codes_eq]

/-- Three lines, the first and the last of which are garbage. -/
def plainText : String := "2\n101#five\n\u2028x"

/-- The same lines with other ends, another comment and other white space. -/
def fancyText : String := "2#\r\n101# 5\r\n\t x \u0085"

theorem parse_composes_fancy : RelaidText plainText.toList fancyText.toList ∧
    parse fancyText = parse plainText ∧
      (parse (plainText ++ "\n" ++ fancyText)).records =
        [.skipped 1 "2", .skipped 3 "x", .skipped 4 "2", .skipped 6 "x"] := by
  have h1 : Relaid ['2'] ['2', '#'] := .remark (by decide) (by decide) (by decide)
  have h2 : Relaid "101#five".toList "101# 5".toList := by
    have hash : '#' ∉ ['1', '0', '1'] := by decide
    exact .note hash (by decide) (by decide)
  have h3 : Relaid "\u2028x".toList "\t x \u0085".toList := by
    have hash : '#' ∉ ['x'] := by decide
    have left : Space ['\u2028'] ∧ Space ['\t', ' '] := by decide
    have right : Space [] ∧ Space [' ', '\u0085'] := by decide
    exact .space hash (by decide) left.1 left.2 right.1 right.2 (Or.inl rfl)
  have h : RelaidText plainText.toList fancyText.toList :=
    .cons h1 (Or.inl rfl) (Or.inr rfl) (.cons h2 (Or.inl rfl) (Or.inr rfl) (.last h3))
  obtain ⟨-, hrecords, hlayout⟩ := parse_composes plainText fancyText
  have hp : parse fancyText = parse plainText := hlayout _ _ h
  refine ⟨h, hp, ?_⟩
  rw [hrecords, hp]
  decide +kernel

end Image

end LS8
