import LS8.Proofs.Losslessness
import LS8.Proofs.Parsing

/-! Quoted text and the records that hold it. Main statement: the records of skipped lines can be
read back, whatever the lines hold, and none of them breaks out of its line of the log. -/
namespace LS8

namespace Text

/-- Where a reader of quoted text stands. -/
inductive Reading where
  /-- In the text itself. -/
  | plain
  /-- Behind a backslash. -/
  | escaped
  /-- Before the brace of a code point. -/
  | brace
  /-- Behind some digits of a code point, and the number that they denote. -/
  | digits (n : ℕ)

/-- The character that is written with this letter behind a backslash. -/
def named? (letter : Char) : Option Char :=
  if letter = '0' then some '\x00'
  else if letter = 't' then some '\t'
  else if letter = 'r' then some '\r'
  else if letter = 'n' then some '\n'
  else if letter = '\\' ∨ letter = '"' then some letter
  else none

/-- Reads on up to the quote at the end, behind which there must be nothing. -/
def unquoteFrom : Reading → List Char → Option (List Char)
  | _, [] => none
  | .plain, c :: rest =>
    if c = '"' then if rest = [] then some [] else none
    else if c = '\\' then unquoteFrom .escaped rest
    else (unquoteFrom .plain rest).map (c :: ·)
  | .escaped, c :: rest =>
    if c = 'u' then unquoteFrom .brace rest
    else (named? c).bind fun d => (unquoteFrom .plain rest).map (d :: ·)
  | .brace, c :: rest => if c = '\x7b' then unquoteFrom (.digits 0) rest else none
  | .digits n, c :: rest =>
    if c = '\x7d' then (unquoteFrom .plain rest).map (Char.ofNat n :: ·)
    else unquoteFrom (.digits (16 * n + digitValue c.toUpper)) rest

/-- The text that stands in quotes. -/
def unquote : List Char → Option (List Char)
  | '"' :: rest => unquoteFrom .plain rest
  | _ => none

/-- The three ways to write a character. -/
theorem escape_cases (hidden : Char → Bool) (c : Char) :
    (∃ letter, letter ≠ 'u' ∧ named? letter = some c ∧ escape hidden c = ['\\', letter]) ∨
      escape hidden c = codePoint c ∨
      c ≠ '"' ∧ c ≠ '\\' ∧ isControl c = false ∧ escape hidden c = [c] := by
  unfold escape
  split_ifs with h0 ht hr hn hq hc
  · exact Or.inl ⟨'0', by decide, by rw [h0]; rfl, rfl⟩
  · exact Or.inl ⟨'t', by decide, by rw [ht]; rfl, rfl⟩
  · exact Or.inl ⟨'r', by decide, by rw [hr]; rfl, rfl⟩
  · exact Or.inl ⟨'n', by decide, by rw [hn]; rfl, rfl⟩
  · rcases hq with rfl | rfl
    · exact Or.inl ⟨'\\', by decide, rfl, rfl⟩
    · exact Or.inl ⟨'"', by decide, rfl, rfl⟩
  · exact Or.inr (Or.inl rfl)
  · simp only [Bool.or_eq_true, not_or, Bool.not_eq_true] at hc hq
    exact Or.inr (Or.inr ⟨hq.2, hq.1, hc.1, rfl⟩)

theorem digits_one (base n : ℕ) : digits base 1 n = Nat.toDigits base n := by
  have hl : 1 ≤ (Nat.toDigits base n).length := List.length_pos_iff.mpr Nat.toDigits_ne_nil
  rw [digits, List.leftpad, Nat.sub_eq_zero_of_le hl, List.replicate_zero, List.nil_append]

theorem hexDigit_of_mem {c : Char} {n : ℕ} (h : c ∈ Nat.toDigits 16 n) :
    c ≠ '\x7d' ∧ isControl c = false := by
  obtain ⟨k, hk, rfl⟩ := exists_of_mem_toDigits h
  have hd : ∀ k < 16, Nat.digitChar k ≠ '\x7d' ∧ isControl (Nat.digitChar k) = false := by decide
  exact hd k hk

/-- The digits are read one by one, and the brace ends them. -/
theorem unquoteFrom_digits {ds : List Char} (h : '\x7d' ∉ ds) (n : ℕ) (rest : List Char) :
    unquoteFrom (.digits n) (ds ++ '\x7d' :: rest) =
      (unquoteFrom .plain rest).map
        (Char.ofNat (ds.foldl (fun n c => 16 * n + digitValue c.toUpper) n) :: ·) := by
  induction ds generalizing n with
  | nil => rfl
  | cons d ds ih =>
    rw [List.mem_cons, not_or] at h
    rw [List.cons_append, unquoteFrom, if_neg (Ne.symm h.1), ih h.2]
    rfl

theorem unquoteFrom_codePoint (c : Char) (rest : List Char) :
    unquoteFrom .plain (codePoint c ++ rest) = (unquoteFrom .plain rest).map (c :: ·) := by
  have hn : '\x7d' ∉ Nat.toDigits 16 c.toNat := fun h => (hexDigit_of_mem h).1 rfl
  have hv := ofUpperHex_toDigits c.toNat
  rw [ofUpperHex, List.foldl_map] at hv
  have ht : codePoint c ++ rest =
      '\\' :: 'u' :: '\x7b' :: (Nat.toDigits 16 c.toNat ++ '\x7d' :: rest) := by
    rw [codePoint, digits_one]
    simp
  rw [ht]
  change unquoteFrom (.digits 0) _ = _
  rw [unquoteFrom_digits hn, hv, Char.ofNat_toNat]

/-- A character is read back from its written form, whatever comes after it. -/
theorem unquoteFrom_escape (hidden : Char → Bool) (c : Char) (rest : List Char) :
    unquoteFrom .plain (escape hidden c ++ rest) = (unquoteFrom .plain rest).map (c :: ·) := by
  rcases escape_cases hidden c with ⟨letter, hu, hl, he⟩ | he | ⟨hq, hb, -, he⟩
  · rw [he]
    change unquoteFrom .escaped (letter :: rest) = _
    rw [unquoteFrom, if_neg hu, hl]
    rfl
  · rw [he, unquoteFrom_codePoint]
  · rw [he, List.singleton_append, unquoteFrom, if_neg hq, if_neg hb]

theorem unquote_quoted (hidden : Char → Bool) (text : List Char) :
    unquote (quoted hidden text) = some text := by
  change unquoteFrom .plain (text.flatMap (escape hidden) ++ ['"']) = some text
  induction text with
  | nil => rfl
  | cons c text ih =>
    rw [List.flatMap_cons, List.append_assoc, unquoteFrom_escape, ih]
    rfl

theorem not_control_of_named {letter c : Char} (h : named? letter = some c) :
    isControl letter = false := by
  unfold named? at h
  split_ifs at h with h0 ht hr hn hq
  · rw [h0]; decide
  · rw [ht]; decide
  · rw [hr]; decide
  · rw [hn]; decide
  · rcases hq with rfl | rfl <;> decide

/-- What is written for a character, a control character among them, holds none. -/
theorem not_control_of_mem_escape {hidden : Char → Bool} {c d : Char} (h : d ∈ escape hidden c) :
    isControl d = false := by
  rcases escape_cases hidden c with ⟨letter, -, hl, he⟩ | he | ⟨-, -, hc, he⟩
  · rw [he, List.mem_cons, List.mem_singleton] at h
    rcases h with rfl | rfl
    · decide
    · exact not_control_of_named hl
  · rw [he, codePoint, digits_one] at h
    simp only [List.mem_append, List.mem_cons, List.not_mem_nil, or_false] at h
    rcases h with ((rfl | rfl | rfl) | h) | rfl
    · decide
    · decide
    · decide
    · exact (hexDigit_of_mem h).2
    · decide
  · rw [he, List.mem_singleton] at h
    rw [h, hc]

theorem not_control_of_mem_quoted {hidden : Char → Bool} {text : List Char} {c : Char}
    (h : c ∈ quoted hidden text) : isControl c = false := by
  rw [quoted, List.mem_append, List.mem_cons, List.mem_singleton, List.mem_flatMap] at h
  rcases h with (rfl | ⟨d, -, hd⟩) | rfl
  · decide
  · exact not_control_of_mem_escape hd
  · decide

theorem not_control_of_isDigit {c : Char} (h : c.isDigit) : isControl c = false := by
  obtain ⟨hlo, hhi⟩ := Char.isDigit_iff_toNat.mp h
  have h0 : '0'.toNat = 48 := rfl
  have h9 : '9'.toNat = 57 := rfl
  unfold isControl
  simp only [Bool.or_eq_false_iff, Bool.and_eq_false_iff, decide_eq_false_iff_not]
  omega

end Text

/-- A record as it is written if `hidden` tells which characters have no visible form. -/
def Log.Record.told (hidden : Char → Bool) : Log.Record → String
  | .skipped line code => Log.Level.debug.name ++ " " ++ Log.skipping hidden line code
  | r => r.text

theorem Log.Record.told_isHidden (r : Log.Record) : r.told Text.isHidden = r.text := by
  cases r <;> rfl

namespace Image

/-- What the record of a skipped line begins with. -/
def opening : List Char := "DEBUG skipping line ".toList

/-- Reads the record of a skipped line. -/
def readRecord (record : List Char) : Option Skipped := do
  let rest ← record.dropPrefix? opening
  let quotation ← (rest.dropWhile Char.isDigit).dropPrefix? [':', ' ']
  let code ← Text.unquote quotation
  return ⟨Nat.ofDigitChars 10 (rest.takeWhile Char.isDigit) 0, code⟩

theorem toList_told (hidden : Char → Bool) (s : Skipped) : (s.record.told hidden).toList =
    opening ++ (Nat.toDigits 10 s.number ++ ([':', ' '] ++ Text.quoted hidden s.code)) := by
  have ho : opening = "DEBUG".toList ++ (" ".toList ++ "skipping line ".toList) := rfl
  have hc : ": ".toList = [':', ' '] := rfl
  have ht : s.record.told hidden =
      Log.Level.debug.name ++ " " ++ Log.skipping hidden s.number (String.ofList s.code) := rfl
  rw [ht, ho, ← hc]
  unfold Log.skipping Log.Level.name Text.decimal
  simp only [String.toList_append, String.toList_ofList, Text.digits_one, List.append_assoc]

theorem readRecord_told (hidden : Char → Bool) (s : Skipped) :
    readRecord (s.record.told hidden).toList = some s := by
  have hd : ∀ c ∈ Nat.toDigits 10 s.number, Char.isDigit c = true := fun c hc =>
    Nat.isDigit_of_mem_toDigits (by decide) (by decide) hc
  have hw : (Nat.toDigits 10 s.number ++ ([':', ' '] ++ Text.quoted hidden s.code)).takeWhile
      Char.isDigit = Nat.toDigits 10 s.number := by
    rw [List.takeWhile_append_of_pos hd]
    simp
  have hr : (Nat.toDigits 10 s.number ++ ([':', ' '] ++ Text.quoted hidden s.code)).dropWhile
      Char.isDigit = [':', ' '] ++ Text.quoted hidden s.code := by
    rw [List.dropWhile_append_of_pos hd]
    simp
  have hp : ∀ xs ys : List Char, (xs ++ ys).dropPrefix? xs = some ys := fun xs ys =>
    List.dropPrefix?_append_of_beq ys (beq_self_eq_true xs)
  rw [toList_told, readRecord, hp]
  simp only [Option.bind_eq_bind, Option.bind_some, hw, hr, hp, Text.unquote_quoted]
  rw [Nat.ofDigitChars_toDigits (by decide) (by decide)]
  rfl

theorem not_control_of_mem_told {hidden : Char → Bool} {s : Skipped} {c : Char}
    (h : c ∈ (s.record.told hidden).toList) : Text.isControl c = false := by
  have ho : opening.all (!Text.isControl ·) = true := by decide
  have hs : [':', ' '].all (!Text.isControl ·) = true := by decide
  rw [toList_told, List.mem_append, List.mem_append, List.mem_append] at h
  rcases h with h | h | h | h
  · exact Bool.not_eq_eq_eq_not.mp (List.all_eq_true.mp ho c h)
  · exact Text.not_control_of_isDigit (Nat.isDigit_of_mem_toDigits (by decide) (by decide) h)
  · exact Bool.not_eq_eq_eq_not.mp (List.all_eq_true.mp hs c h)
  · exact Text.not_control_of_mem_quoted h

/-- The line with this number, if it is skipped although it holds code. -/
def Skipped.of? (line : List Char) (number : ℕ) : Option Skipped :=
  if codeOf line = [] ∨ (byte? (codeOf line)).isSome then none else some ⟨number, codeOf line⟩

/-- The lines of a text that are skipped although they hold code. -/
def skippedLines (text : String) : List Skipped :=
  ((Text.lines text.toList).zipIdx 1).filterMap fun (line, number) => Skipped.of? line number

theorem records_eq (text : String) :
    (parse text).records = (skippedLines text).map Skipped.record := by
  have hs : ∀ p : List Char × ℕ, skipped? p.1 p.2 = (Skipped.of? p.1 p.2).map Skipped.record := by
    intro p
    simp only [skipped?, Skipped.of?]
    split_ifs <;> rfl
  unfold parse parseLines skippedLines
  rw [List.map_filterMap]
  exact congrArg (List.filterMap · _) (funext hs)

theorem Skipped.of?_eq_some_iff {line : List Char} {number : ℕ} {s : Skipped} :
    Skipped.of? line number = some s ↔ s.number = number ∧ IsCode line s.code ∧ s.code ≠ [] ∧
      ∀ n ≤ 255, ¬ Denotes s.code n := by
  obtain ⟨k, code⟩ := s
  simp only [← codeOf_eq_iff, ← byte?_eq_none_iff, Skipped.of?]
  constructor
  · intro h
    split_ifs at h with hc
    rw [not_or, Option.not_isSome_iff_eq_none] at hc
    cases h
    exact ⟨rfl, rfl, hc⟩
  · rintro ⟨rfl, rfl, hc⟩
    rw [if_neg]
    rwa [not_or, Option.not_isSome_iff_eq_none]

theorem mem_skippedLines_iff {text : String} {lines : List (List Char)}
    (h : Text.Lined text.toList lines) {s : Skipped} :
    s ∈ skippedLines text ↔ s.Among 1 lines := by
  rw [skippedLines, h.lines_eq, List.mem_filterMap]
  constructor
  · rintro ⟨⟨line, number⟩, hm, hs⟩
    obtain ⟨rfl, hcode⟩ := Skipped.of?_eq_some_iff.mp hs
    obtain ⟨hn, hl⟩ := List.mem_zipIdx_iff_le_and_getElem?_sub.mp hm
    exact ⟨hn, line, hl, hcode⟩
  · rintro ⟨hn, line, hl, hs⟩
    exact ⟨(line, s.number), List.mem_zipIdx_iff_le_and_getElem?_sub.mpr ⟨hn, hl⟩,
      Skipped.of?_eq_some_iff.mpr ⟨rfl, hs⟩⟩

theorem Skipped.record_injective : Function.Injective Skipped.record := by
  rintro ⟨k, code⟩ ⟨k', code'⟩ h
  injection h with hk hc
  obtain rfl : k = k' := hk
  obtain rfl : code = code' := String.ofList_injective hc
  rfl

theorem pairwise_skippedLines (text : String) :
    (skippedLines text).Pairwise (·.number < ·.number) := by
  obtain ⟨lines, -, hy⟩ := parse_eq_iff.mp (rfl : parse text = parse text)
  obtain ⟨skipped, hr, hp, -⟩ := hy.exists_skipped
  rw [records_eq] at hr
  rw [List.map_injective_iff.mpr Skipped.record_injective hr]
  exact hp

/-- The records of a text as they are written. -/
def logged (hidden : Char → Bool) (text : String) : List String :=
  (parse text).records.map (Log.Record.told hidden)

theorem logged_eq (hidden : Char → Bool) (text : String) :
    logged hidden text = (skippedLines text).map fun s => s.record.told hidden := by
  rw [logged, records_eq, List.map_map]
  rfl

theorem map_readRecord_logged (hidden : Char → Bool) (text : String) :
    (logged hidden text).map (fun r => readRecord r.toList) = (skippedLines text).map some := by
  rw [logged_eq, List.map_map]
  exact List.map_congr_left fun s _ => readRecord_told hidden s

theorem not_control_of_mem_logged {hidden : Char → Bool} {text r : String}
    (h : r ∈ logged hidden text) : ∀ c ∈ r.toList, Text.isControl c = false := by
  rw [logged_eq] at h
  obtain ⟨s, -, rfl⟩ := List.mem_map.mp h
  exact fun c => not_control_of_mem_told

/-- A log file: a line for each record. -/
def logFile (records : List String) : String := String.join (records.map (· ++ "\n"))

/-- Reads the records in a log file. -/
def readLog (file : String) : Option (List Skipped) := (Text.lines file.toList).mapM readRecord

/-- No record is taken for two, and no two for one. -/
theorem lines_logFile {records : List String}
    (h : ∀ r ∈ records, ∀ c ∈ r.toList, Text.isControl c = false) :
    Text.lines (logFile records).toList = records.map String.toList := by
  induction records with
  | nil => exact Text.lines_nil
  | cons r records ih =>
    have hr := h r List.mem_cons_self
    have hn : '\n' ∉ r.toList := fun hm => absurd (hr _ hm) (by decide)
    have hc : r.toList.getLast? ≠ some '\r' := fun hm =>
      absurd (hr _ (List.mem_of_getLast? hm)) (by decide)
    have ht : (logFile (r :: records)).toList = r.toList ++ '\n' :: (logFile records).toList := by
      rw [logFile, List.map_cons, String.join_cons, String.toList_append, String.toList_append,
        List.append_assoc]
      rfl
    rw [ht, Text.lines_append_newline hn, Text.chopReturn_of_bare hc, List.map_cons,
      ih fun s hs => h s (List.mem_cons_of_mem r hs)]

theorem mapM_readRecord {write : Skipped → List Char} (h : ∀ s, readRecord (write s) = some s)
    (ss : List Skipped) : (ss.map write).mapM readRecord = some ss := by
  induction ss with
  | nil => rfl
  | cons s ss ih =>
    rw [List.map_cons, List.mapM_cons, h, ih]
    rfl

theorem readLog_logFile (hidden : Char → Bool) (text : String) :
    readLog (logFile (logged hidden text)) = some (skippedLines text) := by
  rw [readLog, lines_logFile fun r hr => not_control_of_mem_logged hr, logged_eq, List.map_map]
  exact mapM_readRecord (readRecord_told hidden) (skippedLines text)

/-- The records of skipped lines as they are written, for any choice of the characters that have no
visible form. The lines that they tell of are those that the grammar of images calls garbage. -/
theorem records_tell_skipped (hidden : Char → Bool) :
    (∀ text : String,
      (∀ lines, Text.Lined text.toList lines → ∀ s, s ∈ skippedLines text ↔ s.Among 1 lines) ∧
        (skippedLines text).Pairwise (·.number < ·.number) ∧
        (∀ r ∈ (parse text).records, r.level = .debug) ∧
        (logged hidden text).map (fun r => readRecord r.toList) = (skippedLines text).map some ∧
        (∀ r ∈ logged hidden text, ∀ c ∈ r.toList,
          c ≠ '\n' ∧ c ≠ '\r' ∧ Text.isControl c = false) ∧
        readLog (logFile (logged hidden text)) = some (skippedLines text)) ∧
      (∀ text text', logged hidden text = logged hidden text' →
        skippedLines text = skippedLines text') ∧
      ∀ text, logged Text.isHidden text = (parse text).records.map Log.Record.text := by
  refine ⟨fun text => ⟨fun lines hl s => mem_skippedLines_iff hl, pairwise_skippedLines text,
    fun r hr => ?_, map_readRecord_logged hidden text, fun r hr c hc => ?_,
    readLog_logFile hidden text⟩, fun text text' h => ?_, fun text => ?_⟩
  · rw [records_eq] at hr
    obtain ⟨s, -, rfl⟩ := List.mem_map.mp hr
    rfl
  · have hn := not_control_of_mem_logged hr c hc
    refine ⟨?_, ?_, hn⟩
    · rintro rfl
      exact absurd hn (by decide)
    · rintro rfl
      exact absurd hn (by decide)
  · have ht := readLog_logFile hidden text
    rw [h, readLog_logFile] at ht
    exact (Option.some.inj ht).symm
  · exact List.map_congr_left fun r _ => r.told_isHidden

/-- A carriage return inside of a code, and a code that looks like the record of one. -/
theorem records_tell_skipped_imitating :
    logged Text.isHidden "a\rb" = ["DEBUG skipping line 1: \"a\\rb\""] ∧
      logged Text.isHidden "a\\rb" = ["DEBUG skipping line 1: \"a\\\\rb\""] ∧
      logged Text.isHidden "a\rb #" = logged Text.isHidden "a\rb" ∧
      skippedLines "a\rb #" = skippedLines "a\rb" ∧
      Text.Lined "a\rb #".toList ["a\rb #".toList] ∧
      (⟨1, "a\rb".toList⟩ : Skipped).Among 1 ["a\rb #".toList] := by
  obtain ⟨htold, hsame, -⟩ := records_tell_skipped Text.isHidden
  obtain ⟨hamong, -⟩ := htold "a\rb #"
  have h : logged Text.isHidden "a\rb #" = logged Text.isHidden "a\rb" := by decide +kernel
  have hl : Text.Lined "a\rb #".toList ["a\rb #".toList] := .last (by decide) (by decide)
  have hs : skippedLines "a\rb #" = [⟨1, "a\rb".toList⟩] := rfl
  refine ⟨by decide +kernel, by decide +kernel, h, hsame _ _ h, hl, (hamong _ hl _).mp ?_⟩
  rw [hs]
  exact List.mem_singleton_self _

end Image

end LS8
