import LS8.Proofs.Run
import LS8.Text.Lines
import LS8.Trace.Hexadecimal
import Mathlib.Data.List.Basic

/-! The hexadecimal trace as a stream. Main statement: it is cut where its writer is full and nowhere
else, and what has been written can be read back. -/
namespace LS8

namespace Text

/-- The value of a hexadecimal digit, a letter in upper case. -/
def digitValue (c : Char) : ℕ := if c.toNat < 58 then c.toNat - 48 else c.toNat - 55

def ofUpperHex (text : List Char) : ℕ := text.foldl (fun n c => 16 * n + digitValue c) 0

theorem digitValue_toUpper {k : ℕ} (h : k < 16) : digitValue (Nat.digitChar k).toUpper = k := by
  decide +revert

/-- The induction is on the number, whose last digit comes last. -/
theorem ofUpperHex_toDigits (n : ℕ) : ofUpperHex ((Nat.toDigits 16 n).map Char.toUpper) = n := by
  induction n using Nat.strongRecOn with
  | ind n ih =>
    by_cases hn : n < 16
    · simp [Nat.toDigits_of_lt_base hn, ofUpperHex, digitValue_toUpper hn]
    · have hq := ih (n / 16) (Nat.div_lt_self (by omega) (by omega))
      have hr : digitValue (Nat.digitChar (n % 16)).toUpper = n % 16 :=
        digitValue_toUpper (Nat.mod_lt n (by omega))
      unfold ofUpperHex at hq ⊢
      rw [Nat.toDigits_of_base_le (by omega) (Nat.not_lt.mp hn), List.map_append, List.foldl_append,
        hq]
      simp only [List.map_cons, List.map_nil, List.foldl_cons, List.foldl_nil, hr]
      omega

theorem ofUpperHex_upperHex (width n : ℕ) : ofUpperHex (upperHex width n).toList = n := by
  have hz (k : ℕ) : (List.replicate k '0').foldl (fun n c => 16 * n + digitValue c) 0 = 0 := by
    induction k with
    | zero => rfl
    | succ k ih => exact ih
  have hu : Char.toUpper '0' = '0' := rfl
  rw [upperHex, String.toList_ofList, digits, List.leftpad, List.map_append, List.map_replicate, hu,
    ofUpperHex, List.foldl_append, hz]
  exact ofUpperHex_toDigits n

theorem exists_of_mem_toDigits {c : Char} {n : ℕ} (h : c ∈ Nat.toDigits 16 n) :
    ∃ k < 16, c = Nat.digitChar k := by
  induction n using Nat.strongRecOn with
  | ind n ih =>
    by_cases hn : n < 16
    · rw [Nat.toDigits_of_lt_base hn, List.mem_singleton] at h
      exact ⟨n, hn, h⟩
    · rw [Nat.toDigits_of_base_le (by omega) (Nat.not_lt.mp hn), List.mem_append,
        List.mem_singleton] at h
      rcases h with h | h
      · exact ih (n / 16) (Nat.div_lt_self (by omega) (by omega)) h
      · exact ⟨n % 16, Nat.mod_lt n (by omega), h⟩

/-- Digits are characters of ASCII, and none is blank. -/
theorem bounds_of_mem_upperHex {c : Char} {width n : ℕ} (h : c ∈ (upperHex width n).toList) :
    32 < c.toNat ∧ c.toNat < 128 := by
  have hk : ∀ k < 16, 32 < (Nat.digitChar k).toUpper.toNat ∧
      (Nat.digitChar k).toUpper.toNat < 128 := by decide
  rw [upperHex, String.toList_ofList, digits, List.leftpad] at h
  obtain ⟨d, hd, rfl⟩ := List.mem_map.mp h
  rcases List.mem_append.mp hd with hd | hd
  · rw [List.eq_of_mem_replicate hd]
    decide
  · obtain ⟨k, hlt, rfl⟩ := exists_of_mem_toDigits hd
    exact hk k hlt

theorem length_upperHex_two {n : ℕ} (h : n < 256) : (upperHex 2 n).length = 2 := by
  have hd : (Nat.toDigits 16 n).length ≤ 2 :=
    (Nat.length_toDigits_le_iff (by omega) (by omega)).mpr h
  rw [upperHex, String.length_ofList, List.length_map, length_digits]
  exact Nat.max_eq_left hd

/-- The bytes of a text, as a file holds them. -/
def encoded (text : String) : List UInt8 := text.toUTF8.data.toList

/-- A character of ASCII is one byte. -/
theorem encoded_of_ascii {text : String} (h : ∀ c ∈ text.toList, c.toNat < 128) :
    encoded text = text.toList.map fun c => c.val.toUInt8 := by
  have hc : ∀ c ∈ text.toList, String.utf8EncodeChar c = [c.val.toUInt8] := by
    intro c hm
    refine String.utf8EncodeChar_eq_singleton (Char.utf8Size_eq_one_iff.mpr ?_)
    exact UInt32.le_iff_toNat_le.mpr (Nat.le_of_lt_succ (h c hm))
  have ht : text.toUTF8 = text.toList.utf8Encode := by
    rw [← String.toByteArray_ofList, String.ofList_toList]
    rfl
  rw [encoded, ht, List.utf8Encode, List.data_toByteArray, List.flatMap_congr hc, List.map_eq_flatMap]

theorem length_encoded {text : String} (h : ∀ c ∈ text.toList, c.toNat < 128) :
    (encoded text).length = text.length := by
  rw [encoded_of_ascii h, List.length_map, String.length_toList]

theorem encoded_take {text : String} (h : ∀ c ∈ text.toList, c.toNat < 128) (n : ℕ) :
    encoded (String.ofList (text.toList.take n)) = (encoded text).take n := by
  have ht : ∀ c ∈ (String.ofList (text.toList.take n)).toList, c.toNat < 128 := by
    rw [String.toList_ofList]
    exact fun c hc => h c (List.mem_of_mem_take hc)
  rw [encoded_of_ascii h, encoded_of_ascii ht, String.toList_ofList, List.map_take]

/-- Items, each after the first one with a separator before it. -/
theorem intercalate_cons {α : Type} (c : α) (xs : List α) (items : List (List α)) :
    [c].intercalate (xs :: items) = xs ++ items.flatMap (c :: ·) := by
  induction items generalizing xs with
  | nil => rw [List.intercalate_singleton, List.flatMap_nil, List.append_nil]
  | cons ys items ih =>
    rw [List.intercalate_cons_cons, ih, List.flatMap_cons, List.append_assoc]
    rfl

theorem mem_intercalate {α : Type} {a c : α} {items : List (List α)}
    (h : a ∈ [c].intercalate items) : a = c ∨ ∃ xs ∈ items, a ∈ xs := by
  cases items with
  | nil => exact (List.not_mem_nil h).elim
  | cons xs items =>
    rw [intercalate_cons, List.mem_append, List.mem_flatMap] at h
    rcases h with h | ⟨ys, hy, h⟩
    · exact .inr ⟨xs, List.mem_cons_self, h⟩
    · exact (List.mem_cons.mp h).imp_right fun h => ⟨ys, List.mem_cons_of_mem xs hy, h⟩

end Text

/-- The instruction that is fetched in an event. -/
def Event.fetch? : Event → Option (Cpu × Fetched)
  | .fetched cpu bytes => some (cpu, bytes)
  | _ => none

namespace Trace

/-- What a line of the trace shows. The flags of the processor are not among it. -/
structure Sighting where
  pc : UInt64
  bytes : Fetched
  registers : Registers
  deriving DecidableEq

def Sighting.of (e : Cpu × Fetched) : Sighting := ⟨e.1.pc, e.2, e.1.registers⟩

/-- What stands between the blanks of a line. -/
def fields (cpu : Cpu) (bytes : Fetched) : List (List Char) :=
  let number (n : ℕ) : List Char := (Text.upperHex 2 n).toList
  "TRACE:".toList :: number cpu.pc.toNat :: "|".toList :: number bytes.op.toNat ::
    number bytes.a.toNat :: number bytes.b.toNat :: "|".toList ::
    cpu.registers.toList.map fun r => number r.toNat

variable {cpu : Cpu} {bytes : Fetched} {c : Char}

theorem toList_line (cpu : Cpu) (bytes : Fetched) :
    (line cpu bytes).toList = [' '].intercalate (fields cpu bytes) := by
  have h₁ : "TRACE: ".toList = "TRACE:".toList ++ [' '] := rfl
  have h₂ : " | ".toList = [' ', '|', ' '] := rfl
  have h₃ : " |".toList = [' ', '|'] := rfl
  have h₄ : "|".toList = ['|'] := rfl
  have h₅ : " ".toList = [' '] := rfl
  rw [fields, Text.intercalate_cons]
  unfold line
  simp only [String.toList_append, String.toList_join, h₁, h₂, h₃, h₄, h₅, List.flatMap_map,
    List.flatMap_cons, List.append_assoc, List.cons_append, List.nil_append]

theorem bounds_of_mem_fields (cpu : Cpu) (bytes : Fetched) :
    ∀ field ∈ fields cpu bytes, ∀ c ∈ field, 32 < c.toNat ∧ c.toNat < 128 := by
  have hw : ∀ c ∈ "TRACE:".toList, 32 < c.toNat ∧ c.toNat < 128 := by simp
  have hb : ∀ c ∈ "|".toList, 32 < c.toNat ∧ c.toNat < 128 := by simp
  have hn (n : ℕ) : ∀ c ∈ (Text.upperHex 2 n).toList, 32 < c.toNat ∧ c.toNat < 128 :=
    fun c => Text.bounds_of_mem_upperHex
  simp only [fields, List.forall_mem_cons, List.forall_mem_map]
  exact ⟨hw, hn _, hb, hn _, hn _, hn _, hb, fun r _ => hn _⟩

/-- Nothing in a line could end it. -/
theorem bounds_of_mem_line (h : c ∈ (line cpu bytes).toList) : 32 ≤ c.toNat ∧ c.toNat < 128 := by
  rw [toList_line] at h
  rcases Text.mem_intercalate h with rfl | ⟨field, hf, hc⟩
  · decide
  · have hb := bounds_of_mem_fields cpu bytes field hf c hc
    exact ⟨Nat.le_of_lt hb.1, hb.2⟩

theorem length_line (cpu : Cpu) (bytes : Fetched) :
    (line cpu bytes).length = 44 + (Text.upperHex 2 cpu.pc.toNat).length := by
  have hb (b : UInt8) : (Text.upperHex 2 b.toNat).length = 2 := Text.length_upperHex_two b.toNat_lt
  have hr (rs : List UInt8) :
      (String.join (rs.map fun r => " " ++ Text.upperHex 2 r.toNat)).length = 3 * rs.length := by
    induction rs with
    | nil => rfl
    | cons r rs ih =>
      rw [List.map_cons, String.join_cons, String.length_append, String.length_append, ih, hb,
        List.length_cons]
      change 1 + 2 + 3 * rs.length = _
      omega
  have h8 : cpu.registers.toList.length = 8 := Vector.length_toList
  have h₁ : "TRACE: ".length = 7 := rfl
  have h₂ : " | ".length = 3 := rfl
  have h₃ : " ".length = 1 := rfl
  have h₄ : " |".length = 2 := rfl
  unfold line
  simp only [String.length_append, hb, hr, h8, h₁, h₂, h₃, h₄]
  omega

/-- As long as two digits are enough for the program counter, all lines have one length. -/
theorem length_line_of_lt (h : cpu.pc < 254) : (line cpu bytes).length = 46 := by
  have hp : cpu.pc.toNat < 254 := UInt64.lt_iff_toNat_lt.mp h
  rw [length_line, Text.length_upperHex_two (Nat.lt_trans hp (by decide))]

/-- A byte, as a line shows it. -/
def byteOf (field : List Char) : UInt8 := .ofNat (Text.ofUpperHex field)

/-- Reads a line back. -/
def readLine (line : List Char) : Option Sighting :=
  match line.splitOn ' ' with
  | _ :: pc :: _ :: op :: a :: b :: _ :: cells =>
    if h : cells.length = 8 then
      some ⟨.ofNat (Text.ofUpperHex pc), ⟨byteOf op, byteOf a, byteOf b⟩,
        ⟨⟨(cells.map byteOf).toArray, by simpa using h⟩⟩⟩
    else none
  | _ => none

theorem byteOf_upperHex (b : UInt8) : byteOf (Text.upperHex 2 b.toNat).toList = b := by
  rw [byteOf, Text.ofUpperHex_upperHex, UInt8.ofNat_toNat]

theorem readLine_line (cpu : Cpu) (bytes : Fetched) :
    readLine (line cpu bytes).toList = some (.of (cpu, bytes)) := by
  have hs : (line cpu bytes).toList.splitOn ' ' = fields cpu bytes := by
    rw [toList_line]
    refine List.splitOn_intercalate ' ' (fun field hf hc => ?_) (List.cons_ne_nil _ _)
    exact absurd (bounds_of_mem_fields cpu bytes field hf ' ' hc).1 (by decide)
  have hl : (cpu.registers.toList.map fun r => (Text.upperHex 2 r.toNat).toList).length = 8 := by
    simp [Registers.toList]
  have hc : (cpu.registers.toList.map fun r => (Text.upperHex 2 r.toNat).toList).map byteOf =
      cpu.registers.toList := by
    simp [byteOf_upperHex, Function.comp_def]
  rw [readLine, hs, fields]
  simp only [hl, dif_pos, byteOf_upperHex, Text.ofUpperHex_upperHex, UInt64.ofNat_toNat, hc]
  rfl

/-- The lines of all events, each with its newline. -/
def text (es : List (Cpu × Fetched)) : String := String.join (es.map fun e => line e.1 e.2 ++ "\n")

theorem text_nil : text [] = "" := rfl

theorem text_cons (e : Cpu × Fetched) (es : List (Cpu × Fetched)) :
    text (e :: es) = line e.1 e.2 ++ "\n" ++ text es := String.join_cons

theorem text_append (es ds : List (Cpu × Fetched)) : text (es ++ ds) = text es ++ text ds := by
  induction es with
  | nil => rw [List.nil_append, text_nil, String.empty_append]
  | cons e es ih =>
    rw [List.cons_append, text_cons, text_cons, ih]
    exact String.append_assoc.symm

theorem length_text_take_le (es : List (Cpu × Fetched)) {i j : ℕ} (h : i ≤ j) :
    (text (es.take i)).length ≤ (text (es.take j)).length := by
  obtain ⟨ds, hd⟩ := List.take_prefix_take_left h (l := es)
  rw [← hd, text_append, String.length_append]
  exact Nat.le_add_right _ _

theorem length_text_pos {es : List (Cpu × Fetched)} (h : es ≠ []) : 0 < (text es).length := by
  cases es with
  | nil => exact (h rfl).elim
  | cons e es =>
    rw [text_cons, String.length_append, String.length_append, length_line]
    omega

theorem ascii_of_mem_text {es : List (Cpu × Fetched)} (h : c ∈ (text es).toList) :
    c.toNat < 128 := by
  induction es with
  | nil => exact (List.not_mem_nil h).elim
  | cons e es ih =>
    rw [text_cons, String.toList_append, String.toList_append, List.mem_append, List.mem_append] at h
    rcases h with (h | h) | h
    · exact (bounds_of_mem_line h).2
    · rw [List.mem_singleton.mp h]
      decide
    · exact ih h

/-- Reads a text back, line by line. -/
def read (text : String) : Option (List Sighting) := (Text.lines text.toList).mapM readLine

theorem lines_text_cons (e : Cpu × Fetched) (es : List (Cpu × Fetched)) :
    Text.lines (text (e :: es)).toList = (line e.1 e.2).toList :: Text.lines (text es).toList := by
  have hn : '\n' ∉ (line e.1 e.2).toList := fun h => absurd (bounds_of_mem_line h).1 (by decide)
  have hr : (line e.1 e.2).toList.getLast? ≠ some '\r' := fun h =>
    absurd (bounds_of_mem_line (List.mem_of_getLast? h)).1 (by decide)
  have ht : (text (e :: es)).toList = (line e.1 e.2).toList ++ '\n' :: (text es).toList := by
    rw [text_cons, String.toList_append, String.toList_append, List.append_assoc]
    rfl
  rw [ht, Text.lines_append_newline hn, Text.chopReturn, if_neg hr]

theorem read_text (es : List (Cpu × Fetched)) : read (text es) = some (es.map .of) := by
  unfold read
  induction es with
  | nil => rw [text, List.map_nil]; rfl
  | cons e es ih =>
    rw [lines_text_cons, List.mapM_cons, readLine_line, ih]
    rfl

namespace Hexadecimal

/-- Shows the events to a trace, one after the other, and collects what it answers to each. -/
def follow : List (Cpu × Fetched) → Hexadecimal → Hexadecimal × List (List Log.Record)
  | [], t => (t, [])
  | e :: es, t =>
    let (t, records) := Trace.fetched e.1 e.2 t
    let (t, later) := follow es t
    (t, records :: later)

/-- One event and a bounded writer. -/
theorem fetched_bounded (e : Cpu × Fetched) (written : String) (room : ℕ) (refusal : String) :
    Trace.fetched e.1 e.2 (⟨⟨written, some room, refusal⟩⟩ : Hexadecimal) =
      (⟨⟨written ++ String.ofList ((text [e]).toList.take room), some (room - (text [e]).length),
        refusal⟩⟩, if room < (text [e]).length then [.traceLost refusal] else []) := by
  have ht : text [e] = line e.1 e.2 ++ "\n" := by
    rw [text_cons, text_nil, String.append_empty]
  rw [ht]
  change write e.1 e.2 _ = _
  unfold write Writer.write
  by_cases hl : (line e.1 e.2 ++ "\n").length ≤ room
  · have hfit : (line e.1 e.2 ++ "\n").toList.take room = (line e.1 e.2 ++ "\n").toList :=
      List.take_of_length_le hl
    simp only [if_pos hl, if_neg (Nat.not_lt.mpr hl), hfit, String.ofList_toList]
  · have hz : room - (line e.1 e.2 ++ "\n").length = 0 := by omega
    simp only [if_neg hl, if_pos (Nat.not_le.mp hl), hz]

/-- A writer that is full stays full, since no line is empty. The induction is on the events, and
the first of them leaves the rest with less room. -/
theorem follow_bounded (es : List (Cpu × Fetched)) (written : String) (room : ℕ)
    (refusal : String) : follow es ⟨⟨written, some room, refusal⟩⟩ =
      (⟨⟨written ++ String.ofList ((text es).toList.take room), some (room - (text es).length),
        refusal⟩⟩, (List.range es.length).map fun i =>
          if room < (text (es.take (i + 1))).length then [.traceLost refusal] else []) := by
  induction es generalizing written room with
  | nil => simp [follow, text]
  | cons e es ih =>
    have ht : ∀ ds, text (e :: ds) = text [e] ++ text ds := text_append [e]
    rw [follow, fetched_bounded]
    simp only [ih]
    refine Prod.ext ?_ ?_
    · simp only [ht es, String.toList_append, String.length_append, List.take_append,
        String.ofList_append, String.append_assoc, String.length_toList, Nat.sub_add_eq]
    · rw [List.length_cons, List.range_succ_eq_map, List.map_cons, List.map_map, List.take_succ_cons,
        List.take_zero]
      refine congrArg (List.cons _) (List.map_congr_left fun i hi => ?_)
      have hp : 0 < (text (es.take (i + 1))).length := by
        refine length_text_pos fun hn => ?_
        rcases List.take_eq_nil_iff.mp hn with hz | rfl
        · exact Nat.succ_ne_zero i hz
        · exact List.not_mem_nil hi
      have hlt : room - (text [e]).length < (text (es.take (i + 1))).length ↔
          room < (text ((e :: es).take (i + 1 + 1))).length := by
        rw [List.take_succ_cons, ht (es.take (i + 1)), String.length_append]
        omega
      simp only [Function.comp_apply, Nat.succ_eq_add_one, hlt]

theorem getElem?_follow_eq_lost_iff {es : List (Cpu × Fetched)} (c : ℕ) (refusal : String) {i : ℕ}
    (h : i < es.length) :
    (follow es ⟨.bounded c refusal⟩).2[i]? = some [.traceLost refusal] ↔
      c < (text (es.take (i + 1))).length := by
  have hf := follow_bounded es "" c refusal
  rw [Writer.bounded, hf, List.getElem?_map, List.getElem?_range h, Option.map_some]
  split_ifs with hc <;> simp [hc]

theorem watch_eq (events : List Event) (j : Journal Hexadecimal) :
    (Observer.watch events j).trace = (follow (events.filterMap Event.fetch?) j.trace).1 := by
  induction events generalizing j with
  | nil => rfl
  | cons e events ih =>
    change (Observer.watch events (Observer.observe e j)).trace = _
    rw [ih]
    cases e <;> rfl

end Hexadecimal

end Trace

namespace Machine

variable {σ : Type} [Sink σ]

/-- A cycle fetches the instruction at the program counter, unless it is at the end of memory. -/
theorem filterMap_fetch?_step (m : Machine) (sink : σ) :
    (m.step sink).events.filterMap Event.fetch? =
      if m.state = .running ∧ m.cpu.pc < 254 then [(m.cpu, m.window)] else [] := by
  by_cases hr : m.state = .running
  · rw [step_of_running hr]
    cases m.course sink with
    | unfetched hp hc =>
      rw [hc, if_neg fun h => hp h.2]
      rfl
    | undecoded e hp hd hc =>
      rw [hc, if_pos ⟨hr, hp⟩]
      rfl
    | failed i e hi hk hc =>
      rw [hc, if_pos ⟨hr, (instruction_eq_ok_iff.mp hi).1⟩]
      rfl
    | refused i cause s hi hk he hc =>
      rw [hc, if_pos ⟨hr, (instruction_eq_ok_iff.mp hi).1⟩]
      rfl
    | completed i s hi hk he hc =>
      rw [hc, if_pos ⟨hr, (instruction_eq_ok_iff.mp hi).1⟩]
      unfold begun ended
      split_ifs <;> rfl
  · rw [step_of_stopped hr, if_neg fun h => hr h.1]
    rfl

end Machine

namespace Session

variable {σ ω : Type} [Sink σ] [Observer ω]

/-- What is fetched in the first `n` steps. -/
def fetched (s : Session σ ω) (n : ℕ) : List (Cpu × Fetched) :=
  (List.range n).flatMap fun k =>
    ((s.after k).machine.step (s.after k).sink).events.filterMap Event.fetch?

theorem trace_after (s : Session σ (Journal Trace.Hexadecimal)) (n : ℕ) :
    (s.after n).observer.trace = (Trace.Hexadecimal.follow (s.fetched n) s.observer.trace).1 := by
  rw [observer_after, Trace.Hexadecimal.watch_eq, List.filterMap_flatMap]
  rfl

/-- Wherever the machine starts, it fetches nothing past address 253. -/
theorem pc_lt_of_mem_fetched {s : Session σ ω} {n : ℕ} {e : Cpu × Fetched}
    (h : e ∈ s.fetched n) : e.1.pc < 254 := by
  obtain ⟨k, -, h⟩ := List.mem_flatMap.mp h
  rw [Machine.filterMap_fetch?_step] at h
  split_ifs at h with hf
  · rw [List.mem_singleton.mp h]
    exact hf.2
  · exact (List.not_mem_nil h).elim

end Session

/-- Any events and any capacity. A reader of what has been written finds all that a line shows. The
last part is about machines: it does not matter at which program counter they start. -/
theorem Trace.Hexadecimal.written_losslessly (es : List (Cpu × Fetched)) (c : ℕ)
    (refusal : String) :
    let r := follow es ⟨.bounded c refusal⟩
    Text.encoded r.1.writer.written = (Text.encoded (text es)).take c ∧
      r.2 = (List.range es.length).map (fun i =>
        if c < (Text.encoded (text (es.take (i + 1)))).length then [.traceLost refusal] else []) ∧
      (Log.Record.traceLost refusal).level = .warn ∧
      (∀ i j, i ≤ j → j < es.length → r.2[i]? = some [.traceLost refusal] →
        r.2[j]? = some [.traceLost refusal]) ∧
      ((Text.encoded (text es)).length ≤ c → read r.1.writer.written = some (es.map .of)) ∧
      (∀ es', text es' = text es → es'.map Sighting.of = es.map .of) ∧
      ∀ {σ : Type} [Sink σ] (s : Session σ (Journal Hexadecimal)),
        (∀ n, (s.after n).observer.trace = (follow (s.fetched n) s.observer.trace).1 ∧
          ∀ e ∈ s.fetched n, e.1.pc.toNat ≤ 253 ∧ (line e.1 e.2).length = 46) ∧
        ∀ limit, ∃ n, (s.run limit).1 = s.after n := by
  intro r
  have hr : r = _ := follow_bounded es "" c refusal
  have hw : r.1.writer.written = String.ofList ((text es).toList.take c) := by
    rw [hr]
    exact String.empty_append
  have hlen : ∀ ds, (Text.encoded (text ds)).length = (text ds).length :=
    fun ds => Text.length_encoded fun ch => ascii_of_mem_text
  have hl : r.2 = (List.range es.length).map (fun i =>
      if c < (Text.encoded (text (es.take (i + 1)))).length then [.traceLost refusal] else []) := by
    rw [hr]
    simp only [hlen]
  refine ⟨?_, hl, rfl, ?_, ?_, ?_, ?_⟩
  · rw [hw, Text.encoded_take fun ch => ascii_of_mem_text]
  · intro i j hij hj hi
    rw [getElem?_follow_eq_lost_iff c refusal hj]
    rw [getElem?_follow_eq_lost_iff c refusal (Nat.lt_of_le_of_lt hij hj)] at hi
    exact Nat.lt_of_lt_of_le hi (length_text_take_le es (Nat.succ_le_succ hij))
  · intro hc
    rw [hlen] at hc
    rw [hw, List.take_of_length_le hc, String.ofList_toList, read_text]
  · intro es' ht
    have he := read_text es'
    rw [ht, read_text] at he
    exact (Option.some.inj he).symm
  · intro σ _ s
    refine ⟨fun n => ⟨s.trace_after n, fun e he => ?_⟩, s.exists_run_eq_after⟩
    have hp : e.1.pc < 254 := Session.pc_lt_of_mem_fetched he
    exact ⟨Nat.le_of_lt_succ (UInt64.lt_iff_toNat_lt.mp hp), length_line_of_lt hp⟩

/-- A line is lost without its newline, even if all of it has been written. -/
example : let r := Trace.Hexadecimal.follow [(.initial, ⟨0x82, 0, 8⟩)] ⟨.bounded 46 "full"⟩
    r.1.writer.written = Trace.line .initial ⟨0x82, 0, 8⟩ ∧ r.2 = [[.traceLost "full"]] := by
  decide +kernel

end LS8
