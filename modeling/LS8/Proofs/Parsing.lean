import LS8.Proofs.Grammar
import Mathlib.Order.Basic

/-! The reading of images. Main statement: an image is read as its grammar says, and each line of a
text is accounted for: as a byte, as blank, or by a record. -/
namespace LS8.Image

/-- What the line with this number adds to the bytes and to the records. -/
inductive Contributes (number : ℕ) (line : List Char) : List UInt8 → List Log.Record → Prop
  | byte {code : List Char} {v : UInt8} (isCode : IsCode line code)
      (denotes : Denotes code v.toNat) : Contributes number line [v] []
  | blank (isCode : IsCode line []) : Contributes number line [] []
  | skipped {code : List Char} (isCode : IsCode line code) (nonempty : code ≠ [])
      (garbage : ∀ n ≤ 255, ¬ Denotes code n) :
      Contributes number line [] [.skipped number (String.ofList code)]

/-- What lines contribute one after the other, if the first one has this number. -/
inductive Yields : ℕ → List (List Char) → List UInt8 → List Log.Record → Prop
  | nil (number : ℕ) : Yields number [] [] []
  | cons {number : ℕ} {line : List Char} {lines : List (List Char)} {bytes later : List UInt8}
      {records rest : List Log.Record} (first : Contributes number line bytes records)
      (tail : Yields (number + 1) lines later rest) :
      Yields number (line :: lines) (bytes ++ later) (records ++ rest)

theorem not_denotes_nil (n : ℕ) : ¬ Denotes [] n := by
  intro h
  generalize hc : ([] : List Char) = code at h
  cases h with
  | bare bits hb => exact hb (List.map_eq_nil_iff.mp hc.symm)
  | plus bits hb => exact nomatch hc

section Line

variable {number : ℕ} {line : List Char} {bytes : List UInt8} {records : List Log.Record}

theorem skipped?_of_byte {v : UInt8} (h : byte? (codeOf line) = some v) :
    skipped? line number = none := by
  simp [skipped?, h]

theorem skipped?_of_garbage (h : byte? (codeOf line) = none) (hne : codeOf line ≠ []) :
    skipped? line number = some (.skipped number (String.ofList (codeOf line))) := by
  simp [skipped?, h, hne]

/-- The three cases exclude each other, since no empty code denotes a byte. -/
theorem contributes_iff : Contributes number line bytes records ↔
    bytes = (byte? (codeOf line)).toList ∧ records = (skipped? line number).toList := by
  constructor
  · rintro (⟨hc, hd⟩ | hc | ⟨hc, hne, hd⟩)
    · have hb := byte?_eq_some_iff.mpr hd
      rw [← hc.codeOf_eq] at hb
      rw [hb, skipped?_of_byte hb]
      exact ⟨rfl, rfl⟩
    · have he := hc.codeOf_eq
      have hb : byte? [] = none := byte?_eq_none_iff.mpr fun n _ => not_denotes_nil n
      have hs : skipped? line number = none := if_pos (Or.inl he)
      rw [he, hb, hs]
      exact ⟨rfl, rfl⟩
    · have hb := byte?_eq_none_iff.mpr hd
      obtain rfl := hc.codeOf_eq
      rw [hb, skipped?_of_garbage hb hne]
      exact ⟨rfl, rfl⟩
  · rintro ⟨rfl, rfl⟩
    have hc := isCode_codeOf line
    cases hb : byte? (codeOf line) with
    | some v =>
      rw [skipped?_of_byte hb]
      exact .byte hc (byte?_eq_some_iff.mp hb)
    | none =>
      by_cases hne : codeOf line = []
      · have hs : skipped? line number = none := by simp [skipped?, hne]
        rw [hs]
        rw [hne] at hc
        exact .blank hc
      · rw [skipped?_of_garbage hb hne]
        exact .skipped hc hne (byte?_eq_none_iff.mp hb)

end Line

section Lines

variable {number : ℕ} {lines : List (List Char)} {bytes : List UInt8}
  {records : List Log.Record}

theorem toList_append_filterMap {α β : Type} (f : α → Option β) (a : α) (as : List α) :
    (f a).toList ++ as.filterMap f = (a :: as).filterMap f := by
  rw [List.filterMap_cons]
  cases f a <;> rfl

theorem yields_iff : Yields number lines bytes records ↔
    bytes = lines.filterMap (fun line => byte? (codeOf line)) ∧
      records = (lines.zipIdx number).filterMap fun (line, k) => skipped? line k := by
  induction lines generalizing number bytes records with
  | nil =>
    constructor
    · rintro ⟨⟩
      exact ⟨rfl, rfl⟩
    · rintro ⟨rfl, rfl⟩
      exact .nil number
  | cons line lines ih =>
    rw [List.zipIdx_cons, ← toList_append_filterMap, ← toList_append_filterMap]
    constructor
    · rintro (_ | ⟨first, tail⟩)
      obtain ⟨rfl, rfl⟩ := contributes_iff.mp first
      obtain ⟨rfl, rfl⟩ := ih.mp tail
      exact ⟨rfl, rfl⟩
    · rintro ⟨rfl, rfl⟩
      exact .cons (contributes_iff.mpr ⟨rfl, rfl⟩) (ih.mpr ⟨rfl, rfl⟩)

theorem Contributes.count {line : List Char} (h : Contributes number line bytes records) :
    bytes.length + records.length + (if IsCode line [] then 1 else 0) = 1 := by
  cases h with
  | byte hc hd =>
    have hn : ¬ IsCode line [] := by
      intro he
      rw [← hc.codeOf_eq, he.codeOf_eq] at hd
      exact not_denotes_nil _ hd
    rw [if_neg hn]
    rfl
  | blank hc =>
    rw [if_pos hc]
    rfl
  | skipped hc hne hd =>
    have hn : ¬ IsCode line [] := fun he => hne (hc.codeOf_eq.symm.trans he.codeOf_eq)
    rw [if_neg hn]
    rfl

theorem Yields.count (h : Yields number lines bytes records) :
    bytes.length + records.length + lines.countP (fun line => IsCode line []) = lines.length := by
  induction h with
  | nil => rfl
  | cons first tail ih =>
    have hf := first.count
    rw [List.length_append, List.length_append, List.countP_cons, List.length_cons]
    simp only [decide_eq_true_eq]
    omega

/-- A line that is skipped, by its number and its code. -/
structure Skipped where
  number : ℕ
  code : List Char

def Skipped.record (s : Skipped) : Log.Record := .skipped s.number (String.ofList s.code)

/-- The line with the number of `s`, if the first line has the number `number`, has its code, and this
is garbage. -/
def Skipped.Among (s : Skipped) (number : ℕ) (lines : List (List Char)) : Prop :=
  number ≤ s.number ∧ ∃ line, lines[s.number - number]? = some line ∧ IsCode line s.code ∧
    s.code ≠ [] ∧ ∀ n ≤ 255, ¬ Denotes s.code n

theorem Skipped.Among.cons {s : Skipped} (h : s.Among (number + 1) lines) (line : List Char) :
    s.Among number (line :: lines) := by
  obtain ⟨hn, found, hl, hs⟩ := h
  have hk : s.number - number = s.number - (number + 1) + 1 := by omega
  refine ⟨Nat.le_of_succ_le hn, found, ?_, hs⟩
  rw [hk, List.getElem?_cons_succ]
  exact hl

theorem Yields.exists_skipped (h : Yields number lines bytes records) :
    ∃ skipped : List Skipped, records = skipped.map Skipped.record ∧
      skipped.Pairwise (·.number < ·.number) ∧ ∀ s ∈ skipped, s.Among number lines := by
  induction h with
  | nil => exact ⟨[], rfl, .nil, fun s hs => nomatch hs⟩
  | @cons number line lines bytes later records rest first tail ih =>
    obtain ⟨skipped, rfl, hp, ha⟩ := ih
    have hl : ∀ s ∈ skipped, s.Among number (line :: lines) := fun s hs => (ha s hs).cons line
    cases first with
    | byte hc hd => exact ⟨skipped, rfl, hp, hl⟩
    | blank hc => exact ⟨skipped, rfl, hp, hl⟩
    | skipped hc hne hd =>
      refine ⟨⟨number, _⟩ :: skipped, rfl, hp.cons fun s hs => (ha s hs).1, ?_⟩
      intro s hs
      rcases List.mem_cons.mp hs with rfl | hs
      · refine ⟨Nat.le_refl _, line, ?_, hc, hne, hd⟩
        rw [Nat.sub_self]
        rfl
      · exact hl s hs

end Lines

theorem parse_eq_iff {text : String} {p : Parsed} : parse text = p ↔
    ∃ lines, Text.Lined text.toList lines ∧ Yields 1 lines p.bytes p.records := by
  obtain ⟨bytes, records⟩ := p
  simp only [← Text.lines_eq_iff, exists_eq_left', yields_iff, parse, parseLines,
    Parsed.mk.injEq]
  exact and_congr eq_comm eq_comm

/-- A text is read line by line: each line has one contribution, and together the bytes, the records
and the blank lines are as many as the lines. -/
theorem parse_accounts (text : String) :
    let p := parse text
    (∀ q, p = q ↔ ∃ lines, Text.Lined text.toList lines ∧ Yields 1 lines q.bytes q.records) ∧
      (∀ number line, ∃! c : List UInt8 × List Log.Record, Contributes number line c.1 c.2) ∧
      ∀ lines, Text.Lined text.toList lines →
        p.bytes.length + p.records.length + lines.countP (fun line => IsCode line []) =
          lines.length ∧
        (∀ r ∈ p.records, r.level = .debug) ∧
        ∃ skipped : List Skipped, p.records = skipped.map Skipped.record ∧
          skipped.Pairwise (·.number < ·.number) ∧ ∀ s ∈ skipped, s.Among 1 lines := by
  intro p
  refine ⟨fun q => parse_eq_iff, fun number line => ?_, fun lines hl => ?_⟩
  · refine ⟨((byte? (codeOf line)).toList, (skipped? line number).toList),
      contributes_iff.mpr ⟨rfl, rfl⟩, fun c hc => ?_⟩
    obtain ⟨hb, hr⟩ := contributes_iff.mp hc
    exact Prod.ext hb hr
  · obtain ⟨lines', hl', hy⟩ := parse_eq_iff.mp (rfl : parse text = p)
    obtain rfl : lines' = lines := hl'.lines_eq.symm.trans hl.lines_eq
    obtain ⟨skipped, hr, hp, ha⟩ := hy.exists_skipped
    refine ⟨hy.count, fun r hm => ?_, skipped, hr, hp, ha⟩
    rw [hr] at hm
    obtain ⟨s, -, rfl⟩ := List.mem_map.mp hm
    rfl

end LS8.Image
