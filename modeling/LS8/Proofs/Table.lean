import LS8.Proofs.Cycle
import Mathlib.Logic.Function.Basic

/-! The LS-8 as its instruction table gives it, on numbers instead of bytes and words. Main
statement: a step that completes is a row of the table. -/
namespace LS8

namespace Table

inductive Flag where
  | none | equal | greater | less
  deriving DecidableEq

def Flag.ofOrder (x y : ℕ) : Flag := if x = y then .equal else if y < x then .greater else .less

structure State where
  pc : ℕ
  register : ℕ → ℕ
  memory : ℕ → ℕ
  flag : Flag

structure Successor where
  state : State
  printed : List ℕ
  stops : Bool

open Function (update)

/-- The rows of the table by the numbers that encode them. The stack pointer is register 7. -/
def next (s : State) : Option Successor :=
  let r := s.register
  let a := s.memory (s.pc + 1)
  let b := s.memory (s.pc + 2)
  let down := update r 7 (r 7 - 1)
  let popped := update r a (s.memory (r 7))
  match s.memory s.pc with
  | 0b10000010 => some ⟨{ s with register := update r a b, pc := s.pc + 3 }, [], false⟩
  | 0b01000111 => some ⟨{ s with pc := s.pc + 2 }, [r a], false⟩
  | 0b10100010 =>
    some ⟨{ s with register := update r a (r a * r b % 256), pc := s.pc + 3 }, [], false⟩
  | 0b10100000 =>
    some ⟨{ s with register := update r a ((r a + r b) % 256), pc := s.pc + 3 }, [], false⟩
  | 0b01000101 =>
    some ⟨{ s with
      register := down, memory := update s.memory (down 7) (down a), pc := s.pc + 2 }, [], false⟩
  | 0b01000110 =>
    some ⟨{ s with register := update popped 7 (popped 7 + 1), pc := s.pc + 2 }, [], false⟩
  | 0b01010000 =>
    some ⟨{ s with
      register := down, memory := update s.memory (down 7) (s.pc + 2), pc := down a }, [], false⟩
  | 0b00010001 =>
    some ⟨{ s with register := update r 7 (r 7 + 1), pc := s.memory (r 7) }, [], false⟩
  | 0b10100111 => some ⟨{ s with flag := .ofOrder (r a) (r b), pc := s.pc + 3 }, [], false⟩
  | 0b01010100 => some ⟨{ s with pc := r a }, [], false⟩
  | 0b01010101 =>
    some ⟨{ s with pc := if s.flag = .equal then r a else s.pc + 2 }, [], false⟩
  | 0b01010110 =>
    some ⟨{ s with pc := if s.flag = .equal then s.pc + 2 else r a }, [], false⟩
  | 0b00000001 => some ⟨s, [], true⟩
  | _ => none

/-- Bytes as a function on numbers, zero past the last byte. -/
def numbers {n : ℕ} (v : Vector UInt8 n) (x : ℕ) : ℕ := (v[x]?.getD 0).toNat

theorem numbers_set {n : ℕ} (v : Vector UInt8 n) (i : ℕ) (b : UInt8) (h : i < n) :
    numbers (v.set i b h) = update (numbers v) i b.toNat := by
  funext x
  unfold numbers
  rw [Vector.getElem?_set]
  by_cases hx : x = i
  · subst x
    rw [Function.update_self, if_pos rfl, Option.getD_some]
  · rw [Function.update_of_ne hx, if_neg (Ne.symm hx)]

theorem numbers_injective {n : ℕ} : Function.Injective (numbers (n := n)) := by
  intro v w h
  apply Vector.ext
  intro i hi
  have hb := UInt8.toNat_inj.mp (congrFun h i)
  simpa only [Vector.getElem?_eq_getElem hi, Option.getD_some] using hb

theorem numbers_lt {n : ℕ} (v : Vector UInt8 n) (x : ℕ) : numbers v x < 256 := UInt8.toNat_lt _

def Flag.toFlags : Flag → Flags
  | none => .none
  | equal => ⟨true, false, false⟩
  | greater => ⟨false, true, false⟩
  | less => ⟨false, false, true⟩

/-- The one flag that stands for any combination of flags. No conditional jump can tell the
combination from it. -/
def Flag.ofFlags (f : Flags) : Flag :=
  if f.equal then equal else if f.greater then greater else if f.less then less else none

theorem Flag.ofFlags_compare (a b : UInt8) :
    ofFlags (.compare a b) = ofOrder a.toNat b.toNat := by
  unfold ofFlags ofOrder Flags.compare
  simp only [decide_eq_true_iff, UInt8.lt_iff_toNat_lt, ← UInt8.toNat_inj]
  split_ifs with he hg hl
  · rfl
  · rfl
  · rfl
  · omega

theorem Flag.ofFlags_eq_equal_iff {f : Flags} : ofFlags f = equal ↔ f.equal = true := by
  unfold ofFlags
  split_ifs with he <;> simp [he]

theorem Flag.toFlags_ofOrder (a b : UInt8) : (ofOrder a.toNat b.toNat).toFlags = .compare a b := by
  unfold ofOrder Flags.compare
  simp only [← UInt8.toNat_inj, UInt8.lt_iff_toNat_lt]
  split_ifs with he hg
  · simp [toFlags, he]
  · simp [toFlags, he, hg, Nat.le_of_lt hg]
  · have hl : a.toNat < b.toNat := by omega
    simp [toFlags, he, hg, hl]

end Table

open Table

namespace Memory

theorem numbers_cell (m : Memory) (a : UInt8) : numbers m.cells a.toNat = (m.cell a).toNat := by
  have ha : a.toNat < 256 := a.toNat_lt
  simp only [numbers, cell, Vector.getElem?_eq_getElem ha, Option.getD_some]

theorem numbers_store (m : Memory) (a v : UInt8) :
    numbers (m.store a v).cells = Function.update (numbers m.cells) a.toNat v.toNat :=
  numbers_set m.cells a.toNat v a.toNat_lt

end Memory

namespace Registers

theorem numbers_value (r : Registers) (i : UInt8) :
    numbers r.cells i.toNat = (r.value i).toNat := rfl

theorem numbers_put (r : Registers) {i : UInt8} (v : UInt8) (h : i < 8) :
    numbers (r.put i v).cells = Function.update (numbers r.cells) i.toNat v.toNat := by
  have hi : i.toNat < 8 := UInt8.lt_iff_toNat_lt.mp h
  rw [put, dif_pos hi, numbers_set]

theorem numbers_setSp (r : Registers) (v : UInt8) :
    numbers (r.setSp v).cells = Function.update (numbers r.cells) 7 v.toNat := by
  rw [← put_seven, numbers_put r v (by decide)]
  rfl

theorem numbers_grow (r : Registers) (h : r.sp ≠ 0) : numbers (r.setSp (r.sp - 1)).cells =
    Function.update (numbers r.cells) 7 (numbers r.cells 7 - 1) := by
  have hs : (r.sp - 1).toNat = r.sp.toNat - 1 := Nat.eq_sub_of_add_eq (toNat_sub_one h)
  rw [numbers_setSp, hs]
  rfl

theorem toNat_top (r : Registers) (h : r.sp ≠ 0) :
    (r.sp - 1).toNat = Function.update (numbers r.cells) 7 (numbers r.cells 7 - 1) 7 := by
  rw [← numbers_grow r h, numbers_setSp, Function.update_self]

theorem numbers_shrink (r : Registers) (h : r.sp ≠ 255) : numbers (r.setSp (r.sp + 1)).cells =
    Function.update (numbers r.cells) 7 (numbers r.cells 7 + 1) := by
  rw [numbers_setSp, toNat_add_one h]
  rfl

end Registers

namespace Machine

variable {σ : Type} [Sink σ] {m : Machine} {i : Instruction}

def view (m : Machine) : Table.State :=
  ⟨m.cpu.pc.toNat, numbers m.cpu.registers.cells, numbers m.memory.cells, .ofFlags m.cpu.flags⟩

theorem view_window (h : m.instruction = .ok i) :
    m.view.memory m.view.pc = i.opcode.byte.toNat ∧ m.view.memory (m.view.pc + 1) = i.a.toNat ∧
      m.view.memory (m.view.pc + 2) = i.b.toNat := by
  obtain ⟨hp, hw⟩ := instruction_eq_ok_iff.mp h
  have hl : m.cpu.pc.toNat < 254 := UInt64.lt_iff_toNat_lt.mp hp
  have hcell : ∀ k : UInt8, k ≤ 2 → numbers m.memory.cells (m.cpu.pc.toNat + k.toNat) =
      (m.memory.cell (m.cpu.pc.toUInt8 + k)).toNat := by
    intro k hk
    have hk' : k.toNat ≤ 2 := UInt8.le_iff_toNat_le.mp hk
    rw [← Memory.numbers_cell, UInt8.toNat_add, UInt64.toNat_toUInt8]
    congr 1
    omega
  unfold window at hw
  simp only [Fetched.mk.injEq] at hw
  obtain ⟨ho, ha, hb⟩ := hw
  refine ⟨?_, ?_, ?_⟩
  · rw [← ho, ← UInt8.add_zero m.cpu.pc.toUInt8]
    exact hcell 0 (by decide)
  · rw [← ha]
    exact hcell 1 (by decide)
  · rw [← hb]
    exact hcell 2 (by decide)

theorem after_pc_toNat (h : m.instruction = .ok i) : (m.after i).cpu.pc.toNat =
    match i.advance m.cpu m.memory with
    | .next => m.cpu.pc.toNat + i.opcode.size
    | .skip => m.cpu.pc.toNat + 2
    | .jump t => t.toNat
    | .halt => m.cpu.pc.toNat := by
  have hp := (instruction_eq_ok_iff.mp h).1
  have hs : i.opcode.size.toUInt64 ≤ 3 ∧ i.opcode.size.toUInt64.toNat = i.opcode.size := by
    cases i.opcode <;> decide
  unfold after
  cases i.advance m.cpu m.memory with
  | next =>
    change (m.cpu.pc + i.opcode.size.toUInt64).toNat = _
    rw [toNat_add_of_lt hp hs.1, hs.2]
  | skip => exact toNat_add_of_lt hp (by decide)
  | jump t => exact UInt8.toNat_toUInt64 t
  | halt => rfl

theorem view_after (m : Machine) (i : Instruction) : (m.after i).view =
    ⟨(m.after i).cpu.pc.toNat, numbers (i.registersAfter m.cpu m.memory).cells,
      numbers (i.memoryAfter m.cpu m.memory).cells, .ofFlags (i.flagsAfter m.cpu)⟩ := by
  unfold view
  rw [after_registers, after_memory, after_flags]

/-- The cases are those of the instruction set. In each, the checks that have passed give the bounds
under which bytes and words are the numbers of the table. -/
theorem next_view (hi : m.instruction = .ok i) (hk : i.fault? m.cpu m.memory = none) :
    next m.view =
      some ⟨(m.after i).view, (i.printed m.cpu).map UInt8.toNat, decide (i.opcode = .hlt)⟩ := by
  obtain ⟨ho, ha, hb⟩ := view_window hi
  have hp : m.cpu.pc < 254 := (instruction_eq_ok_iff.mp hi).1
  have hf : m.view.flag = .equal ↔ m.cpu.flags.equal := Flag.ofFlags_eq_equal_iff
  rw [view_after, after_pc_toNat hi]
  unfold next Instruction.registersAfter Instruction.memoryAfter Instruction.stored?
    Instruction.flagsAfter Instruction.printed Instruction.advance
  unfold Instruction.fault? at hk
  simp only [ho, ha, hb]
  cases hop : i.opcode with
  | hlt => rfl
  | ret =>
    simp only [hop] at hk ⊢
    have hs : m.cpu.registers.sp ≠ 255 := Registers.bare?_eq_none_iff.mp hk
    rw [Registers.numbers_shrink _ hs, ← Memory.numbers_cell]
    rfl
  | push =>
    simp only [hop, Option.or_eq_none_iff] at hk ⊢
    have hs : m.cpu.registers.sp ≠ 0 := Registers.full?_eq_none_iff.mp hk.1
    rw [Memory.numbers_store, ← Registers.numbers_value, Registers.numbers_grow _ hs,
      Registers.toNat_top _ hs]
    rfl
  | pop =>
    simp only [hop, Option.or_eq_none_iff] at hk ⊢
    have hl : i.a < 8 := Registers.missing?_eq_none_iff.mp hk.1
    -- the stack pointer that `POP` moves is the one that it may just have set
    have hs := Registers.bare?_eq_none_iff.mp hk.2
    rw [Registers.numbers_shrink _ hs, Registers.numbers_put _ _ hl, ← Memory.numbers_cell]
    rfl
  | prn => rfl
  | call =>
    simp only [hop, Option.or_eq_none_iff] at hk ⊢
    have hs : m.cpu.registers.sp ≠ 0 := Registers.full?_eq_none_iff.mp hk.1
    rw [Memory.numbers_store, ← Registers.numbers_value, Registers.numbers_grow _ hs,
      Registers.toNat_top _ hs, returnAddress_toNat hp]
    rfl
  | jmp => rfl
  | jeq =>
    by_cases he : m.cpu.flags.equal
    · simp only [hf, he, if_true]
      rfl
    · simp only [hf, he]
      rfl
  | jne =>
    by_cases he : m.cpu.flags.equal
    · simp only [hf, he, if_true]
      rfl
    · simp only [hf, he]
      rfl
  | ldi =>
    simp only [hop] at hk
    have hl : i.a < 8 := Registers.missing?_eq_none_iff.mp hk
    rw [Registers.numbers_put _ _ hl]
    rfl
  | add =>
    simp only [hop, Option.or_eq_none_iff] at hk
    have hl : i.a < 8 := Registers.missing?_eq_none_iff.mp hk.1
    rw [Registers.numbers_put _ _ hl, UInt8.toNat_add]
    rfl
  | mul =>
    simp only [hop, Option.or_eq_none_iff] at hk
    have hl : i.a < 8 := Registers.missing?_eq_none_iff.mp hk.1
    rw [Registers.numbers_put _ _ hl, UInt8.toNat_mul]
    rfl
  | cmp =>
    rw [Flag.ofFlags_compare]
    rfl

/-- Only the flags can be combined in more ways than the view tells apart. -/
theorem eq_of_view_eq {n : Machine} (hv : m.view = n.view) (hf : m.cpu.flags = n.cpu.flags)
    (hs : m.state = n.state) : m = n := by
  obtain ⟨⟨pc, ⟨r⟩, f⟩, ⟨v⟩, st⟩ := m
  obtain ⟨⟨pc', ⟨r'⟩, f'⟩, ⟨v'⟩, st'⟩ := n
  simp only [view, Table.State.mk.injEq, UInt64.toNat_inj] at hv hf hs
  obtain ⟨hpc, hr, hm, -⟩ := hv
  obtain rfl := numbers_injective hr
  obtain rfl := numbers_injective hm
  rw [hpc, hf, hs]

theorem after_flags_eq (hi : m.instruction = .ok i) : (m.after i).cpu.flags =
    if m.view.memory m.view.pc = 0b10100111 then (m.after i).view.flag.toFlags
    else m.cpu.flags := by
  have hv : (m.after i).view.flag = .ofFlags (i.flagsAfter m.cpu) := by rw [view_after]
  rw [after_flags, hv, (view_window hi).1]
  unfold Instruction.flagsAfter
  cases hop : i.opcode with
  | cmp =>
    rw [if_pos (show Opcode.cmp.byte.toNat = 167 from rfl), Flag.ofFlags_compare,
      Flag.toFlags_ofOrder]
  -- the byte of no other opcode is that of `CMP`
  | _ => rfl

theorem step_refines_table (m : Machine) (sink : σ) (h : m.state = .running) {st : State}
    (hs : (m.step sink).result = .ok st) :
    ∃ (s : Table.State) (printed : List UInt8) (stops : Bool),
      Table.next m.view = some ⟨s, printed.map UInt8.toNat, stops⟩ ∧
      (∀ x, s.register x < 256 ∧ s.memory x < 256) ∧
      (∀ n, n = (m.step sink).machine ↔ n.view = s ∧
        n.cpu.flags =
          (if m.view.memory m.view.pc = 0b10100111 then s.flag.toFlags else m.cpu.flags) ∧
        n.state = if stops then .halted else .running) ∧
      Sink.emitAll printed sink = .ok () (m.step sink).sink ∧
      st = (m.step sink).machine.state := by
  obtain ⟨i, s, hi, hk, he, hm⟩ := step_of_ok h hs
  rw [hm] at hs ⊢
  refine ⟨(m.after i).view, i.printed m.cpu, decide (i.opcode = .hlt), next_view hi hk, ?_, ?_, he,
    (Except.ok.inj hs).symm⟩
  · intro x
    exact ⟨numbers_lt _ x, numbers_lt _ x⟩
  · intro n
    have hf := after_flags_eq hi
    have hst : (m.after i).state = if decide (i.opcode = .hlt) then .halted else .running := by
      rw [after_state, h]
      simp only [decide_eq_true_iff]
    constructor
    · rintro rfl
      exact ⟨rfl, hf, hst⟩
    · rintro ⟨hv, hfn, hsn⟩
      exact eq_of_view_eq hv (hfn.trans hf.symm) (hsn.trans hst.symm)

/-- A `CALL` that jumps to where it has put its return address. -/
def callSp : Machine :=
  ⟨⟨0, Registers.zero.setSp 0xf4, .none⟩, (Memory.zero.store 0 0x50).store 1 7, .running⟩

theorem step_refines_table_callSp :
    callSp.state = .running ∧ (callSp.step Collector.empty).result = .ok .running ∧
      (callSp.step Collector.empty).machine.view.pc = 0xf3 ∧
      (callSp.step Collector.empty).machine.view.memory 0xf3 = 2 := by
  have hr : (callSp.step Collector.empty).result = .ok .running := by rfl
  obtain ⟨s, printed, stops, hn, -, hm, -⟩ := step_refines_table callSp Collector.empty rfl hr
  have hs : (callSp.step Collector.empty).machine.view = s := ((hm _).mp rfl).1
  have hpc : (next callSp.view).map (fun t => t.state.pc) = some 0xf3 := rfl
  have hmem : (next callSp.view).map (fun t => t.state.memory 0xf3) = some 2 := rfl
  rw [hn] at hpc hmem
  rw [hs]
  exact ⟨rfl, hr, Option.some.inj hpc, Option.some.inj hmem⟩

end Machine

end LS8
