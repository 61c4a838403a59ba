import LS8.Proofs.Layout
import LS8.Proofs.Run
import Mathlib.Data.Int.Order.Basic
import Mathlib.Data.Nat.Count

/-! The depth of the stack. Main statement: while nothing else writes to the stack pointer it counts
what has been put on the stack and taken off again, and it never wraps around. -/
namespace LS8

theorem Registers.sp_put_of_ne (r : Registers) {i : UInt8} (v : UInt8) (h : i ≠ 7) :
    (r.put i v).sp = r.sp := by
  by_cases hi : i < 8
  · rw [sp_put r v hi, if_neg h]
  · have hn : ¬ i.toNat < 8 := fun hn => hi (UInt8.lt_iff_toNat_lt.mpr hn)
    rw [put, dif_neg hn]

namespace Instruction

variable {i : Instruction} {c : Cpu} {m : Memory}

/-- An instruction that puts a byte on the stack. -/
def Grows (i : Instruction) : Prop := i.opcode = .push ∨ i.opcode = .call

/-- An instruction that takes a byte off the stack. -/
def Shrinks (i : Instruction) : Prop := i.opcode = .pop ∨ i.opcode = .ret

/-- An instruction that does not name the stack pointer as a register to write to. -/
def SparesSp (i : Instruction) : Prop :=
  i.opcode = .ldi ∨ i.opcode = .add ∨ i.opcode = .mul ∨ i.opcode = .pop → i.a ≠ 7

instance : DecidablePred Grows := fun _ => instDecidableOr

instance : DecidablePred Shrinks := fun _ => instDecidableOr

theorem sp_of_grows (h : i.Grows) (hk : i.fault? c m = none) :
    (i.registersAfter c m).sp.toNat + 1 = c.registers.sp.toNat := by
  have hs : c.registers.sp ≠ 0 := by
    unfold fault? at hk
    rcases h with hop | hop <;> simp only [hop, Option.or_eq_none_iff] at hk <;>
      exact Registers.full?_eq_none_iff.mp hk.1
  have hr : i.registersAfter c m = c.registers.setSp (c.registers.sp - 1) := by
    unfold registersAfter
    rcases h with hop | hop <;> simp only [hop]
  rw [hr, Registers.sp_setSp]
  exact toNat_sub_one hs

theorem sp_of_shrinks (h : i.Shrinks) (h7 : i.SparesSp) (hk : i.fault? c m = none) :
    (i.registersAfter c m).sp.toNat = c.registers.sp.toNat + 1 := by
  unfold fault? at hk
  unfold registersAfter
  rcases h with hop | hop
  · have hp := c.registers.sp_put_of_ne (m.cell c.registers.sp) (h7 (by simp [hop]))
    simp only [hop, Option.or_eq_none_iff] at hk
    have hs := Registers.bare?_eq_none_iff.mp hk.2
    simp only [hop, Registers.sp_setSp]
    rw [hp] at hs ⊢
    exact toNat_add_one hs
  · simp only [hop] at hk ⊢
    rw [Registers.sp_setSp]
    exact toNat_add_one (Registers.bare?_eq_none_iff.mp hk)

theorem sp_of_still (hg : ¬ i.Grows) (hs : ¬ i.Shrinks) (h7 : i.SparesSp) :
    (i.registersAfter c m).sp = c.registers.sp := by
  unfold registersAfter
  cases hop : i.opcode with
  | push => exact (hg (Or.inl hop)).elim
  | call => exact (hg (Or.inr hop)).elim
  | pop => exact (hs (Or.inl hop)).elim
  | ret => exact (hs (Or.inr hop)).elim
  | ldi | add | mul => exact Registers.sp_put_of_ne _ _ (h7 (by simp [hop]))
  | _ => rfl

/-- The balance of one instruction. -/
theorem sp_registersAfter (h7 : i.SparesSp) (hk : i.fault? c m = none) :
    (i.registersAfter c m).sp.toNat + (if i.Grows then 1 else 0) =
      c.registers.sp.toNat + (if i.Shrinks then 1 else 0) := by
  by_cases hg : i.Grows
  · have hs : ¬ i.Shrinks := by
      rcases hg with hop | hop <;> simp [Shrinks, hop]
    rw [if_pos hg, if_neg hs]
    exact sp_of_grows hg hk
  · rw [if_neg hg]
    by_cases hs : i.Shrinks
    · rw [if_pos hs]
      exact sp_of_shrinks hs h7 hk
    · rw [if_neg hs, sp_of_still hg hs h7]

end Instruction

namespace Machine

variable {σ : Type} [Sink σ] {m n : Machine} {i : Instruction}

/-- The next instruction puts a byte on the stack. -/
def Pushes (m : Machine) : Prop := ∃ i, m.instruction = .ok i ∧ i.Grows

/-- The next instruction takes a byte off the stack. -/
def Pops (m : Machine) : Prop := ∃ i, m.instruction = .ok i ∧ i.Shrinks

/-- The next instruction does not write to the stack pointer as one of the registers. -/
def SparesSp (m : Machine) : Prop := ∀ i, m.instruction = .ok i → i.SparesSp

theorem pushes_iff (hi : m.instruction = .ok i) : m.Pushes ↔ i.Grows := by
  constructor
  · rintro ⟨j, hj, hg⟩
    obtain rfl : i = j := Except.ok.inj (hi.symm.trans hj)
    exact hg
  · exact fun hg => ⟨i, hi, hg⟩

theorem pops_iff (hi : m.instruction = .ok i) : m.Pops ↔ i.Shrinks := by
  constructor
  · rintro ⟨j, hj, hs⟩
    obtain rfl : i = j := Except.ok.inj (hi.symm.trans hj)
    exact hs
  · exact fun hs => ⟨i, hi, hs⟩

private theorem not_pushes_pops {e : Error} (hi : m.instruction = .error e) :
    ¬ m.Pushes ∧ ¬ m.Pops := by
  constructor <;> rintro ⟨i, h, -⟩ <;> exact nomatch hi.symm.trans h

instance : DecidablePred Pushes := fun m =>
  match hi : m.instruction with
  | .ok _ => decidable_of_iff _ (pushes_iff hi).symm
  | .error _ => isFalse (not_pushes_pops hi).1

instance : DecidablePred Pops := fun m =>
  match hi : m.instruction with
  | .ok _ => decidable_of_iff _ (pops_iff hi).symm
  | .error _ => isFalse (not_pushes_pops hi).2

theorem Completes.sp_balance (h : m.Completes n) (h7 : m.SparesSp) :
    n.cpu.registers.sp.toNat + (if m.Pushes then 1 else 0) =
      m.cpu.registers.sp.toNat + (if m.Pops then 1 else 0) := by
  obtain ⟨i, hi, hk, rfl⟩ := h.eq_after
  simp only [pushes_iff hi, pops_iff hi, after_registers]
  exact Instruction.sp_registersAfter (h7 i hi) hk

/-- How many `PUSH` and `CALL` there are among the first `n` steps of a run. -/
def pushed (run : ℕ → Machine) (n : ℕ) : ℕ := n.count fun k => (run k).Pushes

/-- How many `POP` and `RET` there are among the first `n` steps of a run. -/
def popped (run : ℕ → Machine) (n : ℕ) : ℕ := n.count fun k => (run k).Pops

/-- How much more has been put on the stack than taken off it; below zero, if it is less. -/
def depth (run : ℕ → Machine) (n : ℕ) : ℤ := pushed run n - popped run n

theorem sp_balance_of_run {run : ℕ → Machine} {n : ℕ}
    (hrun : ∀ k < n, (run k).Completes (run (k + 1))) (h7 : ∀ k < n, (run k).SparesSp) :
    (run n).cpu.registers.sp.toNat + pushed run n =
      (run 0).cpu.registers.sp.toNat + popped run n := by
  induction n with
  | zero => rfl
  | succ n ih =>
    have hn := Nat.lt_succ_self n
    have hs := (hrun n hn).sp_balance (h7 n hn)
    have hr := ih (fun k hk => hrun k (Nat.lt_succ_of_lt hk)) fun k hk =>
      h7 k (Nat.lt_succ_of_lt hk)
    have hp : pushed run (n + 1) = pushed run n + if (run n).Pushes then 1 else 0 :=
      Nat.count_succ _ n
    have hq : popped run (n + 1) = popped run n + if (run n).Pops then 1 else 0 :=
      Nat.count_succ _ n
    omega

/-- A stack pointer of one byte bounds the depth on both sides. -/
theorem depth_eq_of_balance {run : ℕ → Machine} {n : ℕ} (h : (run 0).cpu = .initial)
    (hb : (run n).cpu.registers.sp.toNat + pushed run n =
      (run 0).cpu.registers.sp.toNat + popped run n) :
    depth run n = 0xf4 - ((run n).cpu.registers.sp.toNat : ℤ) ∧ depth run n ≤ 244 ∧
      -11 ≤ depth run n := by
  have h0 : (run 0).cpu.registers.sp.toNat = 0xf4 := by
    rw [h]
    rfl
  have hl := (run n).cpu.registers.sp.toNat_lt
  unfold depth
  omega

theorem step_of_full (h : m.state = .running) (hi : m.instruction = .ok i) (hg : i.Grows)
    (hs : m.cpu.registers.sp = 0) (sink : σ) :
    (m.step sink).result = .error (.addressOutOfRange (-1)) ∧
      (m.step sink).machine.cpu.registers.sp = m.cpu.registers.sp := by
  have hk : i.fault? m.cpu m.memory = some (.addressOutOfRange (-1)) := by
    unfold Instruction.fault? Registers.full?
    rcases hg with hop | hop <;> simp only [hop, hs, if_true, Option.some_or]
  have hr : i.registersLeft m.cpu m.memory = m.cpu.registers := by
    unfold Instruction.registersLeft
    rcases hg with hop | hop <;> simp only [hop, hs, if_true]
  rw [step_of_running h, cycle_of_fault hi hk]
  refine ⟨rfl, ?_⟩
  change (i.registersLeft m.cpu m.memory).sp = _
  rw [hr]

theorem step_of_bare (h : m.state = .running) (hi : m.instruction = .ok i)
    (hop : i.opcode = .ret ∨ i.opcode = .pop ∧ i.a ≤ 6) (hs : m.cpu.registers.sp = 255)
    (sink : σ) :
    (m.step sink).result = .error (.addressOutOfRange 256) ∧
      (m.step sink).machine.cpu.registers.sp = m.cpu.registers.sp := by
  have hb : ∀ r : Registers, r.sp = 255 → r.bare? = some (.addressOutOfRange 256) := fun r hr =>
    if_pos hr
  suffices hk : i.fault? m.cpu m.memory = some (.addressOutOfRange 256) ∧
      (i.registersLeft m.cpu m.memory).sp = m.cpu.registers.sp by
    rw [step_of_running h, cycle_of_fault hi hk.1]
    exact ⟨rfl, hk.2⟩
  unfold Instruction.fault? Instruction.registersLeft
  rcases hop with hop | ⟨hop, ha⟩
  · simp only [hop]
    exact ⟨hb _ hs, trivial⟩
  · have hl : i.a < 8 := UInt8.lt_of_le_of_lt ha (by decide)
    have h7 : i.a ≠ 7 := UInt8.ne_of_lt (UInt8.lt_of_le_of_lt ha (by decide))
    have hp := m.cpu.registers.sp_put_of_ne (m.memory.cell m.cpu.registers.sp) h7
    simp only [hop, Registers.missing?, if_pos hl, Option.none_or]
    exact ⟨hb _ (hp.trans hs), hp⟩

/-- A run of completed steps in which only the stack itself moves the stack pointer, and the steps
that would move it out of memory. -/
theorem stackPointer_counts (run : ℕ → Machine) (n : ℕ)
    (hrun : ∀ k < n, (run k).Completes (run (k + 1))) (h7 : ∀ k < n, (run k).SparesSp) :
    (∀ k ≤ n, (run k).cpu.registers.sp.toNat + pushed run k =
        (run 0).cpu.registers.sp.toNat + popped run k) ∧
      ((run 0).cpu = .initial → ∀ k ≤ n,
        depth run k = 0xf4 - ((run k).cpu.registers.sp.toNat : ℤ) ∧ depth run k ≤ 244 ∧
          -11 ≤ depth run k) ∧
      ∀ m : Machine, m.state = .running → ∀ i, m.instruction = .ok i →
        ∀ (σ : Type) [Sink σ] (sink : σ),
          (i.opcode = .push ∨ i.opcode = .call → m.cpu.registers.sp = 0 →
            (m.step sink).result = .error (.addressOutOfRange (-1)) ∧
              (m.step sink).machine.cpu.registers.sp = m.cpu.registers.sp) ∧
          (i.opcode = .ret ∨ i.opcode = .pop ∧ i.a ≤ 6 → m.cpu.registers.sp = 255 →
            (m.step sink).result = .error (.addressOutOfRange 256) ∧
              (m.step sink).machine.cpu.registers.sp = m.cpu.registers.sp) := by
  have hb : ∀ k ≤ n, (run k).cpu.registers.sp.toNat + pushed run k =
      (run 0).cpu.registers.sp.toNat + popped run k := fun k hk =>
    sp_balance_of_run (fun j hj => hrun j (Nat.lt_of_lt_of_le hj hk)) fun j hj =>
      h7 j (Nat.lt_of_lt_of_le hj hk)
  refine ⟨hb, fun h0 k hk => depth_eq_of_balance h0 (hb k hk), fun m hm i hi σ _ sink => ?_⟩
  exact ⟨fun hg hs => step_of_full hm hi hg hs sink, fun hop hs => step_of_bare hm hi hop hs sink⟩

/-- A program that takes more off the stack than it has put on it. -/
def overdrawnCode : List UInt8 := [0x45, 0, 0x46, 1, 0x46, 1]

def overdrawnRun (k : ℕ) : Machine :=
  (fun m : Machine => (m.step Collector.empty).machine)^[k]
    ⟨.initial, .ofImage overdrawnCode, .running⟩

theorem stackPointer_counts_overdrawn :
    (∀ k < 3, (overdrawnRun k).Completes (overdrawnRun (k + 1))) ∧
      (∀ k < 3, (overdrawnRun k).SparesSp) ∧ depth overdrawnRun 1 = 1 ∧
      depth overdrawnRun 3 = -1 := by
  have hok : ∀ k < 3, (overdrawnRun k).state = .running ∧
      ((overdrawnRun k).step Collector.empty).result.isOk := by decide +kernel
  have hrun : ∀ k < 3, (overdrawnRun k).Completes (overdrawnRun (k + 1)) := by
    intro k hk
    rw [overdrawnRun, overdrawnRun, Function.iterate_succ_apply' _ k]
    exact completes_of_isOk (hok k hk).1 (hok k hk).2
  have ha : ∀ k < 3, (overdrawnRun k).window.a ≠ 7 := by decide +kernel
  have h7 : ∀ k < 3, (overdrawnRun k).SparesSp := by
    intro k hk i hi _ ha7
    obtain ⟨-, hw⟩ := instruction_eq_ok_iff.mp hi
    exact ha k hk (by rw [hw, ← ha7])
  obtain ⟨-, hd, -⟩ := stackPointer_counts overdrawnRun 3 hrun h7
  have h1 : (overdrawnRun 1).cpu.registers.sp.toNat = 0xf3 := by decide +kernel
  have h3 : (overdrawnRun 3).cpu.registers.sp.toNat = 0xf5 := by decide +kernel
  refine ⟨hrun, h7, ?_, ?_⟩
  · rw [(hd rfl 1 (by decide)).1, h1]
    rfl
  · rw [(hd rfl 3 (by decide)).1, h3]
    rfl

end Machine

end LS8
