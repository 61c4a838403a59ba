import LS8.Proofs.Layout
import LS8.Proofs.Run
import Mathlib.Data.Nat.Init

/-! The flags of a run. Main statement: they tell the outcome of the last comparison that was
completed, whatever came after it, and the conditional jumps go by it. -/
namespace LS8

theorem Flags.compare_ne_none (x y : UInt8) : Flags.compare x y ≠ .none := by
  intro h
  simp only [Flags.compare, Flags.none, Flags.mk.injEq, decide_eq_false_iff_not, UInt8.not_lt] at h
  exact h.1 (UInt8.le_antisymm h.2.1 h.2.2)

theorem Flags.count_compare (x y : UInt8) :
    [(Flags.compare x y).equal, (Flags.compare x y).greater, (Flags.compare x y).less].count true
      = 1 := by
  simp only [Flags.compare, UInt8.lt_iff_toNat_lt, ← UInt8.toNat_inj]
  rcases Nat.lt_trichotomy x.toNat y.toNat with h | h | h
  · simp [h, Nat.ne_of_lt h, Nat.le_of_lt h]
  · simp [h]
  · simp [h, Nat.ne_of_gt h, Nat.le_of_lt h]

theorem Flags.compare_iff (x y : UInt8) : ((compare x y).equal ↔ x.toNat = y.toNat) ∧
    ((compare x y).less ↔ x.toNat < y.toNat) ∧ ((compare x y).greater ↔ y.toNat < x.toNat) := by
  simp only [compare, decide_eq_true_iff, UInt8.lt_iff_toNat_lt, UInt8.toNat_inj, and_self]

theorem Registers.value_of_get {r : Registers} {i x : UInt8} (h : r.get i = .ok x) :
    r.value i = x := by
  by_cases hi : i < 8
  · rw [Registers.get_of_lt_eight r hi] at h
    exact Except.ok.inj h
  · rw [Registers.get_of_not_lt r hi] at h
    exact nomatch h

namespace Machine

variable {σ : Type} [Sink σ] {m : Machine} {sink : σ} {i : Instruction}

/-- The next step completes a `CMP` of registers that hold `x` and `y`. -/
def Compares (m : Machine) (sink : σ) (x y : UInt8) : Prop :=
  m.state = .running ∧ (∃ st, (m.step sink).result = .ok st) ∧
    ∃ i, m.instruction = .ok i ∧ i.opcode = .cmp ∧ m.cpu.registers.get i.a = .ok x ∧
      m.cpu.registers.get i.b = .ok y

theorem Compares.flags {x y : UInt8} (h : m.Compares sink x y) :
    (m.step sink).machine.cpu.flags = .compare x y := by
  obtain ⟨hr, ⟨st, hs⟩, i, hi, hop, hx, hy⟩ := h
  obtain ⟨j, s, hj, -, -, hm⟩ := step_of_ok hr hs
  obtain rfl : i = j := Except.ok.inj (hi.symm.trans hj)
  rw [hm, after_flags, Instruction.flagsAfter]
  simp only [hop, Registers.value_of_get hx, Registers.value_of_get hy]

/-- A `CMP` that fails is none that completes: it checks both registers first. -/
theorem flags_of_not_compares (h : ∀ x y, ¬ m.Compares sink x y) :
    (m.step sink).machine.cpu.flags = m.cpu.flags := by
  by_cases hr : m.state = .running
  · cases hs : (m.step sink).result with
    | error e => exact (pc_flags_of_error hs).2
    | ok st =>
      obtain ⟨i, s, hi, hk, -, hm⟩ := step_of_ok hr hs
      rw [hm, after_flags, Instruction.flagsAfter]
      cases hop : i.opcode with
      | cmp =>
        simp only [Instruction.fault?, hop, Option.or_eq_none_iff,
          Registers.missing?_eq_none_iff] at hk
        exact (h _ _ ⟨hr, ⟨_, hs⟩, i, hi, hop, Registers.get_of_lt_eight _ hk.1,
          Registers.get_of_lt_eight _ hk.2⟩).elim
      | _ => rfl
  · rw [step_of_stopped hr]

/-- The next step completes the conditional jump `i`. It jumps to the address in the register
exactly if `p`, and otherwise past its own two cells. -/
structure BranchesIff (m : Machine) (sink : σ) (i : Instruction) (p : Prop) : Prop where
  jumps_iff : (∃ v d, i.execute ⟨m.cpu, m.memory, sink⟩ = .ok (.jump v) d) ↔ p
  jump : p → ∃ v, m.cpu.registers.get i.a = .ok v ∧ (m.step sink).machine.cpu.pc = v.toUInt64
  skip : ¬ p → (m.step sink).machine.cpu.pc.toNat = m.cpu.pc.toNat + 2

/-- What `JEQ` and `JNE` have in common: only a jump that is taken looks at its register. -/
theorem branchesIff_of_taken {p : Prop} (taken : Bool) {st : State} (hr : m.state = .running)
    (hi : m.instruction = .ok i) (hs : (m.step sink).result = .ok st)
    (hk : i.fault? m.cpu m.memory = if taken then Registers.missing? i.a else none)
    (ha : i.advance m.cpu m.memory =
      if taken then .jump (m.cpu.registers.value i.a) else .skip)
    (hp : taken = true ↔ p) : m.BranchesIff sink i p := by
  obtain ⟨j, s, hj, hn, he, hm⟩ := step_of_ok hr hs
  obtain rfl : i = j := Except.ok.inj (hi.symm.trans hj)
  have hpc := (instruction_eq_ok_iff.mp hi).1
  have hx : i.execute ⟨m.cpu, m.memory, sink⟩ =
      .ok (i.advance m.cpu m.memory) { i.after ⟨m.cpu, m.memory, sink⟩ with sink := s } := by
    rw [i.execute_eq_outcome hpc]
    simp only [Instruction.outcome, hn, he]
  cases taken with
  | true =>
    rw [if_pos rfl] at hk ha
    have hl : i.a < 8 := Registers.missing?_eq_none_iff.mp (hk.symm.trans hn)
    refine ⟨⟨fun _ => hp.mp rfl, fun _ => ⟨_, _, ha ▸ hx⟩⟩, fun _ => ?_, fun hnp => ?_⟩
    · refine ⟨_, Registers.get_of_lt_eight _ hl, ?_⟩
      rw [hm, after_pc_of_jump ha]
    · exact (hnp (hp.mp rfl)).elim
  | false =>
    rw [if_neg Bool.false_ne_true] at ha
    have hnp : ¬ p := fun h => Bool.false_ne_true (hp.mpr h)
    refine ⟨⟨fun ⟨v, d, hv⟩ => ?_, fun h => (hnp h).elim⟩, fun h => (hnp h).elim, fun _ => ?_⟩
    · rw [hx, ha] at hv
      exact nomatch hv
    · rw [hm]
      simp only [after, ha]
      exact toNat_add_of_lt hpc (by decide)

theorem branchesIff_jeq {p : Prop} {st : State} (hr : m.state = .running)
    (hi : m.instruction = .ok i) (hs : (m.step sink).result = .ok st) (hop : i.opcode = .jeq)
    (hp : m.cpu.flags.equal = true ↔ p) : m.BranchesIff sink i p := by
  refine branchesIff_of_taken m.cpu.flags.equal hr hi hs ?_ ?_ hp
  · simp only [Instruction.fault?, hop]
  · simp only [Instruction.advance, hop]

theorem branchesIff_jne {p : Prop} {st : State} (hr : m.state = .running)
    (hi : m.instruction = .ok i) (hs : (m.step sink).result = .ok st) (hop : i.opcode = .jne)
    (hp : ¬ m.cpu.flags.equal = true ↔ p) : m.BranchesIff sink i p := by
  refine branchesIff_of_taken (!m.cpu.flags.equal) hr hi hs ?_ ?_ (by simpa using hp)
  · simp only [Instruction.fault?, hop]
    cases m.cpu.flags.equal <;> rfl
  · simp only [Instruction.advance, hop]
    cases m.cpu.flags.equal <;> rfl

end Machine

namespace Session

variable {σ ω : Type} [Sink σ] [Observer ω] {s : Session σ ω} {n : ℕ} {x y : UInt8}

/-- The next step completes a `CMP` of registers that hold `x` and `y`. -/
def Compares (s : Session σ ω) (x y : UInt8) : Prop := s.machine.Compares s.sink x y

/-- The last `CMP` that one of the first `n` steps completed was of registers that held `x` and
`y`. -/
def LastCompared (s : Session σ ω) (n : ℕ) (x y : UInt8) : Prop :=
  ∃ k < n, (s.after k).Compares x y ∧ ∀ j, k < j → j < n → ∀ u v, ¬ (s.after j).Compares u v

theorem flags_eq_of_quiet {k : ℕ} (hk : k ≤ n)
    (h : ∀ j, k ≤ j → j < n → ∀ u v, ¬ (s.after j).Compares u v) :
    (s.after n).machine.cpu.flags = (s.after k).machine.cpu.flags := by
  induction n, hk using Nat.le_induction with
  | base => rfl
  | succ n hkn ih =>
    have hn : ∀ u v, ¬ (s.after n).Compares u v := h n hkn (Nat.lt_succ_self n)
    rw [after_succ_machine, Machine.flags_of_not_compares hn]
    exact ih fun j hkj hj => h j hkj (Nat.lt_succ_of_lt hj)

theorem LastCompared.flags (h : s.LastCompared n x y) :
    (s.after n).machine.cpu.flags = .compare x y := by
  obtain ⟨k, hk, hc, hq⟩ := h
  rw [flags_eq_of_quiet (Nat.succ_le_of_lt hk) hq, after_succ_machine]
  exact Machine.Compares.flags hc

/-- Either no step of a run has completed a `CMP`, or one was the last to do so. -/
theorem quiet_or_lastCompared (s : Session σ ω) (n : ℕ) :
    (∀ k < n, ∀ x y, ¬ (s.after k).Compares x y) ∨ ∃ x y, s.LastCompared n x y := by
  induction n with
  | zero => exact Or.inl fun k hk => (Nat.not_lt_zero k hk).elim
  | succ n ih =>
    by_cases hc : ∃ x y, (s.after n).Compares x y
    · obtain ⟨x, y, hc⟩ := hc
      exact Or.inr ⟨x, y, n, Nat.lt_succ_self n, hc, fun j hj hjn => by omega⟩
    · have hn : ∀ x y, ¬ (s.after n).Compares x y := fun x y h => hc ⟨x, y, h⟩
      rcases ih with hq | ⟨x, y, k, hk, hx, hq⟩
      · refine Or.inl fun k hk => ?_
        rcases Nat.lt_succ_iff_lt_or_eq.mp hk with hk | rfl
        · exact hq k hk
        · exact hn
      · refine Or.inr ⟨x, y, k, Nat.lt_succ_of_lt hk, hx, fun j hkj hj => ?_⟩
        rcases Nat.lt_succ_iff_lt_or_eq.mp hj with hj | rfl
        · exact hq j hkj hj
        · exact hn

/-- The flag of equality stands for equal values in the last comparison. -/
theorem equal_iff (h0 : s.machine.cpu.flags = .none) :
    (s.after n).machine.cpu.flags.equal = true ↔ ∃ x, s.LastCompared n x x := by
  constructor
  · intro he
    rcases s.quiet_or_lastCompared n with hq | ⟨x, y, hl⟩
    · rw [flags_eq_of_quiet (Nat.zero_le n) fun j _ hj => hq j hj, after_zero, h0] at he
      exact nomatch he
    · rw [hl.flags] at he
      obtain rfl : x = y := of_decide_eq_true he
      exact ⟨x, hl⟩
  · rintro ⟨x, hl⟩
    rw [hl.flags]
    exact decide_eq_true rfl

/-- The flags after any number of steps from a program that has been loaded, and the conditional
jumps that complete there. -/
theorem flags_record_last {image : List UInt8} {m : Machine}
    (h : Machine.withProgram image = .ok m) (sink : σ) (o : ω) (n : ℕ) :
    let s : Session σ ω := ⟨m, sink, o⟩
    let t := s.after n
    let f := t.machine.cpu.flags
    [f.equal, f.greater, f.less].count true ≤ 1 ∧
      (f = .none ↔ ∀ k < n, ∀ x y, ¬ (s.after k).Compares x y) ∧
      (f = .none ∨ ∃ x y, s.LastCompared n x y) ∧
      (∀ x y, s.LastCompared n x y → (f.equal ↔ x.toNat = y.toNat) ∧
        (f.less ↔ x.toNat < y.toNat) ∧ (f.greater ↔ y.toNat < x.toNat)) ∧
      ∀ i st, t.machine.state = .running → t.machine.instruction = .ok i → t.step.2 = .ok st →
        (i.opcode = .jeq → t.machine.BranchesIff t.sink i (∃ x, s.LastCompared n x x)) ∧
        (i.opcode = .jne → t.machine.BranchesIff t.sink i (¬ ∃ x, s.LastCompared n x x)) := by
  intro s t f
  have h0 : s.machine.cpu.flags = .none := by
    change m.cpu.flags = .none
    rw [Machine.of_withProgram h]
    rfl
  have hn : (∀ k < n, ∀ x y, ¬ (s.after k).Compares x y) → f = .none := fun hq =>
    (flags_eq_of_quiet (Nat.zero_le n) fun j _ hj => hq j hj).trans h0
  have he : f.equal = true ↔ ∃ x, s.LastCompared n x x := equal_iff h0
  refine ⟨?_, ⟨fun hf => ?_, hn⟩, (s.quiet_or_lastCompared n).imp_left hn, fun x y hl => ?_,
    fun i st hr hi hs => ⟨fun hop => ?_, fun hop => ?_⟩⟩
  · rcases s.quiet_or_lastCompared n with hq | ⟨x, y, hl⟩
    · rw [hn hq]
      decide
    · have hf : f = .compare x y := hl.flags
      rw [hf]
      exact Nat.le_of_eq (Flags.count_compare x y)
  · rcases s.quiet_or_lastCompared n with hq | ⟨x, y, hl⟩
    · exact hq
    · exact (Flags.compare_ne_none x y (hl.flags.symm.trans hf)).elim
  · have hf : f = .compare x y := hl.flags
    rw [hf]
    exact Flags.compare_iff x y
  · exact Machine.branchesIff_jeq hr hi hs hop he
  · exact Machine.branchesIff_jne hr hi hs hop (not_congr he)

/-- A comparison of equal values and a jump back to it. -/
def comparingCode : List UInt8 := [0xa7, 2, 3, 0x55, 1, 0x01]

def comparing : Session Collector Unit :=
  ⟨⟨.initial, .ofImage comparingCode, .running⟩, .empty, ()⟩

theorem flags_record_last_comparing :
    Machine.withProgram comparingCode = .ok comparing.machine ∧ comparing.LastCompared 1 0 0 ∧
      (comparing.after 1).machine.cpu.pc = 3 ∧ (comparing.after 2).machine.cpu.pc = 0 := by
  have hm : Machine.withProgram comparingCode = .ok comparing.machine :=
    Machine.withProgram_of_le (by decide)
  have hi : comparing.machine.instruction = .ok ⟨.cmp, 2, 3⟩ :=
    Machine.instruction_eq_ok_iff.mpr (by decide +kernel)
  have hs := Machine.step_of_silent rfl hi (by decide +kernel) (by decide) comparing.sink
  have hl : comparing.LastCompared 1 0 0 := by
    refine ⟨0, Nat.one_pos, ⟨rfl, ⟨_, congrArg Step.result hs⟩, _, hi, rfl, rfl, rfl⟩, ?_⟩
    intro j hj hn
    omega
  have hi' : (comparing.after 1).machine.instruction = .ok ⟨.jeq, 1, 1⟩ :=
    Machine.instruction_eq_ok_iff.mpr (by decide +kernel)
  have hr' : (comparing.after 1).machine.state = .running := by decide +kernel
  have hs' : (comparing.after 1).step.2 =
      .ok ((comparing.after 1).machine.after ⟨.jeq, 1, 1⟩).state := by
    rw [step_eq, Machine.step_of_silent hr' hi' (by decide +kernel) (by decide)]
  obtain ⟨-, -, -, -, hb⟩ := flags_record_last hm comparing.sink comparing.observer 1
  have he : (⟨comparing.machine, comparing.sink, comparing.observer⟩ : Session _ _) = comparing :=
    rfl
  rw [he] at hb
  obtain ⟨v, hv, hpc⟩ := ((hb _ _ hr' hi' hs').1 rfl).jump ⟨0, hl⟩
  have h0 : (comparing.after 1).machine.cpu.registers.value 1 = 0 := by decide +kernel
  obtain rfl : v = 0 := (Registers.value_of_get hv).symm.trans h0
  refine ⟨hm, hl, by decide +kernel, ?_⟩
  rw [after_succ_machine]
  exact hpc

end Session

end LS8
