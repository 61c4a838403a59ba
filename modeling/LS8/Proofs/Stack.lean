import LS8.Proofs.Run

/-! The stack. Main statement: what `PUSH` and `CALL` put on it is found there by the matching `POP`
or `RET`, whatever is executed in between above it. -/
namespace LS8.Machine

variable {σ : Type} [Sink σ] {m n : Machine} {i : Instruction}

/-- A completed step stores nothing at or above the top of the stack. -/
theorem Completes.cell_eq (h : m.Completes n) {x : UInt8} (hx : m.cpu.registers.sp ≤ x) :
    n.memory.cell x = m.memory.cell x := by
  obtain ⟨i, _, hk, rfl⟩ := h.eq_after
  rw [after_memory]
  exact i.cell_memoryAfter hk hx

theorem cell_eq_of_run {run : ℕ → Machine} {n : ℕ} {x : UInt8}
    (hrun : ∀ k < n, (run k).Completes (run (k + 1)))
    (hsp : ∀ k < n, (run k).cpu.registers.sp ≤ x) :
    (run n).memory.cell x = (run 0).memory.cell x := by
  induction n with
  | zero => rfl
  | succ n ih =>
    have hn := Nat.lt_succ_self n
    rw [(hrun n hn).cell_eq (hsp n hn)]
    exact ih (fun k hk => hrun k (Nat.lt_succ_of_lt hk)) (fun k hk => hsp k (Nat.lt_succ_of_lt hk))

/-- The stack right after `PUSH` or `CALL`. -/
theorem Completes.of_stored (h : m.Completes n) (hi : m.instruction = .ok i) {v : UInt8}
    (hv : i.stored? m.cpu = some v) :
    n.cpu.registers.sp.toNat + 1 = m.cpu.registers.sp.toNat ∧
      n.cpu.registers = m.cpu.registers.setSp n.cpu.registers.sp ∧
      n.memory.cell n.cpu.registers.sp = v := by
  obtain ⟨j, hj, hk, rfl⟩ := h.eq_after
  obtain rfl : i = j := Except.ok.inj (hi.symm.trans hj)
  rw [after_registers, after_memory, Instruction.registersAfter_of_stored hv,
    Instruction.memoryAfter_of_stored hv, Registers.sp_setSp]
  refine ⟨toNat_sub_one (Instruction.sp_ne_zero_of_stored hv hk), rfl, ?_⟩
  exact Memory.cell_store_self _ _ _

theorem step_ret (h : m.state = .running) (hi : m.instruction = .ok i) (hop : i.opcode = .ret)
    (hs : m.cpu.registers.sp ≠ 255) (sink : σ) :
    (m.step sink).result = .ok .running ∧
      (m.step sink).machine.cpu.pc = (m.memory.cell m.cpu.registers.sp).toUInt64 ∧
      (m.step sink).machine.cpu.registers.sp = m.cpu.registers.sp + 1 := by
  have hk : i.fault? m.cpu m.memory = none := by
    simp only [Instruction.fault?, hop, Registers.bare?, if_neg hs]
  have ha : i.advance m.cpu m.memory = .jump (m.memory.cell m.cpu.registers.sp) := by
    simp only [Instruction.advance, hop]
  have hr : i.registersAfter m.cpu m.memory = m.cpu.registers.setSp (m.cpu.registers.sp + 1) := by
    simp only [Instruction.registersAfter, hop]
  rw [step_of_silent h hi hk (by simp [hop]), after_state, after_registers, after_pc_of_jump ha, hr]
  exact ⟨by simp [hop, h], rfl, Registers.sp_setSp _ _⟩

theorem step_pop (h : m.state = .running) (hi : m.instruction = .ok i) (hop : i.opcode = .pop)
    (hle : i.a ≤ 6) (hs : m.cpu.registers.sp ≠ 255) (sink : σ) :
    (m.step sink).result = .ok .running ∧
      (m.step sink).machine.cpu.registers.get i.a = .ok (m.memory.cell m.cpu.registers.sp) ∧
      (m.step sink).machine.cpu.registers.sp = m.cpu.registers.sp + 1 := by
  let v := m.memory.cell m.cpu.registers.sp
  have hl : i.a < 8 := UInt8.lt_of_le_of_lt hle (by decide)
  have h7 : i.a ≠ 7 := UInt8.ne_of_lt (UInt8.lt_of_le_of_lt hle (by decide))
  have hsp : (m.cpu.registers.put i.a v).sp = m.cpu.registers.sp := by
    rw [Registers.sp_put _ _ hl, if_neg h7]
  have hk : i.fault? m.cpu m.memory = none := by
    simp only [Instruction.fault?, hop, Registers.missing?, if_pos hl, Option.none_or,
      Registers.bare?, hsp, v, if_neg hs]
  have hr : i.registersAfter m.cpu m.memory =
      (m.cpu.registers.put i.a v).setSp (m.cpu.registers.sp + 1) := by
    simp only [Instruction.registersAfter, hop, v, hsp]
  rw [step_of_silent h hi hk (by simp [hop]), after_state, after_registers, hr]
  refine ⟨by simp [hop, h], ?_, Registers.sp_setSp _ _⟩
  rw [Registers.get_of_lt_eight _ hl, Registers.value_setSp, if_neg h7, Registers.value_put _ _ hl,
    if_pos rfl]

/-- The byte that `PUSH` or `CALL` puts at the top of the stack stays there while the stack pointer
is at most where they left it, and the next `RET` or `POP` from there takes it. -/
theorem stack_discipline {run : ℕ → Machine} {n : ℕ} (hi : m.instruction = .ok i)
    (hop : i.opcode = .push ∨ i.opcode = .call) (hm : m.Completes (run 0))
    (hrun : ∀ k < n, (run k).Completes (run (k + 1)))
    (hsp : ∀ k < n, (run k).cpu.registers.sp ≤ (run 0).cpu.registers.sp) :
    ∃ v : UInt8,
      (i.opcode = .push →
        (m.cpu.registers.setSp (m.cpu.registers.sp - 1)).get i.a = .ok v) ∧
      (i.opcode = .call → v.toNat = m.cpu.pc.toNat + 2) ∧
      (run 0).memory.cell (run 0).cpu.registers.sp = v ∧
      (run n).memory.cell (run 0).cpu.registers.sp = v ∧
      ((run n).cpu.registers.sp = (run 0).cpu.registers.sp → (run n).state = .running →
        ∀ j, (run n).instruction = .ok j → ∀ (σ : Type) [Sink σ] (sink : σ),
          (j.opcode = .ret →
            ((run n).step sink).result = .ok .running ∧
            ((run n).step sink).machine.cpu.pc = v.toUInt64 ∧
            ((run n).step sink).machine.cpu.registers.sp.toNat =
              (run 0).cpu.registers.sp.toNat + 1) ∧
          (j.opcode = .pop → j.a ≤ 6 →
            ((run n).step sink).result = .ok .running ∧
            ((run n).step sink).machine.cpu.registers.get j.a = .ok v ∧
            ((run n).step sink).machine.cpu.registers.sp.toNat =
              (run 0).cpu.registers.sp.toNat + 1)) := by
  obtain ⟨j, hj, hk, _⟩ := hm.eq_after
  obtain rfl : i = j := Except.ok.inj (hi.symm.trans hj)
  have hp : m.cpu.pc < 254 := (instruction_eq_ok_iff.mp hi).1
  obtain ⟨v, hv, hpush, hcall⟩ := Instruction.exists_stored hop hp hk
  obtain ⟨hs, hr, hc⟩ := hm.of_stored hi hv
  have hcn : (run n).memory.cell (run 0).cpu.registers.sp = v :=
    (cell_eq_of_run hrun hsp).trans hc
  have hs255 : (run 0).cpu.registers.sp ≠ 255 := by
    intro he
    have hl := m.cpu.registers.sp.toNat_lt
    rw [he] at hs
    simp only [UInt8.reduceToNat] at hs
    omega
  refine ⟨v, hpush, hcall, hc, hcn, ?_⟩
  intro hsn hrn j hj σ _ sink
  rw [← hsn] at hcn hs255 ⊢
  refine ⟨fun hret => ?_, fun hpop hle => ?_⟩
  · obtain ⟨hok, hpc, hsp⟩ := step_ret hrn hj hret hs255 sink
    rw [hcn] at hpc
    rw [hsp]
    exact ⟨hok, hpc, toNat_add_one hs255⟩
  · obtain ⟨hok, hget, hsp⟩ := step_pop hrn hj hpop hle hs255 sink
    rw [hcn] at hget
    rw [hsp]
    exact ⟨hok, hget, toNat_add_one hs255⟩

/-- A program with a subroutine that uses the stack itself. -/
def nestedCall : Machine :=
  let code : List (UInt8 × UInt8) := [(0, 0x50), (1, 1), (4, 0x45), (6, 0x46), (7, 3), (8, 0x11)]
  ⟨⟨0, (Registers.zero.setSp 0xf4).put 1 4, .none⟩,
    code.foldl (fun mem c => mem.store c.1 c.2) .zero, .running⟩

def nestedRun (k : ℕ) : Machine :=
  (fun m : Machine => (m.step Collector.empty).machine)^[k + 1] nestedCall

theorem stack_discipline_nestedCall :
    nestedCall.instruction = .ok ⟨.call, 1, 0⟩ ∧ nestedCall.Completes (nestedRun 0) ∧
      (∀ k < 2, (nestedRun k).Completes (nestedRun (k + 1))) ∧
      (∀ k < 2, (nestedRun k).cpu.registers.sp ≤ (nestedRun 0).cpu.registers.sp) ∧
      ((nestedRun 2).step Collector.empty).machine.cpu.pc.toNat = 2 := by
  have hi : nestedCall.instruction = .ok ⟨.call, 1, 0⟩ := rfl
  have hm : nestedCall.Completes (nestedRun 0) := completes_of_isOk rfl (by decide +kernel)
  have hok : ∀ k < 2, (nestedRun k).state = .running ∧
      ((nestedRun k).step Collector.empty).result.isOk := by decide +kernel
  have hrun : ∀ k < 2, (nestedRun k).Completes (nestedRun (k + 1)) := by
    intro k hk
    unfold nestedRun
    rw [Function.iterate_succ_apply' _ (k + 1)]
    exact completes_of_isOk (hok k hk).1 (hok k hk).2
  have hsp : ∀ k < 2, (nestedRun k).cpu.registers.sp ≤ (nestedRun 0).cpu.registers.sp := by
    decide +kernel
  refine ⟨hi, hm, hrun, hsp, ?_⟩
  obtain ⟨v, -, hv, -, -, hend⟩ := stack_discipline hi (Or.inr rfl) hm hrun hsp
  have hj : (nestedRun 2).instruction = .ok ⟨.ret, 0, 0⟩ :=
    instruction_eq_ok_iff.mpr (by decide +kernel)
  have hret := (hend (by decide +kernel) (by decide +kernel) _ hj Collector .empty).1 rfl
  obtain ⟨-, hpc, -⟩ := hret
  rw [hpc, UInt8.toNat_toUInt64]
  exact hv rfl

end LS8.Machine
