import LS8.Proofs.Cycle
import Mathlib.Logic.Function.Iterate

/-! Faults. Main statements: a step fails exactly with the first check that fails, and leaves the
machine as it was, except where the instruction had done a part of its work before the check. -/
namespace LS8

variable {σ : Type} [Sink σ]

/-- The error of a sink that refuses one of these values. -/
def Sink.refusal? (values : List UInt8) (sink : σ) : Option Error :=
  match emitAll values sink with
  | .ok .. => none
  | .error cause _ => some (.output cause)

/-- Sets the machine of a step back to work and takes the next step. -/
def Step.retry (t : Step σ) : Step σ := { t.machine with state := .running }.step t.sink

namespace Machine

variable {m : Machine} {sink : σ}

/-- The error of the next cycle: that of the first check that fails, in the order of the checks. -/
def fault? (m : Machine) (sink : σ) : Option Error :=
  if m.cpu.pc < 254 then
    match Opcode.ofByte? m.window.op with
    | none => some (.unknownOpcode m.window.op)
    | some op =>
      let i : Instruction := ⟨op, m.window.a, m.window.b⟩
      (i.fault? m.cpu m.memory).or (Sink.refusal? (i.printed m.cpu) sink)
  else some (fetchError m.cpu.pc)

theorem fault?_of_instruction {i : Instruction} (h : m.instruction = .ok i) :
    m.fault? sink = (i.fault? m.cpu m.memory).or (Sink.refusal? (i.printed m.cpu) sink) := by
  obtain ⟨hp, hw⟩ := instruction_eq_ok_iff.mp h
  simp only [fault?, hp, if_true, hw, Opcode.ofByte?_byte]

theorem fault?_of_undecoded {e : Error} (h : m.cpu.pc < 254)
    (hd : Instruction.decode m.window = .error e) : m.fault? sink = some e := by
  unfold fault?
  rw [if_pos h]
  unfold Instruction.decode Opcode.decode at hd
  cases ho : Opcode.ofByte? m.window.op with
  | none => simpa only [ho, Except.error.injEq, Option.some.injEq] using hd
  | some op => simp only [ho] at hd; exact nomatch hd

theorem result_eq_fault? (h : m.state = .running) (sink : σ) :
    (m.fault? sink = none ∧ ∃ s, (m.step sink).result = .ok s) ∨
      ∃ e, m.fault? sink = some e ∧ (m.step sink).result = .error e := by
  rw [step_of_running h]
  cases m.course sink with
  | unfetched hp hc =>
    refine Or.inr ⟨fetchError m.cpu.pc, if_neg hp, ?_⟩
    rw [hc]
    rfl
  | undecoded e hp hd hc =>
    refine Or.inr ⟨e, fault?_of_undecoded hp hd, ?_⟩
    rw [hc]
    rfl
  | failed i e hi hk hc =>
    refine Or.inr ⟨e, ?_, ?_⟩
    · rw [fault?_of_instruction hi, hk, Option.some_or]
    · rw [hc]
      rfl
  | refused i cause s hi hk he hc =>
    refine Or.inr ⟨.output cause, ?_, ?_⟩
    · rw [fault?_of_instruction hi, hk, Option.none_or, Sink.refusal?, he]
    · rw [hc]
      rfl
  | completed i s hi hk he hc =>
    refine Or.inl ⟨?_, (m.after i).state, ?_⟩
    · rw [fault?_of_instruction hi, hk, Option.none_or, Sink.refusal?, he]
    · rw [hc]

/-- Only a value that it refuses changes the sink of a step that fails. -/
theorem sink_of_error (h : m.state = .running) {e : Error} (he : (m.step sink).result = .error e)
    (ho : ∀ cause, e ≠ .output cause) : (m.step sink).sink = sink := by
  rw [step_of_running h] at he ⊢
  cases m.course sink with
  | unfetched hp hc => rw [hc]; rfl
  | undecoded e' hp hd hc => rw [hc]; rfl
  | failed i e' hi hk hc => rw [hc]; rfl
  | refused i cause s hi hk hm hc =>
    rw [hc] at he
    exact (ho cause (Except.error.inj he).symm).elim
  | completed i s hi hk hm hc =>
    rw [hc] at he
    exact nomatch he

/-- A running machine fails exactly with the error that `fault?` names, and only an error of the
sink itself tells that the sink has been asked. -/
theorem step_error_iff (m : Machine) (sink : σ) (h : m.state = .running) (e : Error) :
    ((m.step sink).result = .error e ↔ m.fault? sink = some e) ∧
      ((m.step sink).result = .error e → (∀ cause, e ≠ .output cause) →
        (m.step sink).sink = sink) := by
  refine ⟨?_, sink_of_error h⟩
  rcases result_eq_fault? h sink with ⟨hn, s, hs⟩ | ⟨e', he', hr⟩
  · rw [hn, hs]
    exact ⟨fun h => (nomatch h), fun h => (nomatch h)⟩
  · rw [he', hr]
    exact ⟨fun h => congrArg some (Except.error.inj h),
      fun h => congrArg Except.error (Option.some.inj h)⟩

/-- `PUSH` of a register that does not exist, on a stack without room. -/
def fullStack : Machine :=
  ⟨⟨0, .zero, .none⟩, (Memory.zero.store 0 0x45).store 1 9, .running⟩

theorem step_error_iff_fullStack :
    fullStack.state = .running ∧
      (fullStack.step Collector.empty).result = .error (.addressOutOfRange (-1)) := by
  have hf : fullStack.fault? Collector.empty = some (.addressOutOfRange (-1)) := by rfl
  exact ⟨rfl, (step_error_iff fullStack Collector.empty rfl _).1.mpr hf⟩

/-- The three faults that come after a part of the work, with the registers and the memory that they
leave: `PUSH` and `CALL` of a register that does not exist, which have moved the stack pointer, and
`POP` at the end of memory, which has set its register. -/
inductive LateFault (m : Machine) : Registers → Memory → Prop
  | push (i : Instruction) (decode : m.instruction = .ok i) (opcode : i.opcode = .push)
      (room : m.cpu.registers.sp ≠ 0) (missing : 8 ≤ i.a) :
      LateFault m (m.cpu.registers.setSp (m.cpu.registers.sp - 1)) m.memory
  | call (i : Instruction) (decode : m.instruction = .ok i) (opcode : i.opcode = .call)
      (room : m.cpu.registers.sp ≠ 0) (missing : 8 ≤ i.a) :
      LateFault m (m.cpu.registers.setSp (m.cpu.registers.sp - 1))
        (m.memory.store (m.cpu.registers.sp - 1) (m.cpu.pc + 2).toUInt8)
  | pop (i : Instruction) (decode : m.instruction = .ok i) (opcode : i.opcode = .pop)
      (present : i.a < 8)
      (edge : (m.cpu.registers.put i.a (m.memory.cell m.cpu.registers.sp)).sp = 255) :
      LateFault m (m.cpu.registers.put i.a (m.memory.cell m.cpu.registers.sp)) m.memory

private theorem missing_of_fault {r : Registers} {a : UInt8} {e : Error} (hr : r.sp ≠ 0)
    (he : r.full?.or (Registers.missing? a) = some e) : 8 ≤ a := by
  unfold Registers.full? Registers.missing? at he
  rw [if_neg hr, Option.none_or] at he
  split_ifs at he with ha
  exact UInt8.not_lt.mp ha

private theorem fault_of_missing {r : Registers} {a : UInt8} (hr : r.sp ≠ 0) (ha : 8 ≤ a) :
    r.full?.or (Registers.missing? a) = some (.registerOutOfRange a) := by
  unfold Registers.full? Registers.missing?
  rw [if_neg hr, Option.none_or, if_neg (UInt8.not_lt.mpr ha)]

/-- A check that fails comes late, or before the instruction has done anything. -/
theorem lateFault_or_left_eq {i : Instruction} {e : Error} (hi : m.instruction = .ok i)
    (he : i.fault? m.cpu m.memory = some e) :
    m.LateFault (m.left i).cpu.registers (m.left i).memory ∨ m.left i = m := by
  unfold Instruction.fault? at he
  unfold left Instruction.registersLeft Instruction.memoryLeft
  cases hop : i.opcode with
  | push =>
    by_cases hr : m.cpu.registers.sp = 0
    · exact Or.inr (by simp only [hr, if_true])
    · simp only [hop] at he
      simp only [hr, if_false]
      exact Or.inl (.push i hi hop hr (missing_of_fault hr he))
  | call =>
    by_cases hr : m.cpu.registers.sp = 0
    · exact Or.inr (by simp only [hr, if_true])
    · simp only [hop] at he
      simp only [hr, if_false]
      exact Or.inl (.call i hi hop hr (missing_of_fault hr he))
  | pop =>
    by_cases ha : i.a < 8
    · simp only [hop, Registers.missing?, ha, if_true, Option.none_or, Registers.bare?] at he ⊢
      split_ifs at he with hs
      exact Or.inl (.pop i hi hop ha hs)
    · exact Or.inr (by simp only [ha, if_false])
  | _ => exact Or.inr rfl

/-- A late fault is a check that fails, and it leaves what it says. -/
theorem LateFault.left_eq {r : Registers} {mem : Memory} (h : m.LateFault r mem) :
    ∃ i e, m.instruction = .ok i ∧ i.fault? m.cpu m.memory = some e ∧
      m.left i = ⟨{ m.cpu with registers := r }, mem, m.state⟩ := by
  unfold left Instruction.registersLeft Instruction.memoryLeft Instruction.fault?
  cases h with
  | push i hi hop hr ha =>
    refine ⟨i, .registerOutOfRange i.a, hi, ?_, ?_⟩
    · simp only [hop, fault_of_missing hr ha]
    · simp only [hop, hr, if_false]
  | call i hi hop hr ha =>
    refine ⟨i, .registerOutOfRange i.a, hi, ?_, ?_⟩
    · simp only [hop, fault_of_missing hr ha]
    · simp only [hop, hr, if_false]
  | pop i hi hop ha hs =>
    refine ⟨i, .addressOutOfRange 256, hi, ?_, ?_⟩
    · simp only [hop, Registers.missing?, Registers.bare?, ha, if_true, Option.none_or, hs]
    · simp only [hop, ha, if_true]

theorem machine_of_lateFault (h : m.state = .running) {r : Registers} {mem : Memory}
    (hl : m.LateFault r mem) (sink : σ) :
    (m.step sink).machine = ⟨{ m.cpu with registers := r }, mem, .faulted⟩ := by
  obtain ⟨i, e, hi, he, hm⟩ := hl.left_eq
  rw [step_of_running h, cycle_of_fault hi he, hm]
  rfl

theorem machine_of_early_fault (h : m.state = .running) (hl : ∀ r mem, ¬ m.LateFault r mem)
    {e : Error} (he : (m.step sink).result = .error e) :
    (m.step sink).machine = { m with state := .faulted } := by
  rw [step_of_running h] at he ⊢
  cases m.course sink with
  | unfetched hp hc => rw [hc]; rfl
  | undecoded e' hp hd hc => rw [hc]; rfl
  | failed i e' hi hk hc =>
    have hm : m.left i = m := (lateFault_or_left_eq hi hk).resolve_left (hl _ _)
    rw [hc, hm]
    rfl
  | refused i cause s hi hk hm hc => rw [hc]; rfl
  | completed i s hi hk hm hc =>
    rw [hc] at he
    exact nomatch he

/-- A step that fails without a trace fails again in the same way when it is retried. -/
theorem retry_eq (h : m.state = .running) (hs : (m.step sink).sink = sink)
    (hm : (m.step sink).machine = { m with state := .faulted }) :
    (m.step sink).retry = m.step sink := by
  obtain ⟨cpu, memory, state⟩ := m
  subst h
  unfold Step.retry
  rw [hm, hs]

/-- What a step that fails leaves. Without a late fault only the state has changed, and unless it
was the sink that failed, taking the step again any number of times fails in the same way. -/
theorem step_error_leaves (m : Machine) (sink : σ) (h : m.state = .running) {e : Error}
    (he : (m.step sink).result = .error e) :
    (∃ r mem, m.LateFault r mem ∧
        (m.step sink).machine = ⟨{ m.cpu with registers := r }, mem, .faulted⟩) ∨
      ((∀ r mem, ¬ m.LateFault r mem) ∧ (m.step sink).machine = { m with state := .faulted } ∧
        ((∀ cause, e ≠ .output cause) → ∀ n, (Step.retry^[n] (m.step sink)).result = .error e ∧
          (Step.retry^[n] (m.step sink)).machine = { m with state := .faulted })) := by
  by_cases hl : ∃ r mem, m.LateFault r mem
  · obtain ⟨r, mem, hl⟩ := hl
    exact Or.inl ⟨r, mem, hl, machine_of_lateFault h hl sink⟩
  · have hn : ∀ r mem, ¬ m.LateFault r mem := fun r mem hr => hl ⟨r, mem, hr⟩
    have hm := machine_of_early_fault h hn he
    refine Or.inr ⟨hn, hm, fun ho n => ?_⟩
    rw [Function.iterate_fixed (retry_eq h (sink_of_error h he ho) hm) n]
    exact ⟨he, hm⟩

/-- `CALL` of a register that does not exist. -/
def missingCall : Machine :=
  ⟨.initial, (Memory.zero.store 0 0x50).store 1 9, .running⟩

theorem step_error_leaves_missingCall :
    missingCall.state = .running ∧
      (missingCall.step Collector.empty).result = .error (.registerOutOfRange 9) ∧
      ∃ r mem, missingCall.LateFault r mem ∧ (missingCall.step Collector.empty).machine =
        ⟨{ missingCall.cpu with registers := r }, mem, .faulted⟩ := by
  have he : (missingCall.step Collector.empty).result = .error (.registerOutOfRange 9) := by rfl
  have hi : missingCall.instruction = .ok ⟨.call, 9, 0⟩ := by rfl
  have hl := LateFault.call _ hi rfl (by decide) (by decide)
  refine ⟨rfl, he, (step_error_leaves missingCall Collector.empty rfl he).resolve_right ?_⟩
  exact fun hn => hn.1 _ _ hl

end Machine

end LS8
