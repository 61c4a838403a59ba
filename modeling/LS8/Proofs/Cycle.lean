import LS8.Machine
import LS8.Proofs.Effects
import Mathlib.Data.Nat.Notation

/-! One cycle in closed form. Main statement: a cycle fails to fetch, to decode, a check of its
instruction or to print, or it completes, and each of these leaves a machine of its own. -/
namespace LS8.Machine

variable {σ : Type} [Sink σ] {m : Machine} {i : Instruction}

/-- The three cells at the program counter. -/
def window (m : Machine) : Fetched :=
  let p := m.cpu.pc.toUInt8
  ⟨m.memory.cell p, m.memory.cell (p + 1), m.memory.cell (p + 2)⟩

/-- The error of a fetch at `pc`. Only in the last two cells is it not the address itself that is
out of range. -/
def fetchError (pc : UInt64) : Error :=
  .addressOutOfRange (if pc < 256 then 256 else pc.toInt64)

theorem fetch_of_lt (h : m.cpu.pc < 254) : m.fetch = .ok m.window := by
  have hp : m.cpu.pc.toNat < 254 := UInt64.lt_iff_toNat_lt.mp h
  have h₁ : (m.cpu.pc + 1).toNat = m.cpu.pc.toNat + 1 := toNat_add_of_lt h (by decide)
  have h₂ : (m.cpu.pc + 2).toNat = m.cpu.pc.toNat + 2 := toNat_add_of_lt h (by decide)
  unfold fetch window
  rw [Memory.read_eq_cell _ (by omega), Memory.read_eq_cell _ (by omega),
    Memory.read_eq_cell _ (by omega), UInt64.toUInt8_add, UInt64.toUInt8_add]
  rfl

theorem fetch_of_not_lt (h : ¬ m.cpu.pc < 254) : m.fetch = .error (fetchError m.cpu.pc) := by
  have hp : 254 ≤ m.cpu.pc.toNat := Nat.not_lt.mp fun hn => h (UInt64.lt_iff_toNat_lt.mpr hn)
  unfold fetch fetchError
  by_cases hb : m.cpu.pc < 256
  · have hn : m.cpu.pc.toNat < 256 := UInt64.lt_iff_toNat_lt.mp hb
    rw [if_pos hb, Memory.read_eq_cell _ hn]
    rcases (show m.cpu.pc.toNat = 254 ∨ m.cpu.pc.toNat = 255 by omega) with he | he
    · have hpc : m.cpu.pc = 254 := UInt64.toNat_inj.mp he
      rw [hpc]
      rfl
    · have hpc : m.cpu.pc = 255 := UInt64.toNat_inj.mp he
      rw [hpc]
      rfl
  · have hn : 256 ≤ m.cpu.pc.toNat := Nat.not_lt.mp fun hn => hb (UInt64.lt_iff_toNat_lt.mpr hn)
    rw [if_neg hb, Memory.read_of_le _ hn]
    rfl

/-- The instruction that the next cycle decodes. -/
def instruction (m : Machine) : Except Error Instruction := m.fetch >>= Instruction.decode

theorem decode_eq_ok_iff {bytes : Fetched} :
    Instruction.decode bytes = .ok i ↔ bytes = ⟨i.opcode.byte, i.a, i.b⟩ := by
  constructor
  · intro h
    unfold Instruction.decode Opcode.decode at h
    cases ho : Opcode.ofByte? bytes.op with
    | none => simp only [ho] at h; exact nomatch h
    | some op =>
      simp only [ho, Except.ok.injEq] at h
      subst h
      rw [Opcode.ofByte?_eq_some_iff.mp ho]
  · rintro rfl
    exact Instruction.decode_byte _ _ _

theorem instruction_eq_ok_iff :
    m.instruction = .ok i ↔ m.cpu.pc < 254 ∧ m.window = ⟨i.opcode.byte, i.a, i.b⟩ := by
  unfold instruction
  rw [← decode_eq_ok_iff]
  by_cases h : m.cpu.pc < 254
  · rw [fetch_of_lt h]
    exact ⟨fun hd => ⟨h, hd⟩, fun hd => hd.2⟩
  · rw [fetch_of_not_lt h]
    exact ⟨fun hd => (nomatch hd), fun hd => (h hd.1).elim⟩

/-- The machine after an instruction that completes. -/
def after (m : Machine) (i : Instruction) : Machine :=
  { m with
    cpu := ⟨m.cpu.pc, i.registersAfter m.cpu m.memory, i.flagsAfter m.cpu⟩
    memory := i.memoryAfter m.cpu m.memory }.advance i.opcode.size (i.advance m.cpu m.memory)

/-- The machine after an instruction that fails a check. -/
def left (m : Machine) (i : Instruction) : Machine :=
  { m with
    cpu.registers := i.registersLeft m.cpu m.memory
    memory := i.memoryLeft m.cpu m.memory }

theorem advance_eq_halt_iff (i : Instruction) (c : Cpu) (mem : Memory) :
    i.advance c mem = .halt ↔ i.opcode = .hlt := by
  unfold Instruction.advance
  cases i.opcode <;> simp <;> split_ifs <;> simp

@[simp] theorem advance_registers (m : Machine) (size : ℕ) (a : Advance) :
    (m.advance size a).cpu.registers = m.cpu.registers := by
  cases a <;> rfl

@[simp] theorem advance_flags (m : Machine) (size : ℕ) (a : Advance) :
    (m.advance size a).cpu.flags = m.cpu.flags := by
  cases a <;> rfl

@[simp] theorem advance_memory (m : Machine) (size : ℕ) (a : Advance) :
    (m.advance size a).memory = m.memory := by
  cases a <;> rfl

@[simp] theorem after_registers (m : Machine) (i : Instruction) :
    (m.after i).cpu.registers = i.registersAfter m.cpu m.memory := by
  unfold after
  rw [advance_registers]

@[simp] theorem after_flags (m : Machine) (i : Instruction) :
    (m.after i).cpu.flags = i.flagsAfter m.cpu := by
  unfold after
  rw [advance_flags]

@[simp] theorem after_memory (m : Machine) (i : Instruction) :
    (m.after i).memory = i.memoryAfter m.cpu m.memory := by
  unfold after
  rw [advance_memory]

@[simp] theorem after_state (m : Machine) (i : Instruction) :
    (m.after i).state = if i.opcode = .hlt then .halted else m.state := by
  simp only [← advance_eq_halt_iff i m.cpu m.memory]
  unfold after
  cases i.advance m.cpu m.memory <;> rfl

theorem after_pc_of_jump {t : UInt8} (h : i.advance m.cpu m.memory = .jump t) :
    (m.after i).cpu.pc = t.toUInt64 := by
  unfold after
  rw [h]
  rfl

/-- What can be seen of a cycle before its instruction is executed. -/
def begun (m : Machine) (i : Instruction) : List Event :=
  [.fetched m.cpu m.window, .logged (.decoded m.cpu.pc i)]

def ended (m : Machine) (i : Instruction) : List Event :=
  (if i.opcode = .hlt then [.logged (.halted m.cpu.pc)] else []) ++ [.executed i (m.after i).cpu]

private theorem execute_of_instruction (hi : m.instruction = .ok i) (sink : σ) :
    m.fetch = .ok m.window ∧ Instruction.decode m.window = .ok i ∧
      i.execute ⟨m.cpu, m.memory, sink⟩ = i.outcome ⟨m.cpu, m.memory, sink⟩ := by
  obtain ⟨hp, hw⟩ := instruction_eq_ok_iff.mp hi
  exact ⟨fetch_of_lt hp, decode_eq_ok_iff.mpr hw, i.execute_eq_outcome hp⟩

theorem cycle_of_fault {e : Error} (hi : m.instruction = .ok i)
    (hk : i.fault? m.cpu m.memory = some e) (sink : σ) :
    m.cycle sink = (m.left i).fault m.cpu.pc sink (m.begun i) e := by
  obtain ⟨hf, hd, hx⟩ := execute_of_instruction hi sink
  unfold Instruction.outcome at hx
  simp only [hk] at hx
  simp only [cycle, hf, hd, hx]
  rfl

theorem cycle_of_refusal {cause : String} {sink s : σ} (hi : m.instruction = .ok i)
    (hk : i.fault? m.cpu m.memory = none)
    (he : Sink.emitAll (i.printed m.cpu) sink = .error cause s) :
    m.cycle sink = m.fault m.cpu.pc s (m.begun i) (.output cause) := by
  obtain ⟨hf, hd, hx⟩ := execute_of_instruction hi sink
  unfold Instruction.outcome at hx
  simp only [hk, he] at hx
  simp only [cycle, hf, hd, hx]
  rfl

theorem cycle_of_emit {sink s : σ} (hi : m.instruction = .ok i)
    (hk : i.fault? m.cpu m.memory = none)
    (he : Sink.emitAll (i.printed m.cpu) sink = .ok () s) :
    m.cycle sink = ⟨m.after i, s, m.begun i ++ m.ended i, .ok (m.after i).state⟩ := by
  obtain ⟨hf, hd, hx⟩ := execute_of_instruction hi sink
  unfold Instruction.outcome at hx
  simp only [hk, he] at hx
  simp only [cycle, hf, hd, hx, advance_eq_halt_iff]
  rfl

inductive Course (m : Machine) (sink : σ) : Prop
  | unfetched (h : ¬ m.cpu.pc < 254)
      (cycle : m.cycle sink = m.fault m.cpu.pc sink [] (fetchError m.cpu.pc))
  | undecoded (e : Error) (h : m.cpu.pc < 254) (decode : Instruction.decode m.window = .error e)
      (cycle : m.cycle sink = m.fault m.cpu.pc sink [.fetched m.cpu m.window] e)
  | failed (i : Instruction) (e : Error) (decode : m.instruction = .ok i)
      (check : i.fault? m.cpu m.memory = some e)
      (cycle : m.cycle sink = (m.left i).fault m.cpu.pc sink (m.begun i) e)
  | refused (i : Instruction) (cause : String) (s : σ) (decode : m.instruction = .ok i)
      (check : i.fault? m.cpu m.memory = none)
      (emit : Sink.emitAll (i.printed m.cpu) sink = .error cause s)
      (cycle : m.cycle sink = m.fault m.cpu.pc s (m.begun i) (.output cause))
  | completed (i : Instruction) (s : σ) (decode : m.instruction = .ok i)
      (check : i.fault? m.cpu m.memory = none)
      (emit : Sink.emitAll (i.printed m.cpu) sink = .ok () s)
      (cycle : m.cycle sink = ⟨m.after i, s, m.begun i ++ m.ended i, .ok (m.after i).state⟩)

/-- The checks are made in the order of the ways in which a cycle can go. -/
theorem course (m : Machine) (sink : σ) : m.Course sink := by
  by_cases h : m.cpu.pc < 254
  · cases hd : Instruction.decode m.window with
    | error e => exact .undecoded e h hd (by simp only [cycle, fetch_of_lt h, hd])
    | ok i =>
      have hi : m.instruction = .ok i := instruction_eq_ok_iff.mpr ⟨h, decode_eq_ok_iff.mp hd⟩
      cases hk : i.fault? m.cpu m.memory with
      | some e => exact .failed i e hi hk (cycle_of_fault hi hk sink)
      | none =>
        cases he : Sink.emitAll (i.printed m.cpu) sink with
        | error cause s => exact .refused i cause s hi hk he (cycle_of_refusal hi hk he)
        | ok u s => exact .completed i s hi hk he (cycle_of_emit hi hk he)
  · exact .unfetched h (by simp only [cycle, fetch_of_not_lt h])

theorem step_of_silent (h : m.state = .running) (hi : m.instruction = .ok i)
    (hk : i.fault? m.cpu m.memory = none) (hop : i.opcode ≠ .prn) (sink : σ) :
    m.step sink = ⟨m.after i, sink, m.begun i ++ m.ended i, .ok (m.after i).state⟩ := by
  have hp : i.printed m.cpu = [] := if_neg hop
  rw [step_of_running h]
  exact cycle_of_emit hi hk (by rw [hp, Sink.emitAll_nil])

/-- A step of a running machine that answers a state has completed an instruction. -/
theorem step_of_ok {sink : σ} {st : State} (h : m.state = .running)
    (hs : (m.step sink).result = .ok st) :
    ∃ i s, m.instruction = .ok i ∧ i.fault? m.cpu m.memory = none ∧
      Sink.emitAll (i.printed m.cpu) sink = .ok () s ∧
      m.step sink = ⟨m.after i, s, m.begun i ++ m.ended i, .ok (m.after i).state⟩ := by
  rw [step_of_running h] at hs ⊢
  cases m.course sink with
  | unfetched hp hc => rw [hc] at hs; exact nomatch hs
  | undecoded e hp hd hc => rw [hc] at hs; exact nomatch hs
  | failed i e hi hk hc => rw [hc] at hs; exact nomatch hs
  | refused i cause s hi hk he hc => rw [hc] at hs; exact nomatch hs
  | completed i s hi hk he hc => exact ⟨i, s, hi, hk, he, hc⟩

/-- Whatever else a step that fails has done, it has not come to the program counter or the
flags. -/
theorem pc_flags_of_error {sink : σ} {e : Error} (hs : (m.step sink).result = .error e) :
    (m.step sink).machine.cpu.pc = m.cpu.pc ∧ (m.step sink).machine.cpu.flags = m.cpu.flags := by
  by_cases h : m.state = .running
  · rw [step_of_running h] at hs ⊢
    cases m.course sink with
    | unfetched hp hc => rw [hc]; exact ⟨rfl, rfl⟩
    | undecoded e hp hd hc => rw [hc]; exact ⟨rfl, rfl⟩
    | failed i e hi hk hc => rw [hc]; exact ⟨rfl, rfl⟩
    | refused i cause s hi hk he hc => rw [hc]; exact ⟨rfl, rfl⟩
    | completed i s hi hk he hc => rw [hc] at hs; exact nomatch hs
  · rw [step_of_stopped h]
    exact ⟨rfl, rfl⟩

end LS8.Machine
