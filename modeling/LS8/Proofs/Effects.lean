import LS8.Datapath
import LS8.Proofs.Cells
import Mathlib.Tactic.SplitIfs

/-! What each instruction does, without the order of its steps: the first check that it fails, what
it prints, what it leaves when it completes and what when it fails. Main statement: the execution
of an instruction is these four. -/
namespace LS8

namespace Registers

/-- The error of an index that names no register. -/
def missing? (i : UInt8) : Option Error := if i < 8 then none else some (.registerOutOfRange i)

theorem missing?_eq_none_iff {i : UInt8} : missing? i = none ↔ i < 8 := by
  unfold missing?
  split_ifs with h <;> simp [h]

/-- The error of a stack that would grow below address 0. -/
def full? (r : Registers) : Option Error :=
  if r.sp = 0 then some (.addressOutOfRange (-1)) else none

theorem full?_eq_none_iff {r : Registers} : r.full? = none ↔ r.sp ≠ 0 := by
  unfold full?
  split_ifs with h <;> simp [h]

/-- The error of a stack that would shrink above address 255. -/
def bare? (r : Registers) : Option Error :=
  if r.sp = 255 then some (.addressOutOfRange 256) else none

theorem bare?_eq_none_iff {r : Registers} : r.bare? = none ↔ r.sp ≠ 255 := by
  unfold bare?
  split_ifs with h <;> simp [h]

end Registers

namespace Sink

variable {σ : Type} [Sink σ]

/-- Emits values in order, up to the first one that is refused. -/
def emitAll (values : List UInt8) : EStateM String σ Unit := values.forM emit

@[simp] theorem emitAll_nil (s : σ) : emitAll [] s = .ok () s := rfl

theorem emitAll_singleton (v : UInt8) (s : σ) : emitAll [v] s = emit v s := by
  change EStateM.bind (emit v) (fun _ => pure ()) s = _
  unfold EStateM.bind
  cases emit v s <;> rfl

end Sink

namespace Instruction

open Registers (missing?)

/-- The first check that an instruction fails. A conditional jump checks its register only when it
is taken, and `POP` looks at the stack pointer after it has set its register. -/
def fault? (i : Instruction) (c : Cpu) (m : Memory) : Option Error :=
  let r := c.registers
  match i.opcode with
  | .hlt => none
  | .ldi | .jmp | .prn => missing? i.a
  | .add | .mul | .cmp => (missing? i.a).or (missing? i.b)
  | .push | .call => r.full?.or (missing? i.a)
  | .pop => (missing? i.a).or (r.put i.a (m.cell r.sp)).bare?
  | .ret => r.bare?
  | .jeq => if c.flags.equal then missing? i.a else none
  | .jne => if c.flags.equal then none else missing? i.a

def printed (i : Instruction) (c : Cpu) : List UInt8 :=
  if i.opcode = .prn then [c.registers.value i.a] else []

def registersAfter (i : Instruction) (c : Cpu) (m : Memory) : Registers :=
  let r := c.registers
  match i.opcode with
  | .ldi => r.put i.a i.b
  | .add => r.put i.a (r.value i.a + r.value i.b)
  | .mul => r.put i.a (r.value i.a * r.value i.b)
  | .push | .call => r.setSp (r.sp - 1)
  | .pop => (r.put i.a (m.cell r.sp)).setSp ((r.put i.a (m.cell r.sp)).sp + 1)
  | .ret => r.setSp (r.sp + 1)
  | .hlt | .prn | .jmp | .jeq | .jne | .cmp => r

/-- The byte that an instruction puts on the stack. -/
def stored? (i : Instruction) (c : Cpu) : Option UInt8 :=
  let r := c.registers
  match i.opcode with
  | .push => some ((r.setSp (r.sp - 1)).value i.a)
  | .call => some (c.pc + 2).toUInt8
  | _ => none

def memoryAfter (i : Instruction) (c : Cpu) (m : Memory) : Memory :=
  match i.stored? c with
  | some v => m.store (c.registers.sp - 1) v
  | none => m

def flagsAfter (i : Instruction) (c : Cpu) : Flags :=
  match i.opcode with
  | .cmp => .compare (c.registers.value i.a) (c.registers.value i.b)
  | _ => c.flags

def advance (i : Instruction) (c : Cpu) (m : Memory) : Advance :=
  let r := c.registers
  match i.opcode with
  | .hlt => .halt
  | .call => .jump ((r.setSp (r.sp - 1)).value i.a)
  | .ret => .jump (m.cell r.sp)
  | .jmp => .jump (r.value i.a)
  | .jeq => if c.flags.equal then .jump (r.value i.a) else .skip
  | .jne => if c.flags.equal then .skip else .jump (r.value i.a)
  | .ldi | .add | .mul | .cmp | .prn | .push | .pop => .next

/-- The datapath after an instruction that completes, but for what the sink takes. -/
def after {σ : Type} (i : Instruction) (d : Datapath σ) : Datapath σ :=
  ⟨⟨d.cpu.pc, i.registersAfter d.cpu d.memory, i.flagsAfter d.cpu⟩, i.memoryAfter d.cpu d.memory,
    d.sink⟩

/-- The registers after an instruction that fails a check. -/
def registersLeft (i : Instruction) (c : Cpu) (m : Memory) : Registers :=
  let r := c.registers
  match i.opcode with
  | .push | .call => if r.sp = 0 then r else r.setSp (r.sp - 1)
  | .pop => if i.a < 8 then r.put i.a (m.cell r.sp) else r
  | _ => r

def memoryLeft (i : Instruction) (c : Cpu) (m : Memory) : Memory :=
  match i.opcode with
  | .call => if c.registers.sp = 0 then m else m.store (c.registers.sp - 1) (c.pc + 2).toUInt8
  | _ => m

/-- The datapath after an instruction that fails a check. -/
def left {σ : Type} (i : Instruction) (d : Datapath σ) : Datapath σ :=
  ⟨{ d.cpu with registers := i.registersLeft d.cpu d.memory }, i.memoryLeft d.cpu d.memory, d.sink⟩

section Stack

variable {i : Instruction} {c : Cpu} {m : Memory} {v : UInt8}

theorem stored?_eq_some (h : i.stored? c = some v) : i.opcode = .push ∨ i.opcode = .call := by
  unfold stored? at h
  cases hop : i.opcode <;> simp_all

theorem sp_ne_zero_of_stored (hv : i.stored? c = some v) (hk : i.fault? c m = none) :
    c.registers.sp ≠ 0 := by
  intro hz
  unfold fault? Registers.full? at hk
  rcases stored?_eq_some hv with hop | hop <;> simp [hop, hz] at hk

theorem exists_stored (hop : i.opcode = .push ∨ i.opcode = .call) (hp : c.pc < 254)
    (hk : i.fault? c m = none) :
    ∃ v, i.stored? c = some v ∧
      (i.opcode = .push → (c.registers.setSp (c.registers.sp - 1)).get i.a = .ok v) ∧
      (i.opcode = .call → v.toNat = c.pc.toNat + 2) := by
  unfold stored?
  rcases hop with hop | hop
  · have hm : missing? i.a = none := by
      simp only [fault?, hop] at hk
      exact (Option.or_eq_none_iff.mp hk).2
    simp only [hop]
    refine ⟨_, rfl, fun _ => ?_, fun h => (nomatch h)⟩
    exact Registers.get_of_lt_eight _ (Registers.missing?_eq_none_iff.mp hm)
  · simp only [hop]
    exact ⟨_, rfl, fun h => (nomatch h), fun _ => returnAddress_toNat hp⟩

theorem registersAfter_of_stored (hv : i.stored? c = some v) :
    i.registersAfter c m = c.registers.setSp (c.registers.sp - 1) := by
  unfold registersAfter
  rcases stored?_eq_some hv with hop | hop <;> simp only [hop]

theorem memoryAfter_of_stored (hv : i.stored? c = some v) :
    i.memoryAfter c m = m.store (c.registers.sp - 1) v := by
  unfold memoryAfter
  rw [hv]

/-- An instruction that completes stores below the top of the stack, if it stores at all. -/
theorem cell_memoryAfter (hk : i.fault? c m = none) {x : UInt8} (hx : c.registers.sp ≤ x) :
    (i.memoryAfter c m).cell x = m.cell x := by
  unfold memoryAfter
  cases hv : i.stored? c with
  | none => rfl
  | some v =>
    have hs := toNat_sub_one (sp_ne_zero_of_stored hv hk)
    have hxs : c.registers.sp.toNat ≤ x.toNat := UInt8.le_iff_toNat_le.mp hx
    have hne : x ≠ c.registers.sp - 1 := by
      rintro rfl
      omega
    exact m.cell_store_of_ne v hne

end Stack

end Instruction

namespace Effect

variable {σ α : Type} (d : Datapath σ)

theorem register_bind (i : UInt8) (k : UInt8 → Effect σ α) : (register i >>= k) d =
    if i < 8 then k (d.cpu.registers.value i) d else .error (.registerOutOfRange i) d := by
  change EStateM.bind (register i) k d = _
  unfold EStateM.bind register
  by_cases h : i < 8
  · rw [Registers.get_of_lt_eight _ h, if_pos h]
  · rw [Registers.get_of_not_lt _ h, if_neg h]

theorem setRegister_bind (i v : UInt8) (k : Unit → Effect σ α) : (setRegister i v >>= k) d =
    if i < 8 then k () { d with cpu.registers := d.cpu.registers.put i v }
    else .error (.registerOutOfRange i) d := by
  change EStateM.bind (setRegister i v) k d = _
  unfold EStateM.bind setRegister
  by_cases h : i < 8
  · rw [Registers.set_of_lt_eight _ _ h, if_pos h]
  · rw [Registers.set_of_not_lt _ _ h, if_neg h]

theorem cell_bind (a : UInt8) (k : UInt8 → Effect σ α) :
    (cell a >>= k) d = k (d.memory.cell a) d := by
  change EStateM.bind (cell a) k d = _
  unfold EStateM.bind cell
  rw [Memory.read_byte]

theorem setCell_bind (a v : UInt8) (k : Unit → Effect σ α) :
    (setCell a v >>= k) d = k () { d with memory := d.memory.store a v } := by
  change EStateM.bind (setCell a v) k d = _
  unfold EStateM.bind setCell
  rw [Memory.write_byte]

theorem stackPointer_bind (k : UInt8 → Effect σ α) :
    (stackPointer >>= k) d = k d.cpu.registers.sp d := rfl

theorem comparedEqual_bind (k : Bool → Effect σ α) :
    (comparedEqual >>= k) d = k d.cpu.flags.equal d := rfl

theorem compare_bind (a b : UInt8) (k : Unit → Effect σ α) :
    (compare a b >>= k) d = k () { d with cpu.flags := .compare a b } := rfl

theorem growStack_bind (k : UInt8 → Effect σ α) : (growStack >>= k) d =
    if d.cpu.registers.sp = 0 then .error (.addressOutOfRange (-1)) d
    else k (d.cpu.registers.sp - 1)
      { d with cpu.registers := d.cpu.registers.setSp (d.cpu.registers.sp - 1) } := by
  change EStateM.bind growStack k d = _
  unfold EStateM.bind growStack
  by_cases h : d.cpu.registers.sp = 0 <;> simp [h]

theorem shrinkStack_bind (k : Unit → Effect σ α) : (shrinkStack >>= k) d =
    if d.cpu.registers.sp = 255 then .error (.addressOutOfRange 256) d
    else k () { d with cpu.registers := d.cpu.registers.setSp (d.cpu.registers.sp + 1) } := by
  change EStateM.bind shrinkStack k d = _
  unfold EStateM.bind shrinkStack
  by_cases h : d.cpu.registers.sp = 255 <;> simp [h]

/-- No instruction can be fetched where its return address would not be that of a cell. -/
theorem returnAddress_bind (k : UInt8 → Effect σ α) (h : d.cpu.pc < 254) :
    (returnAddress >>= k) d = k (d.cpu.pc + 2).toUInt8 d := by
  have hp : d.cpu.pc.toNat < 254 := UInt64.lt_iff_toNat_lt.mp h
  have ha : (d.cpu.pc + 2).toNat < 256 := by
    rw [toNat_add_of_lt h (by decide)]
    exact Nat.add_lt_add_right hp 2
  change EStateM.bind returnAddress k d = _
  unfold EStateM.bind returnAddress
  simp only [ha, if_true]

theorem emit_bind [Sink σ] (v : UInt8) (k : Unit → Effect σ α) : (emit v >>= k) d =
    match Sink.emitAll [v] d.sink with
    | .ok _ s => k () { d with sink := s }
    | .error cause s => .error (.output cause) { d with sink := s } := by
  obtain ⟨cpu, memory, sink⟩ := d
  change EStateM.bind (emit v) k _ = _
  unfold EStateM.bind emit
  rw [Sink.emitAll_singleton]
  cases h : Sink.emit v sink <;> simp only [h]

theorem branch_eq (taken : Bool) (i : UInt8) : branch taken i d =
    if taken then
      if i < 8 then .ok (.jump (d.cpu.registers.value i)) d else .error (.registerOutOfRange i) d
    else .ok .skip d := by
  unfold branch
  cases taken with
  | false => rfl
  | true => exact register_bind d i _

end Effect

namespace Instruction

variable {σ : Type} [Sink σ]

/-- How the execution of an instruction ends. The sink is asked only once all checks have passed. -/
def outcome (i : Instruction) (d : Datapath σ) : EStateM.Result Error (Datapath σ) Advance :=
  match i.fault? d.cpu d.memory with
  | some e => .error e (i.left d)
  | none =>
    match Sink.emitAll (i.printed d.cpu) d.sink with
    | .ok _ s => .ok (i.advance d.cpu d.memory) { i.after d with sink := s }
    | .error cause s => .error (.output cause) { d with sink := s }

open Effect Registers in
/-- The cases are those of the instruction set. In each, the checks of the instruction that its
steps make in turn are the ones that `fault?` lists. -/
theorem execute_eq_outcome (i : Instruction) {d : Datapath σ} (h : d.cpu.pc < 254) :
    i.execute d = i.outcome d := by
  obtain ⟨op, a, b⟩ := i
  unfold execute outcome fault? left registersLeft memoryLeft
  cases op with
  | hlt => rfl
  | ret =>
    simp only [stackPointer_bind, cell_bind, shrinkStack_bind, bare?]
    split_ifs <;> rfl
  | push =>
    simp only [growStack_bind, register_bind, setCell_bind, full?, missing?]
    split_ifs <;> rfl
  | pop =>
    simp only [stackPointer_bind, cell_bind, setRegister_bind, shrinkStack_bind, bare?, missing?]
    split_ifs <;> rfl
  | prn =>
    simp only [register_bind, emit_bind, missing?]
    split_ifs <;> rfl
  | call =>
    simp only [returnAddress_bind d _ h, growStack_bind, register_bind, setCell_bind, full?,
      missing?]
    split_ifs <;> rfl
  | jmp =>
    simp only [register_bind, missing?]
    split_ifs <;> rfl
  | jeq =>
    simp only [comparedEqual_bind, branch_eq, advance, missing?]
    split_ifs <;> rfl
  | jne =>
    simp only [comparedEqual_bind, branch_eq, advance, missing?]
    cases d.cpu.flags.equal with
    | false =>
      simp only [Bool.not_false, Bool.false_eq_true, if_true, if_false]
      split_ifs <;> rfl
    | true => rfl
  | ldi =>
    simp only [setRegister_bind, missing?]
    split_ifs <;> rfl
  | add =>
    simp only [register_bind, setRegister_bind, missing?]
    split_ifs <;> rfl
  | mul =>
    simp only [register_bind, setRegister_bind, missing?]
    split_ifs <;> rfl
  | cmp =>
    simp only [register_bind, compare_bind, missing?]
    split_ifs <;> rfl

end Instruction

end LS8
