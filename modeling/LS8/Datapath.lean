import LS8.Cpu
import LS8.Instruction
import LS8.Memory
import LS8.Sink

/-! The execution of one instruction, apart from the move of the program counter. -/
namespace LS8

/-- What an instruction can change. -/
structure Datapath (σ : Type) where
  cpu : Cpu
  memory : Memory
  sink : σ

/-- Where the program counter goes after an instruction. -/
inductive Advance where
  | next
  /-- Past a conditional jump that is not taken. -/
  | skip
  | jump (target : UInt8)
  /-- Nowhere: the machine stops. -/
  | halt
  deriving DecidableEq

/-- An effect on the datapath. What it did before an error stays done. -/
abbrev Effect (σ : Type) := EStateM Error (Datapath σ)

namespace Effect

variable {σ : Type}

def register (index : UInt8) : Effect σ UInt8 := fun d =>
  match d.cpu.registers.get index with
  | .ok value => .ok value d
  | .error e => .error e d

def setRegister (index value : UInt8) : Effect σ Unit := fun d =>
  match d.cpu.registers.set index value with
  | .ok registers => .ok () { d with cpu.registers := registers }
  | .error e => .error e d

def cell (address : UInt8) : Effect σ UInt8 := fun d =>
  match d.memory.read address.toUInt64 with
  | .ok value => .ok value d
  | .error e => .error e d

def setCell (address value : UInt8) : Effect σ Unit := fun d =>
  match d.memory.write address.toUInt64 value with
  | .ok memory => .ok () { d with memory }
  | .error e => .error e d

def emit [Sink σ] (value : UInt8) : Effect σ Unit := fun ⟨cpu, memory, sink⟩ =>
  match Sink.emit value sink with
  | .ok () sink => .ok () ⟨cpu, memory, sink⟩
  | .error cause sink => .error (.output cause) ⟨cpu, memory, sink⟩

def stackPointer : Effect σ UInt8 := fun d => .ok d.cpu.registers.sp d

/-- Moves the stack pointer down by one cell, not below address 0, and returns it. -/
def growStack : Effect σ UInt8 := fun d =>
  let sp := d.cpu.registers.sp
  if sp = 0 then .error (.addressOutOfRange (-1)) d
  else .ok (sp - 1) { d with cpu.registers := d.cpu.registers.setSp (sp - 1) }

/-- Moves the stack pointer up by one cell, not above address 255. -/
def shrinkStack : Effect σ Unit := fun d =>
  let sp := d.cpu.registers.sp
  if sp = 255 then .error (.addressOutOfRange 256) d
  else .ok () { d with cpu.registers := d.cpu.registers.setSp (sp + 1) }

/-- The address of the instruction after a call, which has to be that of a cell. -/
def returnAddress : Effect σ UInt8 := fun d =>
  let address := d.cpu.pc + 2
  if address.toNat < 256 then .ok address.toUInt8 d
  else .error (.addressOutOfRange address.toInt64) d

def comparedEqual : Effect σ Bool := fun d => .ok d.cpu.flags.equal d

def compare (a b : UInt8) : Effect σ Unit := fun d =>
  .ok () { d with cpu.flags := .compare a b }

/-- Jumps to the address in a register if `taken`. A jump not taken leaves its register unread. -/
def branch (taken : Bool) (index : UInt8) : Effect σ Advance := do
  if taken then return .jump (← register index) else return .skip

end Effect

open Effect in
/-- The stack pointer moves before `PUSH` and `CALL` read their register, and after `POP` and `RET`
have read the top of the stack. -/
def Instruction.execute {σ : Type} [Sink σ] (i : Instruction) : Effect σ Advance :=
  match i.opcode with
  | .hlt => return .halt
  | .ldi => do
    setRegister i.a i.b
    return .next
  | .add => do
    let x ← register i.a
    let y ← register i.b
    setRegister i.a (x + y)
    return .next
  | .mul => do
    let x ← register i.a
    let y ← register i.b
    setRegister i.a (x * y)
    return .next
  | .cmp => do
    let x ← register i.a
    let y ← register i.b
    compare x y
    return .next
  | .prn => do
    let value ← register i.a
    emit value
    return .next
  | .push => do
    let sp ← growStack
    let value ← register i.a
    setCell sp value
    return .next
  | .pop => do
    let sp ← stackPointer
    let value ← cell sp
    setRegister i.a value
    shrinkStack
    return .next
  | .call => do
    let address ← returnAddress
    let sp ← growStack
    setCell sp address
    let target ← register i.a
    return .jump target
  | .ret => do
    let sp ← stackPointer
    let target ← cell sp
    shrinkStack
    return .jump target
  | .jmp => do
    let target ← register i.a
    return .jump target
  | .jeq => do
    let equal ← comparedEqual
    branch equal i.a
  | .jne => do
    let equal ← comparedEqual
    branch (!equal) i.a

end LS8
