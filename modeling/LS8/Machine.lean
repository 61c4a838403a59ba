import LS8.Datapath
import LS8.Log

/-! The machine and its cycle of fetching, decoding and executing one instruction. -/
namespace LS8

inductive State where
  | running
  | halted
  | faulted
  deriving DecidableEq

structure Machine where
  cpu : Cpu
  memory : Memory
  state : State
  deriving DecidableEq

/-- What can be seen of a machine at work. -/
inductive Event where
  /-- Three bytes have been read and not yet decoded; `cpu` is as before the instruction. -/
  | fetched (cpu : Cpu) (bytes : Fetched)
  | logged (record : Log.Record)
  /-- An instruction has been executed; `cpu` is as after it. -/
  | executed (instruction : Instruction) (cpu : Cpu)
  deriving DecidableEq

/-- The outcome of one step: what it leaves, what could be seen in order of time, and its answer. -/
structure Step (σ : Type) where
  machine : Machine
  sink : σ
  events : List Event
  result : Except Error State

def branchNotTaken : UInt64 := 2

namespace Machine

variable {σ : Type}

/-- The state at power-on, with all memory zero. -/
def initial : Machine := ⟨.initial, .zero, .running⟩

def load (m : Machine) (image : List UInt8) : Except Error Machine :=
  match m.memory.load image with
  | .ok memory => .ok { m with memory }
  | .error e => .error e

def withProgram (image : List UInt8) : Except Error Machine := initial.load image

/-- Three cells are read whatever the instruction uses, so that none in the last two cells of memory
can be fetched. -/
def fetch (m : Machine) : Except Error Fetched := do
  let op ← m.memory.read m.cpu.pc
  let a ← m.memory.read (m.cpu.pc + 1)
  let b ← m.memory.read (m.cpu.pc + 2)
  return ⟨op, a, b⟩

/-- The machine after an instruction of `size` cells has been executed. -/
def advance (m : Machine) (size : Nat) : Advance → Machine
  | .next => { m with cpu.pc := m.cpu.pc + size.toUInt64 }
  | .skip => { m with cpu.pc := m.cpu.pc + branchNotTaken }
  | .jump target => { m with cpu.pc := target.toUInt64 }
  | .halt => { m with state := .halted }

/-- Ends a cycle that began at `pc` with a fault. -/
def fault (m : Machine) (pc : UInt64) (sink : σ) (events : List Event) (e : Error) : Step σ :=
  ⟨{ m with state := .faulted }, sink, events ++ [.logged (.fault pc e)], .error e⟩

def cycle [Sink σ] (m : Machine) (sink : σ) : Step σ :=
  let pc := m.cpu.pc
  match m.fetch with
  | .error e => m.fault pc sink [] e
  | .ok bytes =>
    let fetched := .fetched m.cpu bytes
    match Instruction.decode bytes with
    | .error e => m.fault pc sink [fetched] e
    | .ok i =>
      let decoded := .logged (.decoded pc i)
      match i.execute ⟨m.cpu, m.memory, sink⟩ with
      | .error e d =>
        { m with cpu := d.cpu, memory := d.memory }.fault pc d.sink [fetched, decoded] e
      | .ok target d =>
        let m' := { m with cpu := d.cpu, memory := d.memory }.advance i.opcode.size target
        let halted := if target = .halt then [.logged (.halted pc)] else []
        ⟨m', d.sink, [fetched, decoded] ++ halted ++ [.executed i m'.cpu], .ok m'.state⟩

/-- A machine that has stopped answers its state and does nothing. -/
def step [Sink σ] (m : Machine) (sink : σ) : Step σ :=
  if m.state = .running then m.cycle sink else ⟨m, sink, [], .ok m.state⟩

/-- Whether the next step will fetch an instruction. -/
def canFetch (m : Machine) : Bool := m.state = .running && m.fetch.isOk

theorem step_of_running [Sink σ] {m : Machine} (h : m.state = .running) (sink : σ) :
    m.step sink = m.cycle sink := by
  simp [step, h]

theorem step_of_stopped [Sink σ] {m : Machine} (h : m.state ≠ .running) (sink : σ) :
    m.step sink = ⟨m, sink, [], .ok m.state⟩ := by
  simp [step, h]

end Machine

end LS8
