import LS8.Machine
import LS8.Text.Outline

/-! Outlines of a machine and its parts, for people who look inside. -/
namespace LS8

open Text (Outline)

def Text.Outline.number (n : Nat) : Outline := .atom (decimal n)

/-- The mnemonic with only its first letter in upper case. -/
def Opcode.outline (op : Opcode) : Outline := .atom op.mnemonic.toLower.capitalize

def Instruction.outline (i : Instruction) : Outline :=
  .record "Instruction"
    [("op_code", i.opcode.outline), ("a", .number i.a.toNat), ("b", .number i.b.toNat)] false

/-- The names of the flags that are set, in the order of their bits. -/
def Flags.names (f : Flags) : List String :=
  (if f.equal then ["EQUAL"] else []) ++ (if f.greater then ["GREATER"] else []) ++
    (if f.less then ["LESS"] else [])

def Flags.outline (f : Flags) : Outline :=
  .call "Flags" (if f.names = [] then "0x0" else " | ".intercalate f.names)

def Registers.outline (r : Registers) : Outline :=
  .table (r.toList.zipIdx.map fun (value, i) => ("R" ++ Text.decimal i, .number value.toNat))

def Cpu.outline (c : Cpu) : Outline :=
  .record "Cpu" [("pc", .number c.pc.toNat), ("registers", c.registers.outline),
    ("flags", c.flags.outline)] false

/-- The cells themselves are left out. -/
def Memory.outline (m : Memory) : Outline :=
  .record "Memory" [("size", .number Memory.size), ("non_zero_cells", .number m.nonzeroCount)] true

def State.name : State → String
  | .running => "Running"
  | .halted => "Halted"
  | .faulted => "Faulted"

def Machine.outline (m : Machine) : Outline :=
  .record "Machine" [("cpu", m.cpu.outline), ("memory", m.memory.outline),
    ("state", .atom m.state.name)] false

end LS8
