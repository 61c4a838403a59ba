import LS8.Error

/-! The operation codes and the bytes that encode them. -/
namespace LS8

inductive Opcode where
  | hlt
  /-- Jumps to the address on top of the stack and takes it off. -/
  | ret
  /-- Puts a register on the stack. -/
  | push
  /-- Takes the top of the stack into a register. -/
  | pop
  | prn
  /-- Puts the address of the next instruction on the stack and jumps to the one in a register. -/
  | call
  | jmp
  /-- Jumps if the last comparison found its operands equal. -/
  | jeq
  /-- Jumps if it did not. -/
  | jne
  /-- Sets a register to the second operand. -/
  | ldi
  /-- Adds the second register to the first, modulo 256. -/
  | add
  /-- Multiplies the first register by the second, modulo 256. -/
  | mul
  | cmp
  deriving DecidableEq

namespace Opcode

def byte : Opcode → UInt8
  | hlt => 0b00000001
  | ret => 0b00010001
  | push => 0b01000101
  | pop => 0b01000110
  | prn => 0b01000111
  | call => 0b01010000
  | jmp => 0b01010100
  | jeq => 0b01010101
  | jne => 0b01010110
  | ldi => 0b10000010
  | add => 0b10100000
  | mul => 0b10100010
  | cmp => 0b10100111

def all : List Opcode := [hlt, ret, push, pop, prn, call, jmp, jeq, jne, ldi, add, mul, cmp]

def ofByte? (b : UInt8) : Option Opcode := all.find? (·.byte = b)

def decode (b : UInt8) : Except Error Opcode :=
  match ofByte? b with
  | some op => .ok op
  | none => .error (.unknownOpcode b)

def operandCount : Opcode → Nat
  | hlt | ret => 0
  | push | pop | prn | call | jmp | jeq | jne => 1
  | ldi | add | mul | cmp => 2

/-- The number of cells that an instruction takes. -/
def size (op : Opcode) : Nat := 1 + op.operandCount

def mnemonic : Opcode → String
  | hlt => "HLT"
  | ret => "RET"
  | push => "PUSH"
  | pop => "POP"
  | prn => "PRN"
  | call => "CALL"
  | jmp => "JMP"
  | jeq => "JEQ"
  | jne => "JNE"
  | ldi => "LDI"
  | add => "ADD"
  | mul => "MUL"
  | cmp => "CMP"

@[simp] theorem ofByte?_byte (op : Opcode) : ofByte? op.byte = some op := by
  cases op <;> rfl

theorem ofByte?_eq_some_iff {b : UInt8} {op : Opcode} : ofByte? b = some op ↔ op.byte = b := by
  constructor
  · intro h
    simpa using List.find?_some h
  · rintro rfl
    exact ofByte?_byte op

@[simp] theorem decode_byte (op : Opcode) : decode op.byte = .ok op := by
  simp [decode]

end Opcode

end LS8
