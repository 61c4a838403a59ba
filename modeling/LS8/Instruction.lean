import LS8.Opcode

/-! Instructions: an opcode and the two bytes after it. -/
namespace LS8

/-- The three bytes at the program counter. All are read, whether the opcode uses them or not. -/
structure Fetched where
  op : UInt8
  a : UInt8
  b : UInt8
  deriving DecidableEq

/-- The operands name registers, or the second one is a value to load. -/
structure Instruction where
  opcode : Opcode
  a : UInt8
  b : UInt8
  deriving DecidableEq

namespace Instruction

def decode (bytes : Fetched) : Except Error Instruction :=
  match Opcode.decode bytes.op with
  | .ok op => .ok ⟨op, bytes.a, bytes.b⟩
  | .error e => .error e

/-- The opcode's byte and the operands that it uses. -/
def encode (i : Instruction) : List UInt8 := i.opcode.byte :: [i.a, i.b].take i.opcode.operandCount

/-- The mnemonic and the operands that it uses, in decimal. -/
def text (i : Instruction) : String :=
  match i.opcode.operandCount with
  | 0 => i.opcode.mnemonic
  | 1 => i.opcode.mnemonic ++ " " ++ Text.decimal i.a.toNat
  | _ => i.opcode.mnemonic ++ " " ++ Text.decimal i.a.toNat ++ ", " ++ Text.decimal i.b.toNat

@[simp] theorem decode_byte (op : Opcode) (a b : UInt8) :
    decode ⟨op.byte, a, b⟩ = .ok ⟨op, a, b⟩ := by
  simp [decode]

@[simp] theorem length_encode (i : Instruction) : i.encode.length = i.opcode.size := by
  obtain ⟨op, a, b⟩ := i
  cases op <;> rfl

end Instruction

end LS8
