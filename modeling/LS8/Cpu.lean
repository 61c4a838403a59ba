import LS8.Flags
import LS8.Registers

/-! The processor: program counter, registers and flags. -/
namespace LS8

structure Cpu where
  /-- The address of the next instruction. It is wider than an address, since an instruction at the
  end of memory may advance it past the last cell, where the next fetch fails. -/
  pc : UInt64
  registers : Registers
  flags : Flags
  deriving DecidableEq

namespace Cpu

/-- Where the stack pointer starts. The stack grows down from here. -/
def stackBase : UInt8 := 0xf4

def initial : Cpu := ⟨0, Registers.zero.setSp stackBase, .none⟩

end Cpu

end LS8
