import LS8.Trace
import LS8.Writer

/-! The hexadecimal trace: a line for every instruction fetched. -/
namespace LS8.Trace

/-- Program counter, fetched bytes and registers, as in
`TRACE: 00 | 82 00 08 | 00 00 00 00 00 00 00 F4`. -/
def line (cpu : Cpu) (bytes : Fetched) : String :=
  "TRACE: " ++ Text.upperHex 2 cpu.pc.toNat ++ " | " ++ Text.upperHex 2 bytes.op.toNat ++ " " ++
    Text.upperHex 2 bytes.a.toNat ++ " " ++ Text.upperHex 2 bytes.b.toNat ++ " |" ++
    String.join (cpu.registers.toList.map fun r => " " ++ Text.upperHex 2 r.toNat)

/-- Writes its lines as far as they fit. A line that does not is noted in the log. -/
structure Hexadecimal where
  writer : Writer

namespace Hexadecimal

def write (cpu : Cpu) (bytes : Fetched) (t : Hexadecimal) : Hexadecimal × List Log.Record :=
  match Writer.write (line cpu bytes ++ "\n") t.writer with
  | .ok () w => (⟨w⟩, [])
  | .error cause w => (⟨w⟩, [.traceLost cause])

instance : Trace Hexadecimal where
  fetched := write
  executed _ _ t := (t, [])

end Hexadecimal

end LS8.Trace
