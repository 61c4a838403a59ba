/-! The condition flags: the outcome of the last comparison. -/
namespace LS8

/-- No flag is set until something has been compared. -/
structure Flags where
  equal : Bool
  greater : Bool
  less : Bool
  deriving DecidableEq

namespace Flags

def none : Flags := ⟨false, false, false⟩

/-- The outcome of comparing `a` with `b`: exactly one flag is set. -/
def compare (a b : UInt8) : Flags := ⟨a = b, b < a, a < b⟩

/-- The bit of each flag in the byte `00000LGE`. -/
def equalBit : UInt8 := 1

def greaterBit : UInt8 := 2

def lessBit : UInt8 := 4

def bits (f : Flags) : UInt8 :=
  (if f.equal then equalBit else 0) ||| (if f.greater then greaterBit else 0) |||
    (if f.less then lessBit else 0)

/-- The flags in a byte, whose other bits are dropped. -/
def ofBits (byte : UInt8) : Flags :=
  ⟨byte &&& equalBit ≠ 0, byte &&& greaterBit ≠ 0, byte &&& lessBit ≠ 0⟩

end Flags

end LS8
