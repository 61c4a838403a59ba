import LS8.Text.Numeral

/-! What can go wrong in a machine, and how it is told. -/
namespace LS8

/-- The cause of a fault, or of a refused image. -/
inductive Error where
  /-- No cell has this address; it is signed because the stack may try to grow below zero. -/
  | addressOutOfRange (address : Int64)
  | registerOutOfRange (index : UInt8)
  | unknownOpcode (byte : UInt8)
  /-- An image of `size` bytes has more bytes than the memory has cells. -/
  | programTooLarge (size : Nat)
  /-- The sink refused a printed value. -/
  | output (cause : String)
  deriving DecidableEq

namespace Error

def message : Error → String
  | addressOutOfRange address => "address " ++ Text.signed address.toInt ++ " is out of range"
  | registerOutOfRange index => "register R" ++ Text.decimal index.toNat ++ " is out of range"
  | unknownOpcode byte => "unknown instruction 0b" ++ Text.binary 8 byte.toNat
  | programTooLarge size =>
    "program image of " ++ Text.decimal size ++ " bytes does not fit in memory"
  | output cause => "failed to write output: " ++ cause

/-- The message, then the error behind this one, if there is one. -/
def chain : Error → String
  | output cause => (output cause).message ++ ": " ++ cause
  | e => e.message

end Error

end LS8
