import LS8.Instruction
import LS8.Text.Hidden
import LS8.Text.Quoted

/-! Log records: what is worth noting while an image is read and a program runs. -/
namespace LS8.Log

/-- How urgent a record is, the most urgent first. -/
inductive Level where
  | error | warn | info | debug | trace
  deriving DecidableEq

namespace Level

def rank : Level → Nat
  | error => 0
  | warn => 1
  | info => 2
  | debug => 3
  | trace => 4

def name : Level → String
  | error => "ERROR"
  | warn => "WARN"
  | info => "INFO"
  | debug => "DEBUG"
  | trace => "TRACE"

/-- Whether a log kept at level `threshold` holds records of level `l`. -/
def shows (threshold l : Level) : Bool := l.rank ≤ threshold.rank

end Level

inductive Record where
  /-- The instruction at `pc` is about to execute. -/
  | decoded (pc : UInt64) (instruction : Instruction)
  | halted (pc : UInt64)
  | fault (pc : UInt64) (error : Error)
  /-- A line of the trace could not be written. -/
  | traceLost (cause : String)
  /-- A line of an image holds something else than a byte. -/
  | skipped (line : Nat) (code : String)
  | loaded (size : Nat) (path : String)
  deriving DecidableEq

def address (pc : UInt64) : String := "0x" ++ Text.hex 2 pc.toNat

/-- How a line that was skipped is told. The code is quoted, whatever it holds; `hidden` is as in
`Text.quoted`. -/
def skipping (hidden : Char → Bool) (line : Nat) (code : String) : String :=
  "skipping line " ++ Text.decimal line ++ ": " ++
    String.ofList (Text.quoted hidden code.toList)

namespace Record

def level : Record → Level
  | decoded .. => .trace
  | halted .. => .debug
  | fault .. => .error
  | traceLost .. => .warn
  | skipped .. => .debug
  | loaded .. => .info

/-- The part of the program that a record comes from. -/
def target : Record → String
  | decoded .. | halted .. | fault .. => "ls8_vm"
  | traceLost .. => "ls8::trace"
  | skipped .. | loaded .. => "ls8::image"

def message : Record → String
  | decoded pc i => address pc ++ ": " ++ i.text
  | halted pc => "halted at " ++ address pc
  | fault pc e => "fault at " ++ address pc ++ ": " ++ e.message
  | traceLost cause => "failed to write trace: " ++ cause
  | skipped line code => skipping Text.isHidden line code
  | loaded size path => "loaded " ++ Text.decimal size ++ " bytes from " ++ path

def text (r : Record) : String := r.level.name ++ " " ++ r.message

end Record

end LS8.Log
