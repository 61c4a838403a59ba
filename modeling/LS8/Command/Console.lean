import LS8.Image.Load
import LS8.Trace.Hexadecimal

/-! The console: what the command tells on standard error while it works. -/
namespace LS8.Command

inductive Diagnostic where
  | record (record : Log.Record)
  | trace (cpu : Cpu) (bytes : Fetched)
  /-- The error that the command ends with. -/
  | failure (text : String)
  deriving DecidableEq

namespace Diagnostic

/-- The level of a record in five columns, the part that it comes from, and its message. -/
def text : Diagnostic → String
  | record r =>
    r.level.name.pushn ' ' (5 - r.level.name.length) ++ " [" ++ r.target ++ "] " ++ r.message
  | trace cpu bytes => Trace.line cpu bytes
  | failure text => text

/-- The text with the newline that ends it. What a text quotes may hold newlines too. -/
def line (d : Diagnostic) : String := d.text ++ "\n"

end Diagnostic

structure Console where
  /-- Records above this level are dropped. -/
  level : Log.Level
  traced : Bool
  lines : Array Diagnostic

namespace Console

def log (c : Console) (r : Log.Record) : Console :=
  if c.level.shows r.level then { c with lines := c.lines.push (.record r) } else c

def follow (c : Console) (cpu : Cpu) (bytes : Fetched) : Console :=
  if c.traced then { c with lines := c.lines.push (.trace cpu bytes) } else c

def fail (c : Console) (text : String) : Console := { c with lines := c.lines.push (.failure text) }

instance : Observer Console where
  observe event c :=
    match event with
    | .fetched cpu bytes => c.follow cpu bytes
    | .logged record => c.log record
    | .executed _ _ => c

end Console

end LS8.Command
