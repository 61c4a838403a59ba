import LS8.Command.Console
import LS8.Command.Usage

/-! The command: it runs the program in a file, prints what the program prints, and reports. -/
namespace LS8.Command

/-- Each `-v` shows one level more. -/
def Options.level (o : Options) : Log.Level :=
  match o.verbosity with
  | 0 => .warn
  | 1 => .info
  | 2 => .debug
  | _ => .trace

def Options.console (o : Options) : Console := ⟨o.level, o.trace, #[]⟩

/-- Sets a machine up with what was read from the file, or tells on the console why not. -/
def prepare (o : Options) (content : Except ReadError ByteArray) (out : Writer) :
    Except Console (Session LinePrinter Console) :=
  match Image.load o.program content with
  | .error e => .error (o.console.fail e.chain)
  | .ok image =>
    let console := image.records.foldl Console.log o.console
    match Machine.withProgram image.bytes with
    | .error e => .error (console.fail e.chain)
    | .ok machine => .ok ⟨machine, ⟨out⟩, console⟩

/-- The exit code for the outcome of a run, and the console once the outcome is told. -/
def conclude (c : Console) : Outcome → Option (UInt32 × Console)
  | .stopped _ => some (0, c)
  | .fault e => some (1, c.fail e.chain)
  | .abandoned => none

/-- How many processors and memories there are. A run of more cycles than this meets one of them
twice, and never ends. -/
def configurations : Nat := Nat.pow 2 (64 + 8 * 8 + 3 + 256 * 8)

/-- What is left of a program that has been run, or could not be. -/
structure Ending where
  exit : UInt32
  printed : String
  told : List Diagnostic
  deriving DecidableEq

/-- Runs the program in the file; there is no ending if it never stops. -/
def runProgram (o : Options) (content : Except ReadError ByteArray) (out : Writer) :
    Option Ending :=
  match prepare o content out with
  | .error console => some ⟨1, "", console.lines.toList⟩
  | .ok session =>
    let (s, outcome) := session.run configurations
    (conclude s.observer outcome).map fun (exit, console) =>
      ⟨exit, s.sink.writer.written, console.lines.toList⟩

structure Report where
  exit : UInt32
  stdout : String
  stderr : String
  deriving DecidableEq

def Ending.report (e : Ending) : Report :=
  ⟨e.exit, e.printed, String.join (e.told.map Diagnostic.line)⟩

/-- The report of the command for these arguments, with a way to read files and its standard
output. -/
def report (arguments : List String) (read : Reader) (out : Writer) : Option Report :=
  match request arguments with
  | .help => some ⟨0, (out.offer helpText).written, ""⟩
  | .version => some ⟨0, (out.offer versionText).written, ""⟩
  | .refuse e => some ⟨2, "", e.message⟩
  | .run o => (runProgram o (read o.program) out).map Ending.report

end LS8.Command
