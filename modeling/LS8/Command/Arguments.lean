/-! The command line: what the arguments ask for. -/
namespace LS8.Command

inductive Flag where
  | trace | verbose | help | version
  deriving DecidableEq

namespace Flag

def all : List Flag := [trace, verbose, help, version]

def long : Flag → String
  | trace => "trace"
  | verbose => "verbose"
  | help => "help"
  | version => "version"

def ofLong? (name : String) : Option Flag := all.find? (·.long = name)

def ofShort? : Char → Option Flag
  | 'v' => some verbose
  | 'h' => some help
  | 'V' => some version
  | _ => none

/-- The flag as messages show it; dots mark one that counts. -/
def shown (f : Flag) : String := "--" ++ f.long ++ if f = verbose then "..." else ""

end Flag

structure Options where
  program : String
  trace : Bool
  verbosity : Nat
  deriving DecidableEq

inductive UsageError where
  | missingProgram (given : List Flag)
  | emptyProgram
  /-- A second argument that is no flag. -/
  | extraArgument (argument : String)
  | unknownLetter (letter : Char)
  /-- A name after two dashes that no flag has. -/
  | unknownName (name : String) (given : List Flag) (programGiven : Bool)
  | repeated (flag : Flag)
  /-- A value for a flag that takes none. -/
  | unexpectedValue (flag : Flag) (value : String) (given : List Flag)
  deriving DecidableEq

inductive Request where
  | run (options : Options)
  | help
  | version
  | refuse (error : UsageError)
  deriving DecidableEq

/-- What the arguments read so far have said. -/
structure Scan where
  program : Option String
  /-- The flags in the order in which they came, each once, where it came last. -/
  given : List Flag
  verbosity : Nat
  /-- After `--` no argument is a flag. -/
  literal : Bool

namespace Scan

def start : Scan := ⟨none, [], 0, false⟩

/-- Reads a flag. An empty program name is refused first; help and version are answered at once. -/
def flag (s : Scan) (f : Flag) : Except Request Scan :=
  if s.program = some "" then .error (.refuse .emptyProgram)
  else match f with
    | .help => .error .help
    | .version => .error .version
    | .trace =>
      if .trace ∈ s.given then .error (.refuse (.repeated .trace))
      else .ok { s with given := s.given ++ [.trace] }
    | .verbose =>
      .ok { s with given := s.given.erase .verbose ++ [.verbose], verbosity := s.verbosity + 1 }

/-- Reads one letter of an argument such as `-vv`. -/
def letter (s : Scan) (c : Char) : Except Request Scan :=
  match Flag.ofShort? c with
  | some f => s.flag f
  | none => .error (.refuse (.unknownLetter c))

/-- Reads an argument such as `--trace`, with or without a value after an equals sign. -/
def long (s : Scan) (text : List Char) : Except Request Scan :=
  let name := String.ofList (text.takeWhile (· ≠ '='))
  match Flag.ofLong? name, text.dropWhile (· ≠ '=') with
  | none, _ => .error (.refuse (.unknownName name s.given s.program.isSome))
  | some f, [] => s.flag f
  | some f, _ :: value => .error (.refuse (.unexpectedValue f (String.ofList value) s.given))

def positional (s : Scan) (text : String) : Except Request Scan :=
  match s.program with
  | none => .ok { s with program := some text }
  | some _ => .error (.refuse (.extraArgument text))

def argument (s : Scan) (text : String) : Except Request Scan :=
  if s.literal then s.positional text
  else match text.toList with
    | ['-', '-'] => .ok { s with literal := true }
    | '-' :: '-' :: name => s.long name
    | '-' :: c :: letters => (c :: letters).foldlM letter s
    | _ => s.positional text

def finish (s : Scan) : Request :=
  match s.program with
  | none => .refuse (.missingProgram s.given)
  | some "" => .refuse .emptyProgram
  | some program => .run ⟨program, .trace ∈ s.given, s.verbosity⟩

end Scan

/-- The request that the arguments make; the first thing to answer wins. -/
def request (arguments : List String) : Request :=
  match arguments.foldlM Scan.argument .start with
  | .ok s => s.finish
  | .error r => r

end LS8.Command
