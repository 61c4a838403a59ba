import LS8.Command.Arguments
import LS8.Text.Similarity
import LS8.Text.Terminal

/-! What the command says about itself, and about arguments that it does not accept. -/
namespace LS8.Command

def versionText : String := "ls8 0.1.0\n"

def helpText : String :=
  "Runs a program on the LS-8 virtual machine\n" ++
  "\n" ++
  "Usage: ls8 [OPTIONS] <PROGRAM>\n" ++
  "\n" ++
  "Arguments:\n" ++
  "  <PROGRAM>  Path to the program image (one binary byte per line, `#` starts a comment)\n" ++
  "\n" ++
  "Options:\n" ++
  "      --trace       Print the machine state before every instruction (to stderr)\n" ++
  "  -v, --verbose...  Increase log verbosity (-v info, -vv debug, -vvv trace)\n" ++
  "  -h, --help        Print help\n" ++
  "  -V, --version     Print version\n"

def anyUsage : String := "Usage: ls8 [OPTIONS] <PROGRAM>"

def usage (flags : List Flag) (program : String) : String :=
  " ".intercalate ("Usage: ls8" :: flags.map Flag.shown ++ [program])

def programWord : String := "<PROGRAM>"

/-- The program or one of the flags that go with it. -/
def choiceWord : String :=
  "<" ++ "|".intercalate ("PROGRAM" :: [Flag.trace, Flag.verbose].map Flag.shown) ++ ">"

/-- A word of the arguments as messages show it. -/
def word (text : String) : String := "'" ++ String.ofList (Text.plain text.toList) ++ "'"

def unexpected (argument : String) : String :=
  "error: unexpected argument " ++ word argument ++ " found"

/-- How to give an argument that looks like a flag. -/
def literalTip (argument : String) : String :=
  "  tip: to pass " ++ word argument ++ " as a value, use " ++ word ("-- " ++ argument)

/-- A name is taken for a misspelling of another one if they are more alike than this. -/
def misspelled : Float := 0.7

/-- Which flag is most likely meant by a name. Of flags equally alike it is the last. -/
def Flag.similar? (name : String) : Option Flag :=
  let likeness (f : Flag) := Text.similarity name.toList f.long.toList
  (all.filter (likeness · > misspelled)).foldl
    (fun best f => if best.any (likeness · > likeness f) then best else some f) none

namespace UsageError

def complaint : UsageError → List String
  | missingProgram _ =>
    ["error: the following required arguments were not provided:", "  " ++ programWord]
  | emptyProgram => ["error: a value is required for '" ++ programWord ++ "' but none was supplied"]
  | extraArgument argument => [unexpected argument]
  | unknownLetter letter => [unexpected ("-" ++ letter.toString)]
  | unknownName name .. => [unexpected ("--" ++ name)]
  | repeated flag => ["error: the argument '" ++ flag.shown ++ "' cannot be used multiple times"]
  | unexpectedValue flag value _ =>
    ["error: unexpected value " ++ word value ++ " for '" ++ flag.shown ++
      "' found; no more were expected"]

def tip : UsageError → List String
  | unknownLetter letter => [literalTip ("-" ++ letter.toString)]
  | unknownName name .. =>
    match Flag.similar? name with
    | some f => ["  tip: a similar argument exists: '--" ++ f.long ++ "'"]
    | none => [literalTip ("--" ++ name)]
  | _ => []

/-- The usage, with the flags that were given or meant where they can stay. -/
def usageLine : UsageError → List String
  | emptyProgram => []
  | extraArgument _ | unknownLetter _ | repeated _ => [anyUsage]
  | missingProgram given => [usage given programWord]
  | unknownName name given programGiven =>
    match Flag.similar? name with
    | some f => [usage (if f ∈ given then given else given ++ [f]) programWord]
    | none => [if given = [] ∧ !programGiven then anyUsage else usage given programWord]
  | unexpectedValue flag _ [] => [usage [flag] programWord]
  | unexpectedValue flag _ _ =>
    [usage (if flag = .help ∨ flag = .version then [flag] else []) choiceWord]

/-- The text of the message. Its parts that are not empty are set apart by empty lines. -/
def message (e : UsageError) : String :=
  let parts := [e.complaint, e.tip, e.usageLine, ["For more information, try '--help'."]]
  String.join (([""].intercalate (parts.filter (· ≠ []))).map (· ++ "\n"))

end UsageError

end LS8.Command
