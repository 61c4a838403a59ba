import LS8.Command

/-! The program: the command with real files and streams. -/
namespace LS8.Command

/-- An error by its number, which some calls give with a minus sign. -/
def numbered (code : UInt32) (details : String) : ReadError :=
  match code.toInt32.toInt.natAbs with
  | 2 => .notFound
  | 20 => .notDirectory
  | 21 => .isDirectory
  | 36 => .nameTooLong
  | n => .system details.capitalize n

/-- The words and the number of the system for an error. -/
def systemError : IO.Error → ReadError
  | .noFileOrDirectory _ code details | .inappropriateType _ code details
  | .invalidArgument _ code details | .permissionDenied _ code details
  | .resourceExhausted _ code details | .alreadyExists _ code details
  | .noSuchThing _ code details | .interrupted _ code details
  | .otherError code details | .resourceBusy code details | .resourceVanished code details
  | .hardwareFault code details | .unsupportedOperation code details
  | .illegalOperation code details | .protocolError code details | .timeExpired code details
  | .unsatisfiedConstraints code details => numbered code details
  | .unexpectedEof => .system "Unexpected end of file" 0
  | .userError details => .system details 0

def readFile (path : String) : IO (Except ReadError ByteArray) := do
  try return .ok (← IO.FS.readBinFile path)
  catch e => return .error (systemError e)

/-- Writes a text, and returns the message of the error if that fails. -/
def put (stream : IO.FS.Stream) (text : String) : IO (Option String) := do
  if text = "" then return none
  try
    stream.putStr text
    stream.flush
    return none
  catch e => return some (systemError e).message

def tell (console : Console) : IO Unit := do
  for diagnostic in console.lines do
    discard <| put (← IO.getStderr) diagnostic.line

/-- Runs a session step by step. What a step prints is written at once; a step whose output is
refused is taken again with a sink that refuses it. -/
partial def work (s : Session LinePrinter Console) : IO UInt32 := do
  let tried := s.step
  let (t, result) ←
    match ← put (← IO.getStdout) tried.1.sink.writer.written with
    | none => pure tried
    | some refusal => pure ({ s with sink := ⟨.bounded 0 refusal⟩ } : Session _ _).step
  match result with
  | .ok .running =>
    tell t.observer
    work ⟨t.machine, ⟨.unbounded⟩, { t.observer with lines := #[] }⟩
  | _ =>
    match conclude t.observer (.ofResult result) with
    | some (exit, console) =>
      tell console
      return exit
    | none => return 0

end LS8.Command

open LS8 LS8.Command in
def main (arguments : List String) : IO UInt32 := do
  match request arguments with
  | .run o =>
    match prepare o (← readFile o.program) .unbounded with
    | .error console =>
      tell console
      return 1
    | .ok session =>
      tell session.observer
      work { session with observer.lines := #[] }
  | _ =>
    match report arguments Files.empty .unbounded with
    | some r =>
      discard <| put (← IO.getStdout) r.stdout
      discard <| put (← IO.getStderr) r.stderr
      return r.exit
    | none => return 0
