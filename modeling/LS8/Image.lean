import LS8.Log
import LS8.Text.Blank
import LS8.Text.Lines

/-! Program images: texts with a byte in binary on each line. -/
namespace LS8.Image

/-- The bytes of an image, and what was noted while it was read. -/
structure Parsed where
  bytes : List UInt8
  records : List Log.Record
  deriving DecidableEq

/-- What a line holds besides its comment and the white space around. -/
def codeOf (line : List Char) : List Char := Text.trim (line.takeWhile (· ≠ '#'))

def unsign : List Char → List Char
  | '+' :: rest => rest
  | code => code

/-- The byte that binary digits denote, with a plus sign or without. -/
def byte? (code : List Char) : Option UInt8 :=
  match Text.binary? (unsign code) with
  | some n => if n < 256 then some n.toUInt8 else none
  | none => none

/-- The record of a line that is skipped although it holds code. -/
def skipped? (line : List Char) (number : Nat) : Option Log.Record :=
  let code := codeOf line
  if code = [] ∨ (byte? code).isSome then none else some (.skipped number (String.ofList code))

/-- Reads the lines in order and numbers them from 1. -/
def parseLines (lines : List (List Char)) : Parsed :=
  ⟨lines.filterMap fun line => byte? (codeOf line),
    (lines.zipIdx 1).filterMap fun (line, number) => skipped? line number⟩

def parse (text : String) : Parsed := parseLines (Text.lines text.toList)

end LS8.Image
