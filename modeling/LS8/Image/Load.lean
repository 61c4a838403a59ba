import LS8.Files
import LS8.Image

/-! Loading: from the content of a file to the bytes of an image. -/
namespace LS8.Image

structure LoadError where
  path : String
  cause : ReadError
  deriving DecidableEq

namespace LoadError

def message (e : LoadError) : String := "couldn't find file " ++ e.path

def chain (e : LoadError) : String := e.message ++ ": " ++ e.cause.message

end LoadError

/-- The text that bytes in UTF-8 encode. -/
def decodeText (bytes : ByteArray) : Except ReadError String :=
  match String.fromUTF8? bytes with
  | some text => .ok text
  | none => .error .notText

/-- Parses what was read from `path`, and notes how many bytes it holds. -/
def load (path : String) (content : Except ReadError ByteArray) : Except LoadError Parsed :=
  match content.bind decodeText with
  | .ok text =>
    let p := parse text
    .ok ⟨p.bytes, p.records ++ [.loaded p.bytes.length path]⟩
  | .error cause => .error ⟨path, cause⟩

end LS8.Image
