/-! A text that grows at its end, up to a bound. -/
namespace LS8

/-- It holds characters of ASCII only, so that a character is a byte. -/
structure Writer where
  written : String
  /-- How many characters still fit; any number if absent. -/
  room : Option Nat
  /-- What a write that does not fit is told. -/
  refusal : String

namespace Writer

def unbounded : Writer := ⟨"", none, ""⟩

def bounded (capacity : Nat) (refusal : String) : Writer := ⟨"", some capacity, refusal⟩

/-- Writes the characters that fit, and fails if these are not all. -/
def write (text : String) : EStateM String Writer Unit
  | ⟨written, none, refusal⟩ => .ok () ⟨written ++ text, none, refusal⟩
  | ⟨written, some room, refusal⟩ =>
    if text.length ≤ room then .ok () ⟨written ++ text, some (room - text.length), refusal⟩
    else
      let fitting := String.ofList (text.toList.take room)
      .error refusal ⟨written ++ fitting, some 0, refusal⟩

/-- Writes the characters that fit, and leaves it at that. -/
def offer (w : Writer) (text : String) : Writer :=
  match write text w with
  | .ok _ w' | .error _ w' => w'

end Writer

end LS8
