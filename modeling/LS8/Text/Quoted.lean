import LS8.Text.Numeral

/-! Text between double quotes, written so that it stays on one line and shows what is in it. -/
namespace LS8.Text

/-- The control characters, ASCII and beyond. -/
def isControl (c : Char) : Bool := c.toNat < 0x20 || (0x7f ≤ c.toNat && c.toNat < 0xa0)

/-- A character that gets no visible place of its own is written as its code point. -/
def codePoint (c : Char) : List Char := ['\\', 'u', '\x7b'] ++ digits 16 1 c.toNat ++ ['\x7d']

/-- The written form of one character; `hidden` tells which characters have no visible form. -/
def escape (hidden : Char → Bool) (c : Char) : List Char :=
  if c = '\x00' then ['\\', '0']
  else if c = '\t' then ['\\', 't']
  else if c = '\r' then ['\\', 'r']
  else if c = '\n' then ['\\', 'n']
  else if c = '\\' ∨ c = '"' then ['\\', c]
  else if isControl c || hidden c then codePoint c
  else [c]

/-- A text in quotes. -/
def quoted (hidden : Char → Bool) (text : List Char) : List Char :=
  '"' :: text.flatMap (escape hidden) ++ ['"']

end LS8.Text
