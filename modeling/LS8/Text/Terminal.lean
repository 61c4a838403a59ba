/-! Text without the control sequences that a terminal would act on. -/
namespace LS8.Text

/-- Where a reader of terminal text stands. -/
inductive Mode where
  /-- In the text itself. -/
  | ground
  /-- After an escape character. -/
  | escape
  /-- In an escape sequence that goes on. -/
  | intermediate
  /-- In a control sequence, such as one that sets a color. -/
  | control
  /-- At the start of a device control string, in its parameters, or behind them. -/
  | device | deviceParameter | deviceIntermediate
  /-- In a command to the operating system, such as one that sets a title. -/
  | system
  /-- In any other string that is not for the screen. -/
  | string
  deriving DecidableEq

namespace Mode

/-- The control characters that move the place where text is written. -/
def isLayout (c : Char) : Bool := c = '\t' || c = '\n' || c = '\x0c' || c = '\r'

/-- Whether a character is kept. -/
def keeps (mode : Mode) (c : Char) : Bool :=
  match mode with
  | ground => (0x20 ≤ c.toNat && c.toNat ≠ 0x7f) || isLayout c
  | escape | intermediate | control => isLayout c
  | _ => false

/-- The mode after a character of ASCII. Cancel and substitute end a sequence of any kind, and
escape starts one. -/
def afterAscii (mode : Mode) (c : Char) : Mode :=
  let n := c.toNat
  if n = 0x18 ∨ n = 0x1a then ground
  else if n = 0x1b then escape
  else if n < 0x20 ∨ n = 0x7f then
    if mode = system ∧ n = 0x07 then ground else mode
  else match mode with
    | ground | system | string => mode
    | escape =>
      if n < 0x30 then intermediate
      else match c with
        | 'P' => device
        | '[' => control
        | ']' => system
        | 'X' | '^' | '_' => string
        | _ => ground
    | intermediate => if n < 0x30 then intermediate else ground
    | control => if n < 0x40 then control else ground
    | device =>
      if n < 0x30 then deviceIntermediate else if n < 0x40 then deviceParameter else string
    | deviceParameter =>
      if n < 0x30 then deviceIntermediate else if n < 0x3c then deviceParameter else string
    | deviceIntermediate => if n < 0x30 then deviceIntermediate else string

/-- The byte that ends a string as a control of eight bits. -/
def stringTerminator : UInt8 := 0x9c

/-- The mode after a character. Beyond ASCII only a string notices it, by the bytes that encode
it. -/
def after (mode : Mode) (c : Char) : Mode :=
  if c.toNat < 0x80 then mode.afterAscii c
  else if mode = string ∧ stringTerminator ∈ String.utf8EncodeChar c then ground
  else mode

end Mode

/-- Reads on in `mode`. Behind a character that was kept (`writing`) the next is taken as text if
it can be, whatever the mode; one beyond ASCII then ends a sequence that was left open. -/
def plainFrom (mode : Mode) (writing : Bool) : List Char → List Char
  | [] => []
  | c :: rest =>
    if writing && Mode.ground.keeps c then
      c :: plainFrom (if c.toNat < 0x80 then mode else .ground) true rest
    else if mode.keeps c then c :: plainFrom (mode.after c) true rest
    else plainFrom (mode.after c) false rest

/-- The characters of a text that a terminal would write. -/
def plain (text : List Char) : List Char := plainFrom .ground false text

end LS8.Text
