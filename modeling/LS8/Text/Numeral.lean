/-! Numbers written as text in a positional base. -/
namespace LS8.Text

/-- The digits of `n` in `base`, with leading zeros up to `width` digits. -/
def digits (base width n : Nat) : List Char := (Nat.toDigits base n).leftpad width '0'

def decimal (n : Nat) : String := String.ofList (digits 10 1 n)

/-- Decimal text with a minus sign before a negative number. -/
def signed : Int → String
  | .ofNat n => decimal n
  | .negSucc n => "-" ++ decimal (n + 1)

def binary (width n : Nat) : String := String.ofList (digits 2 width n)

/-- At least `width` hexadecimal digits, letters in lower case. -/
def hex (width n : Nat) : String := String.ofList (digits 16 width n)

/-- At least `width` hexadecimal digits, letters in upper case. -/
def upperHex (width n : Nat) : String := String.ofList ((digits 16 width n).map Char.toUpper)

/-- The number that binary digits denote, if there is at least one and all are `0` or `1`. -/
def binary? (text : List Char) : Option Nat :=
  if text ≠ [] ∧ text.all (fun c => c = '0' ∨ c = '1') then some (Nat.ofDigitChars 2 text 0)
  else none

theorem length_digits {base n : Nat} (width : Nat) :
    (digits base width n).length = max width (Nat.toDigits base n).length := List.length_leftpad

end LS8.Text
