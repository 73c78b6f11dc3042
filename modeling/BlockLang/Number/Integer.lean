/-! # Integer — whole numbers from text

  Digits are the ten ASCII ones.  `readNat?` reads a run of them and
  `readInt64?` a signed number that must fit in 64 bits. -/

namespace BlockLang

/-- The value of a run of decimal digits, put behind the digits of `n`. -/
def digitsValue (n : Nat) (digits : List Char) : Nat :=
  digits.foldl (fun n c => 10 * n + (c.toNat - '0'.toNat)) n

/-- A natural number in decimal: one digit or more and nothing else.
    Leading zeros are allowed in any number. -/
def readNat? (text : List Char) : Option Nat :=
  if !text.isEmpty && text.all Char.isDigit then some (digitsValue 0 text) else none

/-- Takes one sign, `+` or `-`, off the front of a text; the flag tells
    whether it was a `-`. -/
def takeSign : List Char → Bool × List Char
  | '-' :: text => (true, text)
  | '+' :: text => (false, text)
  | text => (false, text)

/-- A signed 64-bit number in decimal: at most one sign, then digits.  A
    number outside the range is refused. -/
def readInt64? (text : String) : Option Int64 :=
  let (negative, digits) := takeSign text.toList
  match readNat? digits with
  | none => none
  | some n =>
      let value : Int := if negative then -n else n
      if Int64.minValue.toInt ≤ value ∧ value ≤ Int64.maxValue.toInt then
        some (Int64.ofInt value)
      else none

end BlockLang
