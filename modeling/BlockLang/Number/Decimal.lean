import BlockLang.Number.Binary64
import BlockLang.Number.Integer

/-! # Decimal — floating-point numbers from text

  A number is written with an optional sign, digits with at most one point
  among them (one digit at least, on either side of it), and an optional
  exponent.  The words for the infinities and for NaN are read as well, in
  any case.  The number read is the nearest one of the format. -/

namespace BlockLang

namespace Binary64

/-- Does `digits * 10 ^ exponent` lie beyond every finite number?  Told from
    the count of the digits, so that no huge power has to be computed. -/
def decimalOverflows (digits : Nat) (exponent : Int) : Bool :=
  310 < exponent + (Nat.toDigits 10 digits).length

/-- Does `digits * 10 ^ exponent` lie below half of every positive number? -/
def decimalVanishes (digits : Nat) (exponent : Int) : Bool :=
  exponent + (Nat.toDigits 10 digits).length < -330

/-- The number nearest to `digits * 10 ^ exponent`, with the given sign. -/
def ofDecimal (negative : Bool) (digits : Nat) (exponent : Int) : Binary64 :=
  if digits = 0 || decimalVanishes digits exponent then ofMagnitude negative 0
  else if decimalOverflows digits exponent then infinity negative
  else if 0 ≤ exponent then round negative (digits * Nat.pow 10 exponent.toNat) 1
  else round negative digits (Nat.pow 10 (-exponent).toNat)

end Binary64

/-- The power of ten that an exponent part stands for; nothing at all stands
    for the power zero. -/
def readExponent? : List Char → Option Int
  | [] => some 0
  | e :: text =>
      if e = 'e' || e = 'E' then
        let (negative, digits) := takeSign text
        (readNat? digits).map fun n => if negative then -n else n
      else none

/-- An unsigned decimal number, as digits and a power of ten. -/
def readDecimal? (text : List Char) : Option (Nat × Int) :=
  let whole := text.takeWhile Char.isDigit
  let afterWhole := text.dropWhile Char.isDigit
  let (fraction, scale) := match afterWhole with
    | '.' :: rest => (rest.takeWhile Char.isDigit, rest.dropWhile Char.isDigit)
    | rest => ([], rest)
  if whole.isEmpty && fraction.isEmpty then none
  else (readExponent? scale).map fun exponent =>
    (digitsValue 0 (whole ++ fraction), exponent - fraction.length)

/-- The words that stand for numbers without digits. -/
def readNumberWord? (negative : Bool) (text : List Char) : Option Binary64 :=
  let word := String.ofList (text.map Char.toLower)
  if word = "inf" || word = "infinity" then some (.infinity negative)
  else if word = "nan" then some (.nan negative)
  else none

/-- A floating-point number in decimal. -/
def readBinary64? (text : String) : Option Binary64 :=
  let (negative, unsigned) := takeSign text.toList
  match readDecimal? unsigned with
  | some (digits, exponent) => some (.ofDecimal negative digits exponent)
  | none => readNumberWord? negative unsigned

end BlockLang
