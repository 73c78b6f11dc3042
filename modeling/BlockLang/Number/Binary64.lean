/-! # Binary64 — floating-point numbers as their bits

  The 64-bit binary format: a sign bit, eleven exponent bits and 52 fraction
  bits.  A finite number is `significand * 2 ^ exponent` with its sign.
  Numbers are kept as bits, so that every operation is exact integer
  arithmetic and the sign of a NaN is not lost.  `round` gives the number
  nearest to a quotient of naturals. -/

namespace BlockLang

/-- A binary floating-point number of 64 bits. -/
structure Binary64 where
  /-- Sign, exponent and fraction, most significant bit first. -/
  bits : UInt64
deriving DecidableEq

namespace Binary64

/-! ### Fields -/

/-- Does the sign bit say minus? -/
def negative (x : Binary64) : Bool := x.bits.toNat / Nat.pow 2 63 = 1

/-- The eleven exponent bits. -/
def exponentField (x : Binary64) : Nat := x.bits.toNat / Nat.pow 2 52 % Nat.pow 2 11

/-- The 52 fraction bits. -/
def fractionField (x : Binary64) : Nat := x.bits.toNat % Nat.pow 2 52

def isNaN (x : Binary64) : Bool := x.exponentField = 2047 && x.fractionField ≠ 0

def isInfinite (x : Binary64) : Bool := x.exponentField = 2047 && x.fractionField = 0

/-- The bits other than the sign. -/
def magnitude (x : Binary64) : Nat := x.bits.toNat % Nat.pow 2 63

/-- The integer factor of a finite number: the fraction, with the leading one
    that a normal number leaves out. -/
def significand (x : Binary64) : Nat :=
  if x.exponentField = 0 then x.fractionField else Nat.pow 2 52 + x.fractionField

/-- The power of two of a finite number. -/
def exponent (x : Binary64) : Int := (max x.exponentField 1 : Nat) - 1075

/-! ### Values -/

/-- The number with the given sign and other bits. -/
def ofMagnitude (negative : Bool) (magnitude : Nat) : Binary64 :=
  ⟨UInt64.ofNat (if negative then Nat.pow 2 63 + magnitude else magnitude)⟩

/-- The bits, apart from the sign, of an infinity. -/
def infinityMagnitude : Nat := 2047 * Nat.pow 2 52

def infinity (negative : Bool) : Binary64 := ofMagnitude negative infinityMagnitude

/-- The quiet NaN without a payload. -/
def nan (negative : Bool) : Binary64 := ofMagnitude negative (infinityMagnitude + Nat.pow 2 51)

/-- Equality of numbers: a NaN equals nothing, and both zeros are equal. -/
def eq (x y : Binary64) : Bool :=
  !x.isNaN && !y.isNaN && (x.bits == y.bits || (x.magnitude == 0 && y.magnitude == 0))

/-! ### Rounding -/

/-- The natural number nearest to `num / den`; halfway the even one. -/
def roundHalfEven (num den : Nat) : Nat :=
  let whole := num / den
  let rest := 2 * (num % den)
  if rest < den || (rest = den && whole % 2 = 0) then whole else whole + 1

/-- The least exponent of a finite number. -/
def minExponent : Int := -1074

/-- The exponent `q` for which `num / den` has 53 binary digits before the
    point in units of `2 ^ q`, or the least one where that is below it. -/
def exponentFor (num den : Nat) : Int :=
  let guess : Int := (num.log2 : Int) - den.log2 - 52
  let short : Bool :=
    if 0 ≤ guess then num < Nat.pow 2 52 * (den * Nat.pow 2 guess.toNat)
    else num * Nat.pow 2 (-guess).toNat < Nat.pow 2 52 * den
  max (if short then guess - 1 else guess) minExponent

/-- The number nearest to `num / den` for positive `num` and `den`, with the
    given sign; halfway the one with the even significand.  What rounds past
    the greatest finite number is infinite. -/
def round (negative : Bool) (num den : Nat) : Binary64 :=
  let q := exponentFor num den
  let n := if 0 ≤ q then roundHalfEven num (den * Nat.pow 2 q.toNat)
    else roundHalfEven (num * Nat.pow 2 (-q).toNat) den
  -- The leading one of `n` adds one to the exponent field, as does a carry.
  ofMagnitude negative (min ((q - minExponent).toNat * Nat.pow 2 52 + n) infinityMagnitude)

end Binary64

end BlockLang
