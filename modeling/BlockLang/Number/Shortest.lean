import BlockLang.Number.Binary64

/-! # Shortest — the shortest decimal that reads back

  A finite number is the nearest one to every real between the midpoints to
  its two neighbours (midpoints included when its significand is even, since
  a tie goes to the even one).  `shortestDecimal` looks for the coarsest grid
  of multiples of a power of ten with a point in that range, and takes the
  point nearest to the number.  `Binary64.text` lays the digits out. -/

namespace BlockLang

/-- A decimal number `digits * 10 ^ exponent`. -/
structure Decimal where
  digits : Nat
  exponent : Int
deriving DecidableEq

namespace Binary64

/-! ### Which digits -/

/-- The reals that round to a positive number, all scaled by one common
    denominator. -/
structure RoundingRange where
  /-- The number itself. -/
  value : Nat
  /-- The midpoint to the neighbour below. -/
  low : Nat
  /-- The midpoint to the neighbour above. -/
  high : Nat
  /-- Do the midpoints round to the number? -/
  closed : Bool
  /-- The common denominator. -/
  den : Nat

/-- The range of a positive finite number.  The neighbour below the least
    significand of a binade is only half as far away as the one above. -/
def roundingRange (x : Binary64) : RoundingRange :=
  let m := 4 * x.significand
  let below := if x.fractionField = 0 && 1 < x.exponentField then 1 else 2
  let q := x.exponent - 2
  let scale := Nat.pow 2 q.toNat
  { value := m * scale
    low := (m - below) * scale
    high := (m + 2) * scale
    closed := x.significand % 2 = 0
    den := Nat.pow 2 (-q).toNat }

/-- Is `point` in the range, when both are scaled by `factor` once more? -/
def RoundingRange.contains (r : RoundingRange) (factor point : Nat) : Bool :=
  if r.closed then r.low * factor ≤ point && point ≤ r.high * factor
  else r.low * factor < point && point < r.high * factor

/-- The multiple of `10 ^ k` in the range that is nearest to the number; of
    two equally near ones the greater. -/
def RoundingRange.onGrid? (r : RoundingRange) (k : Int) : Option Decimal :=
  let factor := Nat.pow 10 (-k).toNat
  let unit := r.den * Nat.pow 10 k.toNat
  let value := r.value * factor
  -- The two grid points around the number.
  let down := value / unit
  let downIn := r.contains factor (down * unit)
  let upIn := r.contains factor ((down + 1) * unit)
  if upIn && (!downIn || unit ≤ 2 * (value % unit)) then some ⟨down + 1, k⟩
  else if downIn then some ⟨down, k⟩
  else none

/-- The first hit on the grids of `10 ^ k`, `10 ^ (k - 1)`, …, of which
    `grids` are tried. -/
def RoundingRange.search (r : RoundingRange) : (grids : Nat) → (k : Int) → Decimal
  | 0, k => ⟨r.value * Nat.pow 10 (-k).toNat / (r.den * Nat.pow 10 k.toNat), k⟩
  | grids + 1, k => (r.onGrid? k).getD (r.search grids (k - 1))

/-- The shortest decimal that reads back as a positive finite number.  The
    first grid has its unit above the range; the last one, `10 ^ -324`, is
    finer than the range of any number. -/
def shortestDecimal (x : Binary64) : Decimal :=
  let r := x.roundingRange
  let top := (Nat.toDigits 10 (r.high / r.den)).length
  r.search (top + 325) top

/-! ### How they are laid out -/

/-- Numbers are written without an exponent from this power of ten on, and
    below the other one. -/
def positionalFrom : Int := -4

def positionalBelow : Int := 16

/-- Digits with a point; at least one digit stands on each side of it. -/
def positionalText (digits : List Char) (exponent : Int) : List Char :=
  let whole := digits.length + exponent
  if 0 ≤ exponent then digits ++ List.replicate exponent.toNat '0' ++ ['.', '0']
  else if 0 < whole then digits.take whole.toNat ++ '.' :: digits.drop whole.toNat
  else '0' :: '.' :: List.replicate (-whole).toNat '0' ++ digits

/-- Digits with a point behind the first one, if there are more, and the
    power of ten of the first digit. -/
def exponentText (digits : List Char) (power : Int) : List Char :=
  let fraction := match digits.drop 1 with
    | [] => []
    | rest => '.' :: rest
  digits.take 1 ++ fraction ++ 'e' :: (toString power).toList

/-- A positive decimal in the layout that its size asks for. -/
def decimalText (d : Decimal) : List Char :=
  let digits := Nat.toDigits 10 d.digits
  let power := digits.length + d.exponent - 1
  if positionalFrom ≤ power && power < positionalBelow then positionalText digits d.exponent
  else exponentText digits power

/-- The text of a number: the fewest digits that read back as it, always with
    a fraction or an exponent. -/
def text (x : Binary64) : String :=
  if x.isNaN then "NaN"
  else
    let unsigned :=
      if x.isInfinite then "inf".toList
      else if x.magnitude = 0 then "0.0".toList
      else decimalText x.shortestDecimal
    String.ofList (if x.negative then '-' :: unsigned else unsigned)

end Binary64

end BlockLang
