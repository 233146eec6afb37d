import EditorLink.Number.Double

/-!
# EditorLink.Number.Shortest -- the shortest decimal of a binary64 number

A decimal **reads back** as `x` when it lies in the interval of reals that round to `x`. `shortest` finds the
fewest digits that read back and, among decimals with that many digits, the nearest to `x`; an exact tie goes to
the even last digit. Seventeen digits always suffice. The search tries, for one digit, two digits and so on, the two
neighbours of `x` on that decimal grid, in exact natural arithmetic.
-/

namespace EditorLink

/-- The positive number `digits * 10 ^ exponent`. -/
structure Decimal where
  digits : Nat
  exponent : Int
  deriving DecidableEq, Repr

namespace Decimal

/-- How many decimal digits `n` has; zero has one. -/
def length (n : Nat) : Nat :=
  (Nat.toDigits 10 n).length

/-- The largest `e` with `10 ^ e ≤ num / den`, for positive numbers. -/
def floorLog10 (num den : Nat) : Int :=
  if den ≤ num then (length (num / den) : Int) - 1 else -(length ((den - 1) / num))

end Decimal

namespace Double

/-- The reals that round to a positive number, as `low / unit` to `high / unit` around `middle / unit`; the ends
belong to it when `closed`. -/
structure Interval where
  low : Nat
  middle : Nat
  high : Nat
  unit : Nat
  closed : Bool

/-- The gap below a power of two is half as wide as the gap above it. -/
def interval (x : Double) : Interval :=
  let m := x.significand
  let up := power 2 x.scale.toNat
  let below := if m = 0x10_0000_0000_0000 ∧ -1074 < x.scale then 1 else 2
  { low := (4 * m - below) * up
    middle := 4 * m * up
    high := (4 * m + 2) * up
    unit := 4 * power 2 (-x.scale).toNat
    closed := m % 2 = 0 }

/-- `n * 10 ^ e` reads back as the number of the interval. -/
def Interval.holds (i : Interval) (n : Nat) (e : Int) : Bool :=
  let value := n * power 10 e.toNat * i.unit
  let ten := power 10 (-e).toNat
  if i.closed then i.low * ten ≤ value ∧ value ≤ i.high * ten
  else i.low * ten < value ∧ value < i.high * ten

/-- The better of the two neighbours of the middle on the grid `10 ^ e`, if either reads back. -/
def Interval.onGrid? (i : Interval) (e : Int) : Option Decimal :=
  let num := i.middle * power 10 (-e).toNat
  let den := i.unit * power 10 e.toNat
  let n := num / den
  let nearer := roundDiv num den
  if i.holds nearer e then some ⟨nearer, e⟩
  else if i.holds n e then some ⟨n, e⟩
  else if i.holds (n + 1) e then some ⟨n + 1, e⟩
  else none

/-- The first grid from `top` down to `10 ^ (top - fuel)` that has a decimal in the interval. -/
def Interval.search (i : Interval) : (fuel : Nat) → (top : Int) → Option Decimal
  | 0, _ => none
  | fuel + 1, top => (i.onGrid? top).or (i.search fuel (top - 1))

/-- The shortest decimal of a number's magnitude, which must not be zero. -/
def shortest (x : Double) : Decimal :=
  let i := x.interval
  let top := Decimal.floorLog10 i.middle i.unit
  (i.search 17 top).getD ⟨i.middle, 0⟩

/-! ## Layout -/

/-- How a decimal is written: positionally while the power of ten of its first digit is in `[least, limit)`. -/
structure Layout where
  least : Int
  limit : Int

/-- Numbers from `0.00001` to just below `10000000000000000.0` are written positionally. -/
def plainLayout : Layout := ⟨-5, 16⟩

private def zeros (n : Nat) : List Char := List.replicate n '0'

/-- A neighbour that is a power of ten has zeros that no digit needs. -/
def trimZeros (digits : List Char) : List Char :=
  (digits.reverse.dropWhile (· = '0')).reverse

/-- Positional text of digits whose first one counts `10 ^ first`; there is always a point. -/
def positional (digits : List Char) (first : Int) : List Char :=
  if first < 0 then
    ['0', '.'] ++ zeros (-first - 1).toNat ++ digits
  else
    let whole := first.toNat + 1
    if digits.length ≤ whole then digits ++ zeros (whole - digits.length) ++ ['.', '0']
    else digits.take whole ++ '.' :: digits.drop whole

/-- Text with an exponent, its sign always written, and a point only between digits. -/
def scientific (digits : List Char) (first : Int) : List Char :=
  let mantissa := match digits with
    | d :: e :: rest => d :: '.' :: e :: rest
    | short => short
  let sign := if first < 0 then '-' else '+'
  mantissa ++ ['e', sign] ++ Nat.toDigits 10 first.natAbs

/-- The shortest text that reads back. -/
def chars (x : Double) : List Char :=
  let sign := if x.isNegative then ['-'] else []
  if x.isZero then sign ++ ['0', '.', '0']
  else
    let d := x.shortest
    let all := Nat.toDigits 10 d.digits
    let first := d.exponent + all.length - 1
    let digits := trimZeros all
    sign ++ (if plainLayout.least ≤ first ∧ first < plainLayout.limit then positional digits first
      else scientific digits first)

end Double
end EditorLink
