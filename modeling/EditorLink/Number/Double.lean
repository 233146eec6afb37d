/-!
# EditorLink.Number.Double -- finite binary64 numbers

A `Double` is its sixty-four bits: a sign, eleven bits of exponent, fifty-two of significand. Infinities and
NaNs are left out, because no message carries them. The number stands for

    sign * significand * 2 ^ scale

with both parts read off the bits, so that every operation here is exact integer arithmetic: a quotient is
rounded once, to the nearest `Double`, a half to the even neighbour. The significand's bits are those below
`0x10_0000_0000_0000`, which is `2 ^ 52`, and the sign is the bit `0x8000_0000_0000_0000`.
-/

namespace EditorLink

/-- A power of naturals, by the core library. A library of mathematics has powers of its own, which `^` means where that one is there. -/
def power (base exponent : Nat) : Nat :=
  @HPow.hPow Nat Nat Nat (@instHPow Nat Nat instPowNat) base exponent

/-- A finite binary64 number, as its bits. -/
structure Double where
  bits : UInt64
  finite : bits.toNat / 0x10_0000_0000_0000 % 2048 < 2047
  deriving DecidableEq

namespace Double

/-! ## Parts -/

def isNegative (x : Double) : Bool :=
  0x8000_0000_0000_0000 ≤ x.bits.toNat

/-- The bits without the sign. They grow with the magnitude. -/
def magnitude (x : Double) : Nat :=
  x.bits.toNat % 0x8000_0000_0000_0000

def significand (x : Double) : Nat :=
  if x.magnitude < 0x10_0000_0000_0000 then x.magnitude else 0x10_0000_0000_0000 + x.magnitude % 0x10_0000_0000_0000

/-- The power of two that one unit of the significand stands for. -/
def scale (x : Double) : Int :=
  if x.magnitude < 0x10_0000_0000_0000 then -1074 else (x.magnitude / 0x10_0000_0000_0000 : Nat) - 1075

def isZero (x : Double) : Bool :=
  x.magnitude = 0

/-- Finite numbers are ordered as these integers; the two zeros share one. -/
def orderKey (x : Double) : Int :=
  if x.isNegative then -(x.magnitude : Int) else x.magnitude

/-! ## Making numbers -/

/-- The number of these bits, unless they are those of an infinity or a NaN. -/
def ofBits? (bits : UInt64) : Option Double :=
  if h : bits.toNat / 0x10_0000_0000_0000 % 2048 < 2047 then some ⟨bits, h⟩ else none

instance : Inhabited Double := ⟨⟨0, by decide⟩⟩

/-- `num / den`, a half to the even neighbour. -/
def roundDiv (num den : Nat) : Nat :=
  let q := num / den
  let r := num % den
  if den < 2 * r ∨ (2 * r = den ∧ q % 2 = 1) then q + 1 else q

/-- The largest `k` with `2 ^ k ≤ num / den`, for positive numbers. -/
def floorLog2 (num den : Nat) : Int :=
  let k : Int := num.log2 - den.log2
  if den * power 2 k.toNat ≤ num * power 2 (-k).toNat then k else k - 1

/-- Sign-free bits of the `Double` nearest to `num / den`. A significand that rounds up to `2 ^ 53` carries into
the exponent by itself; a result from `2047 * 2 ^ 52` on is beyond the finite range. -/
def nearestMagnitude (num den : Nat) : Nat :=
  if num = 0 then 0
  else
    let scale := max (floorLog2 num den - 52) (-1074)
    let significand := roundDiv (num * power 2 (-scale).toNat) (den * power 2 scale.toNat)
    (scale + 1074).toNat * 0x10_0000_0000_0000 + significand

/-- The number with this sign and these sign-free bits, if it is finite. -/
def ofMagnitude? (negative : Bool) (magnitude : Nat) : Option Double :=
  if magnitude < 2047 * 0x10_0000_0000_0000 then
    ofBits? (UInt64.ofNat (if negative then 0x8000_0000_0000_0000 + magnitude else magnitude))
  else none

/-- The nearest number to a quotient of naturals, unless that overflows. -/
def ofRatio? (negative : Bool) (num den : Nat) : Option Double :=
  ofMagnitude? negative (nearestMagnitude num den)

/-- The nearest number to an integer; one too large for the format gives zero, which no integer of either wire format is. -/
def ofInt (n : Int) : Double :=
  (ofRatio? (n < 0) n.natAbs 1).getD default

def negativeZero : Double := ⟨0x8000000000000000, by decide⟩

/-- The number `±coefficient * 10 ^ exponent`, rounded once. `none` is overflow. Exponents far outside the
format's range are answered without computing the power. -/
def ofDecimal? (negative : Bool) (coefficient : Nat) (exponent : Int) : Option Double :=
  if coefficient = 0 then ofMagnitude? negative 0
  else if 310 < exponent then none
  else if 31 * ((coefficient.log2 : Int) + 1) + 100 * exponent < -33000 then ofMagnitude? negative 0
  else ofRatio? negative (coefficient * power 10 exponent.toNat) (power 10 (-exponent).toNat)

/-! ## To integers -/

/-- The integer part: the fraction is dropped. -/
def truncate (x : Double) : Int :=
  let n := x.significand * power 2 x.scale.toNat / power 2 (-x.scale).toNat
  if x.isNegative then -(n : Int) else n

/-- The nearest integer, a half away from zero. -/
def roundAway (x : Double) : Int :=
  let unit := power 2 (-x.scale).toNat
  let n := (2 * x.significand * power 2 x.scale.toNat + unit) / (2 * unit)
  if x.isNegative then -(n : Int) else n

/-! ## Widening -/

/-- The `Double` with the value of a binary32 number given by its bits; `none` for an infinity or a NaN. -/
def ofSingleBits? (bits : UInt32) : Option Double :=
  let magnitude := bits.toNat % 0x8000_0000
  let exponent := magnitude / 0x80_0000
  let fraction := magnitude % 0x80_0000
  let negative := decide (0x8000_0000 ≤ bits.toNat)
  if exponent = 255 then none
  else if exponent = 0 then ofRatio? negative fraction (power 2 149)
  else ofRatio? negative ((0x80_0000 + fraction) * power 2 exponent) (power 2 150)

end Double
end EditorLink
