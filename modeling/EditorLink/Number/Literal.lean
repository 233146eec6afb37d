import EditorLink.Text.Blank
import EditorLink.Number.Double

/-!
# EditorLink.Number.Literal -- decimal literals

A **literal** is a sign, a run of digits before the point, a run after it and a power of ten. The formats that carry
literals differ in which of these may be missing; the number that a literal stands for is the same in all.
-/

namespace EditorLink

open Text

/-- The number written by a run of decimal digits. -/
def digitsToNat (digits : List Char) : Nat :=
  digits.foldl (fun n c => n * 10 + digitValue c) 0

/-- The longest run of digits at the front, and the rest. -/
def spanDigits (cs : List Char) : List Char × List Char :=
  (cs.takeWhile isDigit, cs.dropWhile isDigit)

structure Literal where
  negative : Bool
  whole : List Char
  fraction : List Char
  exponent : Int

namespace Literal

/-- The number closest to the literal; `none` when that is not finite. -/
def double? (l : Literal) : Option Double :=
  Double.ofDecimal? l.negative (digitsToNat (l.whole ++ l.fraction)) (l.exponent - l.fraction.length)

/-- A sign, if there is one, and the rest. -/
def splitSign : List Char → Bool × List Char
  | '-' :: cs => (true, cs)
  | '+' :: cs => (false, cs)
  | cs => (false, cs)

/-- An exponent part at the front, or `0` if none starts here; `none` when it has no digits. -/
def readExponent? : List Char → Option (Int × List Char)
  | [] => some (0, [])
  | c :: cs =>
    if c = 'e' ∨ c = 'E' then
      let (negative, cs) := splitSign cs
      let (digits, rest) := spanDigits cs
      if digits.isEmpty then none
      else some (if negative then -(digitsToNat digits : Int) else digitsToNat digits, rest)
    else some (0, c :: cs)

/-- An exponent part starts here. -/
def atExponent (cs : List Char) : Bool :=
  cs.head? = some 'e' || cs.head? = some 'E'

/-- A fraction part at the front, possibly without digits. -/
def readFraction : List Char → List Char × List Char
  | '.' :: cs => spanDigits cs
  | cs => ([], cs)

/-- The whole text as a literal. Either run of digits may be missing, but not both. -/
def ofChars? (cs : List Char) : Option Literal :=
  let (negative, cs) := splitSign cs
  let (whole, cs) := spanDigits cs
  let (fraction, cs) := readFraction cs
  if whole.isEmpty ∧ fraction.isEmpty then none
  else match readExponent? cs with
    | some (exponent, []) => some ⟨negative, whole, fraction, exponent⟩
    | _ => none

end Literal

/-- The finite number that the whole text writes as a decimal literal. Words such as `inf` are no literals. -/
def Double.ofChars? (cs : List Char) : Option Double :=
  (Literal.ofChars? cs).bind Literal.double?

/-- The integer that the whole text writes: a sign may stand in front of one or more digits. -/
def intOfChars? (cs : List Char) : Option Int :=
  let (negative, digits) := Literal.splitSign cs
  if digits.isEmpty ∨ !digits.all isDigit then none
  else some (if negative then -(digitsToNat digits : Int) else digitsToNat digits)

end EditorLink
