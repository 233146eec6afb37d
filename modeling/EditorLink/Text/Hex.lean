/-!
# EditorLink.Text.Hex -- hexadecimal digits
-/

namespace EditorLink.Text

/-- A hexadecimal digit in lower case. -/
def hexDigit (n : Nat) : Char :=
  if n < 10 then Char.ofNat ('0'.toNat + n) else Char.ofNat ('a'.toNat + (n - 10))

/-- The value of a hexadecimal digit in either case. -/
def hexValue? (c : Char) : Option Nat :=
  if '0' ≤ c ∧ c ≤ '9' then some (c.toNat - '0'.toNat)
  else if 'a' ≤ c ∧ c ≤ 'f' then some (c.toNat - 'a'.toNat + 10)
  else if 'A' ≤ c ∧ c ≤ 'F' then some (c.toNat - 'A'.toNat + 10)
  else none

/-- The number that `count` digits at the front write after those of `taken`, and what follows them. -/
def readHexAfter : (count taken : Nat) → List Char → Option (Nat × List Char)
  | 0, taken, cs => some (taken, cs)
  | _ + 1, _, [] => none
  | count + 1, taken, c :: cs =>
    match hexValue? c with
    | some d => readHexAfter count (taken * 16 + d) cs
    | none => none

/-- The number that `count` digits at the front write, and what follows them. -/
def readHex? (count : Nat) (cs : List Char) : Option (Nat × List Char) :=
  readHexAfter count 0 cs

/-- The character that `count` hexadecimal digits at the front name by its code point, and what follows them. -/
def readCodePoint? (count : Nat) (cs : List Char) : Option (Char × List Char) :=
  match readHex? count cs with
  | some (n, rest) => if h : n.isValidChar then some (Char.ofNatAux n h, rest) else none
  | none => none

end EditorLink.Text
