import EditorLink.Keyed
import EditorLink.Number.Double

/-!
# EditorLink.Value -- the values that both wire formats carry

A value is null, a boolean, a number, a text, an array or an object. Three conventions hold everywhere:

* a **number** is a natural below `2 ^ 64`, a negative integer from `-2 ^ 63` on, or a finite `Double`. The three kinds
  are disjoint: `1` and `1.0` are different values;
* an **object** is a list of fields. In a value that was built by this library the keys are strictly increasing, in
  the order of their UTF-8 bytes, which is also the order of code points (`Value.WellFormed`);
* equality of values is `Value.same`: it compares floats as numbers, so `0.0` and `-0.0` agree.
-/

namespace EditorLink

/-- A number of either wire format. -/
inductive Number where
  | natural (n : UInt64)
  /-- The integer `-(k + 1)`. -/
  | negative (k : Fin 0x8000_0000_0000_0000)
  | float (x : Double)
  deriving DecidableEq

namespace Number

/-- An integer as a number, if the formats can carry it as an integer. -/
def ofInt? (i : Int) : Option Number :=
  if 0 ≤ i then
    if i < 0x1_0000_0000_0000_0000 then some (.natural (UInt64.ofNat i.toNat)) else none
  else if h : (-i - 1).toNat < 0x8000_0000_0000_0000 then some (.negative ⟨(-i - 1).toNat, h⟩)
  else none

/-- The integer that an integer number stands for. -/
def int? : Number → Option Int
  | natural n => some n.toNat
  | negative k => some (-(k.val : Int) - 1)
  | float _ => none

/-- The nearest `Double`, exact for floats and for integers up to `2 ^ 53`. -/
def toDouble : Number → Double
  | natural n => Double.ofInt n.toNat
  | negative k => Double.ofInt (-(k.val : Int) - 1)
  | float x => x

/-- Numbers of one kind with one value. -/
def same : Number → Number → Bool
  | natural m, natural n => m = n
  | negative j, negative k => j = k
  | float x, float y => x.orderKey = y.orderKey
  | _, _ => false

end Number

/-- A value of either wire format. -/
inductive Value where
  | null
  | bool (b : Bool)
  | number (n : Number)
  | string (s : String)
  | array (items : List Value)
  | object (fields : List (String × Value))
  deriving Inhabited

/-- The fields of an object. -/
abbrev Fields := Keyed Value

namespace Value

/-! ## Making values -/

def nat (n : UInt64) : Value := .number (.natural n)

def texts (items : List String) : Value := .array (items.map .string)

/-- An object whose fields need not be in order. -/
def ofFields (fields : Fields) : Value := .object (Keyed.ofList fields)

/-- An integer as a value. `null` stands for an integer that no number carries. -/
def ofInt (i : Int) : Value :=
  match Number.ofInt? i with
  | some n => .number n
  | none => .null

/-! ## Reading values -/

def natural? : Value → Option UInt64
  | .number (.natural n) => some n
  | _ => none

/-- The integer of a number that is one and fits sixty-four bits with sign. -/
def integer? : Value → Option Int
  | .number n => n.int?.filter (· < 0x8000_0000_0000_0000)
  | _ => none

def double? : Value → Option Double
  | .number n => some n.toDouble
  | _ => none

def text? : Value → Option String
  | .string s => some s
  | _ => none

def flag? : Value → Option Bool
  | .bool b => some b
  | _ => none

def isNull : Value → Bool
  | .null => true
  | _ => false

/-- The value under a key of an object. -/
def get? : Value → String → Option Value
  | .object fields, key => Keyed.get? fields key
  | _, _ => none

/-! ## Equality and shape -/

mutual
/-- Structural equality in which floats are compared as numbers. -/
def same : Value → Value → Bool
  | .null, .null => true
  | .bool a, .bool b => a = b
  | .number m, .number n => m.same n
  | .string s, .string t => s = t
  | .array xs, .array ys => sameItems xs ys
  | .object fs, .object gs => sameFields fs gs
  | _, _ => false

def sameItems : List Value → List Value → Bool
  | [], [] => true
  | x :: xs, y :: ys => same x y && sameItems xs ys
  | _, _ => false

def sameFields : Fields → Fields → Bool
  | [], [] => true
  | (j, x) :: fs, (k, y) :: gs => j = k && same x y && sameFields fs gs
  | _, _ => false
end

mutual
/-- Containers around the innermost value, the value itself included. -/
def depth : Value → Nat
  | .array xs => 1 + depthItems xs 0
  | .object fs => 1 + depthFields fs 0
  | _ => 0

def depthItems : List Value → Nat → Nat
  | [], deepest => deepest
  | x :: xs, deepest => depthItems xs (max deepest (depth x))

def depthFields : Fields → Nat → Nat
  | [], deepest => deepest
  | (_, x) :: fs, deepest => depthFields fs (max deepest (depth x))
end

mutual
/-- Values on the longest way from the whole value down to a part, both included. -/
def height : Value → Nat
  | .array xs => 1 + heightItems xs 0
  | .object fs => 1 + heightFields fs 0
  | _ => 1

def heightItems : List Value → Nat → Nat
  | [], highest => highest
  | x :: xs, highest => heightItems xs (max highest (height x))

def heightFields : Fields → Nat → Nat
  | [], highest => highest
  | (_, x) :: fs, highest => heightFields fs (max highest (height x))
end

mutual
/-- How many values the value consists of, itself included. -/
def nodes : Value → Nat
  | .array xs => nodesItems xs 1
  | .object fs => nodesFields fs 1
  | _ => 1

def nodesItems : List Value → Nat → Nat
  | [], total => total
  | x :: xs, total => nodesItems xs (total + nodes x)

def nodesFields : Fields → Nat → Nat
  | [], total => total
  | (_, x) :: fs, total => nodesFields fs (total + nodes x)
end

mutual
/-- UTF-8 bytes of all texts and keys in the value. -/
def textBytes : Value → Nat
  | .string s => s.utf8ByteSize
  | .array xs => textBytesItems xs 0
  | .object fs => textBytesFields fs 0
  | _ => 0

def textBytesItems : List Value → Nat → Nat
  | [], total => total
  | x :: xs, total => textBytesItems xs (total + textBytes x)

def textBytesFields : Fields → Nat → Nat
  | [], total => total
  | (k, x) :: fs, total => textBytesFields fs (total + k.utf8ByteSize + textBytes x)
end

/-- The keys of every object in the value are strictly increasing. -/
inductive WellFormed : Value → Prop where
  | null : WellFormed .null
  | bool (b) : WellFormed (.bool b)
  | number (n) : WellFormed (.number n)
  | string (s) : WellFormed (.string s)
  | array {items} : (∀ v ∈ items, WellFormed v) → WellFormed (.array items)
  | object {fields} : Keyed.Ordered fields → (∀ f ∈ fields, WellFormed f.2) → WellFormed (.object fields)

end Value
end EditorLink
