import EditorLink.Number.Literal
import EditorLink.Text.Hex
import EditorLink.Value

/-!
# EditorLink.Json.Reader -- reading JSON text

`read?` reads a whole text as one value: blanks may stand around any token, at most 127 containers may be nested, and a
number beyond the finite range of `Double` is refused. An integer without fraction and exponent is an integer when the
wire formats can carry it and a float otherwise; `-0` is the float.

The fields of an object come back in the order in which they are written, repeated keys included (`readFields?`), because
a reader of records has to see a key that is given twice. `read?` then puts them in key order, keeping the last of
each key.

Nesting is followed by recursion on the depth that is left, and the elements of one container by recursion on a bound
that is the length of the text: each element takes at least one character.
-/

namespace EditorLink.Json

open Text

/-- A value and what follows it. -/
abbrev Reading (α : Type) := Option (α × List Char)

/-! ## Tokens -/

/-- The four blanks of JSON. -/
def isSpace (c : Char) : Bool :=
  c = ' ' || c = '\n' || c = '\t' || c = '\r'

def skipSpace (cs : List Char) : List Char :=
  cs.dropWhile isSpace

/-- A digit run that is `0` alone or does not start with `0`. -/
def properWhole (digits : List Char) : Bool :=
  match digits with
  | [] => false
  | ['0'] => true
  | '0' :: _ => false
  | _ => true

/-- The integer `±n` as a number: an integer when it can be carried as one. -/
def integerNumber? (negative : Bool) (digits : List Char) : Option Number :=
  let n := digitsToNat digits
  if negative ∧ n = 0 then some (.float Double.negativeZero)
  else
    match Number.ofInt? (if negative then -(n : Int) else n) with
    | some number => some number
    | none => (Literal.double? ⟨negative, digits, [], 0⟩).map .float

/-- The unsigned part of a number. With a fraction or an exponent it is a float. -/
def readUnsigned (negative : Bool) (cs : List Char) : Reading Number :=
  let (whole, afterWhole) := spanDigits cs
  let (fraction, afterFraction) := Literal.readFraction afterWhole
  let pointed := decide (afterWhole.head? = some '.')
  if !properWhole whole || (pointed && fraction.isEmpty) then none
  else if pointed || Literal.atExponent afterFraction then
    match Literal.readExponent? afterFraction with
    | none => none
    | some (exponent, rest) =>
      (Literal.double? ⟨negative, whole, fraction, exponent⟩).map fun x => (.float x, rest)
  else (integerNumber? negative whole).map fun n => (n, afterWhole)

def readNumber : List Char → Reading Number
  | '-' :: cs => readUnsigned true cs
  | cs => readUnsigned false cs

def isHighUnit (unit : Nat) : Bool := 0xD800 ≤ unit && unit ≤ 0xDBFF

def isLowUnit (unit : Nat) : Bool := 0xDC00 ≤ unit && unit ≤ 0xDFFF

/-- The low unit that has to follow a high one, and the character of the pair. -/
def readLowUnit (high : Nat) : List Char → Reading Char
  | '\\' :: 'u' :: cs =>
    match readHex? 4 cs with
    | some (low, rest) =>
      if isLowUnit low then
        some (Char.ofNat (0x10000 + (high - 0xD800) * 0x400 + (low - 0xDC00)), rest)
      else none
    | none => none
  | _ => none

/-- What stands after `\u`: a unit, or two units that form a pair. A unit of a pair that stands alone is refused. -/
def readUnicode (cs : List Char) : Reading Char :=
  match readHex? 4 cs with
  | some (unit, rest) =>
    if isHighUnit unit then readLowUnit unit rest
    else if isLowUnit unit then none
    else some (Char.ofNat unit, rest)
  | none => none

/-- The letters that name a character after a backslash. -/
def simpleEscape? : Char → Option Char
  | '"' => some '"'
  | '\\' => some '\\'
  | '/' => some '/'
  | 'b' => some '\x08'
  | 'f' => some '\x0c'
  | 'n' => some '\n'
  | 'r' => some '\r'
  | 't' => some '\t'
  | _ => none

/-- One character of a string, which is not the closing quote. -/
def readCharacter : List Char → Reading Char
  | [] => none
  | '\\' :: 'u' :: cs => readUnicode cs
  | '\\' :: c :: cs => (simpleEscape? c).map fun c => (c, cs)
  | c :: cs => if c.toNat < 0x20 ∨ c = '\\' then none else some (c, cs)

/-- The characters up to the closing quote; `taken` are those read so far, last first. -/
def readCharacters : (fuel : Nat) → (taken : List Char) → List Char → Reading String
  | 0, _, _ => none
  | _ + 1, taken, '"' :: cs => some (String.ofList taken.reverse, cs)
  | fuel + 1, taken, cs =>
    match readCharacter cs with
    | some (c, rest) => readCharacters fuel (c :: taken) rest
    | none => none

/-! ## Containers -/

/-- Elements up to the closing bracket, each read by `element`; `taken` are those read so far, last first. -/
def readItems (element : List Char → Reading Value) :
    (fuel : Nat) → (taken : List Value) → List Char → Reading (List Value)
  | 0, _, _ => none
  | fuel + 1, taken, cs =>
    match element cs with
    | none => none
    | some (v, rest) =>
      match skipSpace rest with
      | ']' :: rest => some ((v :: taken).reverse, rest)
      | ',' :: rest => readItems element fuel (v :: taken) rest
      | _ => none

/-- A key, a colon and a value. -/
def readField (fuel : Nat) (element : List Char → Reading Value) (cs : List Char) :
    Reading (String × Value) :=
  match skipSpace cs with
  | '"' :: cs =>
    match readCharacters fuel [] cs with
    | none => none
    | some (key, rest) =>
      match skipSpace rest with
      | ':' :: rest => (element rest).map fun (v, rest) => ((key, v), rest)
      | _ => none
  | _ => none

/-- Fields up to the closing brace; `taken` are those read so far, last first. -/
def readFields (bound : Nat) (element : List Char → Reading Value) :
    (fuel : Nat) → (taken : Fields) → List Char → Reading Fields
  | 0, _, _ => none
  | fuel + 1, taken, cs =>
    match readField bound element cs with
    | none => none
    | some (f, rest) =>
      match skipSpace rest with
      | '\x7d' :: rest => some ((f :: taken).reverse, rest)
      | ',' :: rest => readFields bound element fuel (f :: taken) rest
      | _ => none

/-- A value at the front of a text of at most `bound` characters, with `depth` containers still allowed. -/
def readValue (bound : Nat) : (depth : Nat) → List Char → Reading Value
  | depth, cs =>
    match skipSpace cs with
    | 'n' :: 'u' :: 'l' :: 'l' :: rest => some (.null, rest)
    | 't' :: 'r' :: 'u' :: 'e' :: rest => some (.bool true, rest)
    | 'f' :: 'a' :: 'l' :: 's' :: 'e' :: rest => some (.bool false, rest)
    | '"' :: rest => (readCharacters bound [] rest).map fun (s, rest) => (.string s, rest)
    | '[' :: rest =>
      match depth with
      | 0 => none
      | depth + 1 =>
        match skipSpace rest with
        | ']' :: rest => some (.array [], rest)
        | rest => (readItems (readValue bound depth) bound [] rest).map fun (vs, rest) => (.array vs, rest)
    | '\x7b' :: rest =>
      match depth with
      | 0 => none
      | depth + 1 =>
        match skipSpace rest with
        | '\x7d' :: rest => some (.object [], rest)
        | rest =>
          (readFields bound (readValue bound depth) bound [] rest).map fun (fs, rest) => (.object fs, rest)
    | rest => (readNumber rest).map fun (n, rest) => (.number n, rest)

/-! ## Texts -/

/-- The deepest nesting that is read. -/
def maxDepth : Nat := 127

/-- The value that the whole text writes, its fields as they are written, with at most `depth` containers nested. -/
def readAsWritten? (depth : Nat) (cs : List Char) : Option Value :=
  match readValue (cs.length + 1) depth cs with
  | some (v, rest) => if (skipSpace rest).isEmpty then some v else none
  | none => none

mutual
/-- The value with every object in key order, the last field of each key kept. -/
def inOrder : Value → Value
  | .array items => .array (itemsInOrder [] items)
  | .object fields => .object (Keyed.ofList (fieldsInOrder [] fields))
  | v => v

/-- Items in their order, behind those of `taken`, which are last first. -/
def itemsInOrder (taken : List Value) : List Value → List Value
  | [] => taken.reverse
  | v :: rest => itemsInOrder (inOrder v :: taken) rest

/-- Fields in their order, behind those of `taken`, which are last first. -/
def fieldsInOrder (taken : Fields) : Fields → Fields
  | [] => taken.reverse
  | (key, v) :: rest => fieldsInOrder ((key, inOrder v) :: taken) rest
end

/-- The value that the whole text writes. -/
def read? (cs : List Char) : Option Value :=
  (readAsWritten? maxDepth cs).map inOrder

end EditorLink.Json
