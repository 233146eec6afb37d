import EditorLink.Number.Shortest
import EditorLink.Text.Hex
import EditorLink.Value

/-!
# EditorLink.Json.Printer -- compact JSON text

The text of a value has no blanks. Fields come in their order in the object, floats as the shortest decimal that reads
back, and in strings only the quote, the backslash and the characters below U+0020 are escaped. So the text of a value
never holds a line break, which is what lets a line of text carry a message.
-/

namespace EditorLink.Json

open Text

/-! ## Strings -/

/-- A character as it stands between quotes. -/
def escape (c : Char) : List Char :=
  if c = '"' then ['\\', '"']
  else if c = '\\' then ['\\', '\\']
  else if 0x20 ≤ c.toNat then [c]
  else if c.toNat = 8 then ['\\', 'b']
  else if c.toNat = 9 then ['\\', 't']
  else if c.toNat = 10 then ['\\', 'n']
  else if c.toNat = 12 then ['\\', 'f']
  else if c.toNat = 13 then ['\\', 'r']
  else ['\\', 'u', '0', '0', hexDigit (c.toNat / 16), hexDigit (c.toNat % 16)]

def quote (s : String) : List Char :=
  '"' :: s.toList.flatMap escape ++ ['"']

/-! ## Values -/

def numberChars : Number → List Char
  | .natural n => Nat.toDigits 10 n.toNat
  | .negative k => '-' :: Nat.toDigits 10 (k.val + 1)
  | .float x => x.chars

/-- The characters of a value's text. -/
def chars : Value → List Char
  | .null => ['n', 'u', 'l', 'l']
  | .bool true => ['t', 'r', 'u', 'e']
  | .bool false => ['f', 'a', 'l', 's', 'e']
  | .number n => numberChars n
  | .string s => quote s
  | .array items => '[' :: [','].intercalate (items.map fun v => chars v) ++ [']']
  | .object fields =>
    '\x7b' :: [','].intercalate (fields.map fun f => quote f.1 ++ ':' :: chars f.2) ++ ['\x7d']
termination_by v => v
decreasing_by
  · simp_wf
    have := List.sizeOf_lt_of_mem ‹_›
    omega
  · simp_wf
    have := List.sizeOf_lt_of_mem ‹_›
    have : sizeOf f = 1 + sizeOf f.1 + sizeOf f.2 := by cases f; simp
    omega

def print (v : Value) : String :=
  String.ofList (chars v)

end EditorLink.Json
