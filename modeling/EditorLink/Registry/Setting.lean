import EditorLink.Number.Literal
import EditorLink.Record
import EditorLink.Text.Blank

/-!
# EditorLink.Registry.Setting -- declared settings

A package declares a **setting** with a type and perhaps a default. The host stores what it likes, so its raw value is coerced to the
declared type: a raw value that is missing, null or unreadable yields the default, and failing that the zero of the type, which for
texts is null. A setting whose type is not one of the four known ones always reads as null when the host has a value.
-/

namespace EditorLink.Registry

open Text

inductive SettingType where
  | bool
  | string
  | int
  | float
  /-- A type tag that is not known. -/
  | unknown
  deriving DecidableEq, Repr

namespace SettingType

/-- The type that a tag names; `boolean` and `integer` are second names. -/
def ofTag (tag : String) : SettingType :=
  if tag = "bool" ∨ tag = "boolean" then bool
  else if tag = "string" then string
  else if tag = "int" ∨ tag = "integer" then int
  else if tag = "float" then float
  else unknown

def name : SettingType → String
  | bool => "Bool"
  | string => "String"
  | int => "Int"
  | float => "Float"
  | unknown => "Unknown"

/-- A tag is a text, or an object that has it as the only key, with null under it. -/
def ofValue? : Value → Option SettingType
  | .string tag => some (ofTag tag)
  | .object [(tag, .null)] => some (ofTag tag)
  | _ => none

end SettingType

/-- A declared setting. -/
structure Setting where
  type : SettingType
  default? : Option Value

namespace Setting

/-! ## Raw values -/

/-- An integer, brought into the range of sixty-four bits with sign. -/
def clamp (i : Int) : Int :=
  max (-0x8000_0000_0000_0000) (min i (0x8000_0000_0000_0000 - 1))

/-- The integer of a number; a float loses its fraction. -/
def intOfNumber (n : Number) : Int :=
  match (Value.number n).integer? with
  | some i => i
  | none => clamp n.toDouble.truncate

/-- A sign, if there is one at the front, and the digits after it. -/
def leadingDigits (cs : List Char) : Bool × List Char :=
  let (negative, cs) := Literal.splitSign cs
  (negative, cs.takeWhile isDigit)

/-- The integer at the start of a text, after blanks: `" 14px"` reads as `14`. -/
def leadingInt? (s : String) : Option Int :=
  let (negative, digits) := leadingDigits (trimStart s.toList)
  let n : Int := if negative then -(digitsToNat digits : Int) else digitsToNat digits
  if digits.isEmpty then none
  else if -0x8000_0000_0000_0000 ≤ n ∧ n < 0x8000_0000_0000_0000 then some n
  else none

def int? : Value → Option Int
  | .number n => some (intOfNumber n)
  | .string s => leadingInt? s
  | _ => none

def float? : Value → Option Double
  | .number n => some n.toDouble
  | .string s => Double.ofChars? (trim s.toList)
  | _ => none

/-- Only `true` and its text are true. -/
def bool : Value → Bool
  | .string s => s = "true"
  | .bool b => b
  | _ => false

/-! ## Coercion -/

/-- The zero of a type. -/
def zero : SettingType → Value
  | .bool => .bool false
  | .int | .float => .nat 0
  | .string | .unknown => .null

def fallback (s : Setting) : Value :=
  s.default?.getD (zero s.type)

/-- A raw value that is not null, converted to a known type. -/
def convert? : SettingType → Value → Option Value
  | .bool, raw => some (.bool (bool raw))
  | .string, raw => some raw
  | .int, raw => (int? raw).map Value.ofInt
  | .float, raw => (float? raw).map fun x => .number (.float x)
  | .unknown, _ => some .null

/-- What the setting reads as when the host holds `raw`, or nothing. -/
def coerce (s : Setting) : Option Value → Value
  | none => s.fallback
  | some .null => s.fallback
  | some raw => (convert? s.type raw).getD s.fallback

/-! ## Declarations -/

/-- A declaration is a record of a type and a default; a null default is none. -/
def ofValue? (v : Value) : Option Setting := do
  match ← Record.slots? [["type"], ["default"]] v with
  | [type, fallback] =>
    let type ← Record.required? SettingType.ofValue? type
    let fallback ← Record.optional? some fallback
    pure ⟨type, fallback⟩
  | _ => none

end Setting
end EditorLink.Registry
