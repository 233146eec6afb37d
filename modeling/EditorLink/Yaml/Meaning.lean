import EditorLink.Number.Literal
import EditorLink.Text.Hex
import EditorLink.Value
import EditorLink.Yaml.Node

/-!
# EditorLink.Yaml.Meaning -- what scalars and nodes stand for

A quoted scalar and a block are text. A plain scalar is null, a flag, an integer or a float if it is spelled like one, and text otherwise. A standard tag
asks for one of these; a tag of any other kind has no meaning here.

Integers may have more digits, and floats may be larger, than values can carry. What becomes of these is for the reader of the settings to
say, so `Node.toValue?` is given a function from scalars to values.
-/

namespace EditorLink.Yaml

open Text

inductive Meaning where
  | null
  | flag (b : Bool)
  | integer (i : Int)
  /-- A float; `none` for an infinity and for what is not a number. -/
  | float (x : Option Double)
  | text (s : String)

namespace Meaning

/-! ## Spellings -/

def isNull (s : String) : Bool :=
  s = "null" || s = "Null" || s = "NULL" || s = "~"

def flag? (s : String) : Option Bool :=
  if s = "true" ∨ s = "True" ∨ s = "TRUE" then some true
  else if s = "false" ∨ s = "False" ∨ s = "FALSE" then some false
  else none

/-- Several digits of which the first is zero are no number. -/
def isZeroPadded (cs : List Char) : Bool :=
  match (Literal.splitSign cs).2 with
  | '0' :: d :: ds => (d :: ds).all isDigit
  | _ => false

/-- The number that one or more digits write in a base. -/
def naturalIn? (base : Nat) (cs : List Char) : Option Nat :=
  if cs.isEmpty then none
  else cs.foldl (fun n c => match n, hexValue? c with
    | some n, some d => if d < base then some (n * base + d) else none
    | _, _ => none) (some 0)

/-- The number that unsigned digits write; `0x`, `0o` and `0b` tell the base. -/
def natural? : List Char → Option Nat
  | '0' :: 'x' :: cs => naturalIn? 16 cs
  | '0' :: 'o' :: cs => naturalIn? 8 cs
  | '0' :: 'b' :: cs => naturalIn? 2 cs
  | cs => naturalIn? 10 cs

/-- An integer of at most 128 bits. -/
def integer? (s : String) : Option Int :=
  let cs := s.toList
  if isZeroPadded cs then none
  else
    let (negative, unsigned) := Literal.splitSign cs
    match natural? unsigned with
    | some n =>
      if negative then (if n ≤ 0x8000_0000_0000_0000_0000_0000_0000_0000 then some (-(n : Int)) else none)
      else if n < 0x1_0000_0000_0000_0000_0000_0000_0000_0000 then some n else none
    | none => none

def isInfinity (s : String) : Bool :=
  s = ".inf" || s = ".Inf" || s = ".INF"

def isNotNumber (s : String) : Bool :=
  s = ".nan" || s = ".NaN" || s = ".NAN"

/-- A float; the outer `none` is a text that is none. -/
def float? (s : String) : Option (Option Double) :=
  let cs := s.toList
  let unsigned := String.ofList (Literal.splitSign cs).2
  if isInfinity unsigned || isNotNumber s then some none
  else
    let digits := if cs.head? = some '+' then cs.tail else cs
    if cs.head? = some '+' ∧ (Literal.splitSign digits).2 ≠ digits then none
    else (Double.ofChars? digits).map some

/-! ## Scalars -/

def ofPlain (s : String) : Meaning :=
  if s = "" || isNull s then .null
  else match flag? s with
    | some b => .flag b
    | none =>
      match integer? s with
      | some i => .integer i
      | none =>
        if isZeroPadded s.toList then .text s
        else match float? s with
          | some x => .float x
          | none => .text s

/-- A scalar with a standard tag means what the tag says, if it is spelled so. -/
def ofTagged (name : String) (s : String) : Option Meaning :=
  if name = "bool" then (flag? s).map .flag
  else if name = "int" then (integer? s).map .integer
  else if name = "float" then (float? s).map .float
  else if name = "null" then (if isNull s then some .null else none)
  else some (.text s)

/-- What a scalar means; tags that start with `!` have no meaning. -/
def ofScalar? (tag : Option String) (plain : Bool) (s : String) : Option Meaning :=
  match tag with
  | none => some (if plain then ofPlain s else .text s)
  | some tag =>
    if tag.startsWith "!" then none
    else match dropLead? Node.standardTags.toList tag.toList with
      | some name => ofTagged (String.ofList name) s
      | none => some (.text s)

end Meaning

/-! ## Nodes -/

namespace Node

/-- The deepest nesting of nodes that are read as values. -/
def maxDepth : Nat := 128

/-- The text of a scalar, whatever it means. -/
def text? : Node → Option String
  | .scalar _ _ s => some s
  | _ => none

/-- The entries of a mapping by the texts of their keys. An empty scalar is an empty mapping. -/
def entries? : Node → Option (List (String × Node))
  | .mapping _ entries => entries.mapM fun (e : Node × Node) => (text? e.1).map fun key => (key, e.2)
  | .scalar _ _ "" => some []
  | _ => none

def hasOwnTag : Option String → Bool
  | some tag => tag.startsWith "!"
  | none => false

/-- The value of a node with at most `depth` containers nested; keys are texts, and of equal ones the last counts. -/
def toValueWithin (ofMeaning : Meaning → Option Value) : (depth : Nat) → Node → Option Value
  | _, .scalar tag plain s => (Meaning.ofScalar? tag plain s).bind ofMeaning
  | 0, _ => none
  | depth + 1, .sequence tag items =>
    if hasOwnTag tag then none else (items.mapM (toValueWithin ofMeaning depth)).map .array
  | depth + 1, .mapping tag entries =>
    if hasOwnTag tag then none
    else (entries.mapM fun (e : Node × Node) => do
      let key ← text? e.1
      let value ← toValueWithin ofMeaning depth e.2
      pure (key, value)).map Value.ofFields

def toValue? (ofMeaning : Meaning → Option Value) (n : Node) : Option Value :=
  toValueWithin ofMeaning maxDepth n

end Node
end EditorLink.Yaml
