import EditorLink.Value

/-!
# EditorLink.Registry.Condition -- the comparisons behind a context

The host asks whether a named condition holds by sending an operator and a value. `Operator.holds` is the usual answer: equality is
structural, order exists between two numbers (as `Double`s) and between two texts, and everything else is unordered, so
that every ordering operator fails on it. An operator that is none of the six never holds.
-/

namespace EditorLink.Registry

inductive Operator where
  | eq
  | notEq
  | greater
  | greaterOrEq
  | less
  | lessOrEq
  /-- Any other text. -/
  | other (text : String)
  deriving DecidableEq, Repr

namespace Operator

def ofText (s : String) : Operator :=
  if s = "==" then eq
  else if s = "!=" then notEq
  else if s = ">" then greater
  else if s = ">=" then greaterOrEq
  else if s = "<" then less
  else if s = "<=" then lessOrEq
  else other s

def text : Operator → String
  | eq => "=="
  | notEq => "!="
  | greater => ">"
  | greaterOrEq => ">="
  | less => "<"
  | lessOrEq => "<="
  | other s => s

def isKnown : Operator → Bool
  | other _ => false
  | _ => true

/-- How two values are ordered, if they are. -/
def order? : Value → Value → Option Ordering
  | .number m, .number n => some (compare m.toDouble.orderKey n.toDouble.orderKey)
  | .string s, .string t => some (compare s t)
  | _, _ => none

/-- Whether `key op value` holds. -/
def holds (op : Operator) (key value : Value) : Bool :=
  match op with
  | eq => key.same value
  | notEq => !key.same value
  | greater => order? key value = some .gt
  | greaterOrEq => order? key value = some .gt || order? key value = some .eq
  | less => order? key value = some .lt
  | lessOrEq => order? key value = some .lt || order? key value = some .eq
  | other _ => false

end Operator
end EditorLink.Registry
