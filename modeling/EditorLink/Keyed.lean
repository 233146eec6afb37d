/-!
# EditorLink.Keyed -- lists of named things

A `Keyed` list pairs texts with things. The ones built here are **ordered**: every key is below all later ones, in the order of
code points, so that a key occurs once and the list is determined by what it maps.
-/

namespace EditorLink

abbrev Keyed (α : Type) := List (String × α)

namespace Keyed

variable {α : Type}

/-- What is kept under a key. -/
def get? (list : Keyed α) (key : String) : Option α :=
  (list.find? (·.1 = key)).map (·.2)

def contains (list : Keyed α) (key : String) : Bool :=
  list.any (·.1 = key)

def keys (list : Keyed α) : List String :=
  list.map (·.1)

/-- The list with one thing put under a key, in the place that the order gives it. -/
def insert (key : String) (value : α) : Keyed α → Keyed α
  | [] => [(key, value)]
  | (k, v) :: rest =>
    if key < k then (key, value) :: (k, v) :: rest
    else if key = k then (key, value) :: rest
    else (k, v) :: insert key value rest

def erase (list : Keyed α) (key : String) : Keyed α :=
  list.filter (·.1 ≠ key)

/-- `f` in front of a list, unless the list starts with the key of `f` already. -/
def pushUnlessHead (f : String × α) : Keyed α → Keyed α
  | [] => [f]
  | g :: rest => if f.1 = g.1 then g :: rest else f :: g :: rest

/-- Of neighbours with one key, only the last is kept. -/
def keepLast (list : Keyed α) : Keyed α :=
  list.foldr pushUnlessHead []

/-- The ordered list of some pairs. Of pairs with one key, the last stays. -/
def ofList (list : Keyed α) : Keyed α :=
  keepLast (list.mergeSort fun f g => f.1 ≤ g.1)

/-- Every key is below all later ones. -/
def Ordered (list : Keyed α) : Prop :=
  list.Pairwise fun f g => f.1 < g.1

end Keyed
end EditorLink
