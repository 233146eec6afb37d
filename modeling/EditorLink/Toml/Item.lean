import EditorLink.Keyed
import EditorLink.Number.Double

/-!
# EditorLink.Toml.Item -- what a TOML document holds

A document is a table, and it is written in pieces: pairs put values into the table of the last header, headers open tables, and
dotted keys open tables on the way to the last part. Whether a piece may still add to a table depends on how the table came about, so every table
carries its **origin**.

* A header opens a table once. A table that exists only because it lies on the way to a header's table may still get a header of its own.
* A dotted key adds to tables that dotted keys have opened, and passes through tables that lie on the way to a header's.
* A table that is written as a value is complete.
-/

namespace EditorLink.Toml

inductive Scalar where
  | text (s : String)
  | integer (i : Int)
  /-- A float; `none` for an infinity and for what is not a number. -/
  | float (x : Option Double)
  | flag (b : Bool)
  /-- A date, a time or both, as it is written. -/
  | date (written : String)

/-- How a table came about. -/
inductive Origin where
  | header
  /-- It lies on the way to the table of a header. -/
  | passed
  | dotted
  /-- It is written as a value. -/
  | value
  deriving DecidableEq, Repr

inductive Item where
  | scalar (s : Scalar)
  | list (items : List Item)
  | table (origin : Origin) (entries : List (String × Item))
  /-- The tables of one array header, the last one first. -/
  | tables (latest : List (String × Item)) (earlier : List (List (String × Item)))

abbrev Table := Keyed Item

namespace Table

/-! ## Pairs -/

/-- The table after a pair whose key, behind `path`, is `key`; `dotted` says that dotted keys have opened the table itself. -/
def addPairWithin (key : String) (item : Item) : (path : List String) → (dotted : Bool) → Table → Option Table
  | [], dotted, t => if dotted && !t.contains key then some (t.insert key item) else none
  | p :: path, _, t =>
    match t.get? p with
    | none => (addPairWithin key item path true []).map fun u => t.insert p (.table .dotted u)
    | some (.table .dotted u) =>
      (addPairWithin key item path true u).map fun u => t.insert p (.table .dotted u)
    | some (.table .passed u) =>
      (addPairWithin key item path false u).map fun u => t.insert p (.table .passed u)
    | some (.tables u earlier) =>
      (addPairWithin key item path false u).map fun u => t.insert p (.tables u earlier)
    | some _ => none

/-- The table after a pair, unless the key is taken or leads into a table that dotted keys may not add to. -/
def addPair (path : List String) (key : String) (item : Item) (t : Table) : Option Table :=
  addPairWithin key item path true t

/-! ## Headers -/

/-- Changes the table that a header's path leads to. An array of tables is entered at its latest one, and tables that are not there are
opened. -/
def changeAt (change : Table → Option Table) : (path : List String) → Table → Option Table
  | [], t => change t
  | p :: path, t =>
    match t.get? p with
    | none => (changeAt change path []).map fun u => t.insert p (.table .passed u)
    | some (.table .value _) => none
    | some (.table origin u) => (changeAt change path u).map fun u => t.insert p (.table origin u)
    | some (.tables u earlier) => (changeAt change path u).map fun u => t.insert p (.tables u earlier)
    | some _ => none

/-- Opens the table of a header at its last key. -/
def openTable (key : String) (t : Table) : Option Table :=
  match t.get? key with
  | none => some (t.insert key (.table .header []))
  | some (.table .passed u) => some (t.insert key (.table .header u))
  | some _ => none

/-- Opens the next table of an array of tables. -/
def openElement (key : String) (t : Table) : Option Table :=
  match t.get? key with
  | none => some (t.insert key (.tables [] []))
  | some (.tables latest earlier) => some (t.insert key (.tables [] (latest :: earlier)))
  | some _ => none

end Table
end EditorLink.Toml
