import EditorLink.Configuration.Substitution
import EditorLink.Toml.Reader
import EditorLink.Value

/-!
# EditorLink.Configuration.Variables -- settings in environment variables

A variable whose name starts with `EXT_BRIDGE_`, in letters of either case, gives a setting. The rest of its name, in lower case, is the path to the
setting; two underscores separate the parts, as does a point.

The value is read by a small grammar of flags, numbers, lists in brackets, tables in braces and quoted text. A value that does not
follow the grammar to its end is text as it stands.
-/

namespace EditorLink.Configuration

open Text

namespace Variables

/-- Something read, and what follows it. -/
abbrev Reading (α : Type) := Option (α × List Char)

/-! ## Values -/

def isSpace (c : Char) : Bool :=
  c = ' ' || c = '\t' || c = '\n' || c = '\x0c' || c = '\r'

def skipSpace (cs : List Char) : List Char :=
  cs.dropWhile isSpace

/-- A character that ends a bare value. -/
def isSeparator (c : Char) : Bool :=
  c = ',' || c = '[' || c = ']' || c = '\x7b' || c = '\x7d'

/-- A bare value: a float if it has a point, an integer, or else text. Settings have no floats, so one beyond the range of the format may as well
be zero. -/
def bare (cs : List Char) : Value :=
  let float := if cs.contains '.' then Literal.ofChars? cs else none
  match float with
  | some l => .number (.float (l.double?.getD default))
  | none =>
    match (intOfChars? cs).bind Number.ofInt? with
    | some n => .number n
    | none => .string (String.ofList cs)

/-- What a letter names after a backslash between single quotes. -/
def escape? : Char → Option Char
  | 'n' => some '\n'
  | 'r' => some '\r'
  | 't' => some '\t'
  | '0' => some '\x00'
  | '\\' => some '\\'
  | '\'' => some '\''
  | _ => none

/-- One character between single quotes. -/
def readCharacter : List Char → Reading Value
  | '\'' :: '\\' :: c :: '\'' :: rest => (escape? c).map fun c => (.string (String.singleton c), rest)
  | '\'' :: c :: '\'' :: rest => some (.string (String.singleton c), rest)
  | _ => none

/-- Items up to a closing character, with commas between them; a comma may stand before the end. -/
def readSeries {α : Type} (close : Char) (item : List Char → Reading α) :
    (fuel : Nat) → (taken : List α) → List Char → Reading (List α)
  | 0, _, _ => none
  | fuel + 1, taken, cs =>
    if cs.head? = some close then some (taken.reverse, cs.tail)
    else
      match item cs with
      | none => none
      | some (a, rest) =>
        if rest.head? = some ',' then readSeries close item fuel (a :: taken) rest.tail
        else if rest.head? = some close then some ((a :: taken).reverse, rest.tail)
        else none

/-- The key of a pair: quoted, or letters, digits, `_` and `-`. -/
def readKey (cs : List Char) : Reading String :=
  match cs with
  | '"' :: rest => Toml.readBasic (rest.length + 1) [] rest
  | _ =>
    match cs.span Toml.isBareKey with
    | ([], _) => none
    | (key, rest) => some (String.ofList key, rest)

/-- A key, an equals sign and a value. -/
def readPair (value : List Char → Reading Value) (cs : List Char) : Reading (String × Value) :=
  match readKey (skipSpace cs) with
  | none => none
  | some (key, rest) =>
    match skipSpace rest with
    | '=' :: rest => (value rest).map fun (v, rest) => ((key, v), rest)
    | _ => none

/-- A value and the blanks around it. -/
def readValue : (fuel : Nat) → List Char → Reading Value
  | 0, _ => none
  | fuel + 1, cs =>
    let read : Reading Value := match skipSpace cs with
      | 't' :: 'r' :: 'u' :: 'e' :: rest => some (.bool true, rest)
      | 'f' :: 'a' :: 'l' :: 's' :: 'e' :: rest => some (.bool false, rest)
      | '\x7b' :: rest =>
        (readSeries '\x7d' (readPair (readValue fuel)) (rest.length + 1) [] rest).map fun (fs, rest) =>
          (Value.ofFields fs, rest)
      | '[' :: rest =>
        (readSeries ']' (readValue fuel) (rest.length + 1) [] rest).map fun (vs, rest) => (.array vs, rest)
      | '"' :: rest => (Toml.readBasic (rest.length + 1) [] rest).map fun (s, rest) => (.string s, rest)
      | '\'' :: rest => readCharacter ('\'' :: rest)
      | cs => some (bare (trim (cs.takeWhile fun c => !isSeparator c)), cs.dropWhile fun c => !isSeparator c)
    read.map fun (v, rest) => (v, skipSpace rest)

/-- What the value of a variable stands for. -/
def valueOf (text : String) : Value :=
  let cs := text.toList
  match readValue (cs.length + 1) cs with
  | some (v, []) => v
  | _ => .string text

/-! ## Names -/

def lowered (s : String) : List Char :=
  s.toList.map Char.toLower

def lead : List Char := "ext_bridge_".toList

/-- The parts of a path; none of them may be empty. -/
def splitPath : List Char → List (List Char)
  | [] => [[]]
  | '_' :: '_' :: cs => [] :: splitPath cs
  | '.' :: cs => [] :: splitPath cs
  | c :: cs =>
    match splitPath cs with
    | part :: rest => (c :: part) :: rest
    | [] => [[c]]

/-- The path to the setting that a variable of this name gives, if it gives one. -/
def path? (name : String) : Option (List String) :=
  match dropLead? lead (lowered name) with
  | none => none
  | some rest =>
    let parts := splitPath rest
    if parts.any List.isEmpty then none else some (parts.map String.ofList)

/-! ## All variables -/

/-- A value at the end of a path of objects. -/
def nested : (path : List String) → Value → Value
  | [], v => v
  | p :: path, v => .object [(p, nested path v)]

end Variables

mutual
/-- A value with a later one put over it: key by key where both are objects, and otherwise as a whole. -/
def overlay : (base later : Value) → Value
  | .object base, .object later => .object (overlayFields base later)
  | _, later => later

def overlayFields (base : Fields) : (later : Fields) → Fields
  | [] => base
  | (key, v) :: rest =>
    overlayFields (Keyed.insert key (match Keyed.get? base key with
      | some b => overlay b v
      | none => v) base) rest
end

/-- The settings that the variables give. -/
def Variables.settings (env : Environment) : Value :=
  env.foldl (fun v entry =>
    match Variables.path? entry.1 with
    | some path => overlay v (Variables.nested path (Variables.valueOf entry.2))
    | none => v) (.object [])

end EditorLink.Configuration
