import EditorLink.Failure
import EditorLink.Keyed
import EditorLink.Text.Blank

/-!
# EditorLink.Configuration.Substitution -- references to environment variables

A **reference** is `$`, an opening brace, at least one character that is no closing brace, and a closing brace. What is between the braces is the
name of a variable or, when it has `:-` in it, a name and a fallback for the case that the variable is not set.

References are found in the given text, from left to right, none inside another. Their values are put in one reference after the other, and
each is put in wherever its reference stands in the text as it is then.
-/

namespace EditorLink.Configuration

open Text

/-- Variables and their values. -/
abbrev Environment := Keyed String

/-! ## References -/

/-- What stands between the braces of a reference. -/
structure Reference where
  inner : List Char
  deriving DecidableEq, Repr

namespace Reference

def opening : List Char := ['$', '\x7b']

def closing : Char := '\x7d'

/-- A reference as it is written. -/
def written (r : Reference) : List Char :=
  opening ++ r.inner ++ [closing]

/-- A reference at the front of a text, and what follows it. -/
def read? (cs : List Char) : Option (Reference × List Char) :=
  match dropLead? opening cs with
  | none => none
  | some rest =>
    match rest.span (· ≠ closing) with
    | ([], _) => none
    | (_, []) => none
    | (inner, _ :: after) => some (⟨inner⟩, after)

/-- The references in a text of at most `fuel` characters. -/
def findWithin : (fuel : Nat) → List Char → List Reference
  | 0, _ => []
  | _ + 1, [] => []
  | fuel + 1, c :: cs =>
    match read? (c :: cs) with
    | some (r, rest) => r :: findWithin fuel rest
    | none => findWithin fuel cs

/-- The references in a text, from left to right. -/
def find (cs : List Char) : List Reference :=
  findWithin cs.length cs

/-- What precedes the first `:-`, and what follows it. -/
def splitFallback : List Char → List Char × Option (List Char)
  | [] => ([], none)
  | ':' :: '-' :: fallback => ([], some fallback)
  | c :: cs =>
    let (name, fallback) := splitFallback cs
    (c :: name, fallback)

def name (r : Reference) : String :=
  String.ofList (splitFallback r.inner).1

def fallback? (r : Reference) : Option (List Char) :=
  (splitFallback r.inner).2

/-- What a reference stands for, if its variable is set or it has a fallback. -/
def value? (env : Environment) (r : Reference) : Option (List Char) :=
  match env.get? r.name with
  | some value => some value.toList
  | none => r.fallback?

end Reference

/-! ## Replacing -/

/-- A text of at most `fuel` characters with every occurrence of `pattern` replaced, from left to right. -/
def replaceWithin (pattern value : List Char) : (fuel : Nat) → List Char → List Char
  | 0, cs => cs
  | _ + 1, [] => []
  | fuel + 1, c :: cs =>
    match dropLead? pattern (c :: cs) with
    | some rest => value ++ replaceWithin pattern value fuel rest
    | none => c :: replaceWithin pattern value fuel cs

def replace (pattern value cs : List Char) : List Char :=
  replaceWithin pattern value cs.length cs

/-- Puts the values of some references into a text, one after the other. -/
def expandEach (env : Environment) : List Reference → List Char → Except ConfigError (List Char)
  | [], cs => .ok cs
  | r :: rest, cs =>
    match r.value? env with
    | some value => expandEach env rest (replace r.written value cs)
    | none => .error (.unsetVariable r.name)

/-- The text with its references replaced by their values. -/
def expand (env : Environment) (text : String) : Except ConfigError String :=
  let cs := text.toList
  (expandEach env (Reference.find cs) cs).map String.ofList

end EditorLink.Configuration
