/-!
# EditorLink.Yaml.Cursor -- a place in a text

Where a line begins and how far something stands from its beginning carry meaning in YAML, so the reader moves a **cursor**, which knows its line
and its column.
-/

namespace EditorLink.Yaml

/-! ## Character classes -/

def isSpaceOrTab (c : Char) : Bool :=
  c = ' ' || c = '\t'

def isBreak (c : Char) : Bool :=
  c = '\n' || c = '\r' || c = '\u0085' || c = '\u2028' || c = '\u2029'

/-- Letters, digits, `_` and `-`: what names of anchors and directives consist of. -/
def isWordChar (c : Char) : Bool :=
  ('a' ≤ c && c ≤ 'z') || ('A' ≤ c && c ≤ 'Z') || ('0' ≤ c && c ≤ '9') || c = '_' || c = '-'

/-- A text starts with a blank or a line break, or is at its end. -/
def startsBlank : List Char → Bool
  | [] => true
  | c :: _ => isSpaceOrTab c || isBreak c

/-- A text starts with a line break, or is at its end. -/
def startsBreak : List Char → Bool
  | [] => true
  | c :: _ => isBreak c

/-! ## Moving -/

structure Cursor where
  rest : List Char
  line : Nat := 0
  column : Nat := 0
  /-- Characters before the cursor. -/
  index : Nat := 0

namespace Cursor

/-- Past some characters of the line. -/
def skip (c : Cursor) (n : Nat) : Cursor :=
  { c with rest := c.rest.drop n, column := c.column + n, index := c.index + n }

/-- Past the characters of the line that a test holds for. -/
def skipWhile (c : Cursor) (test : Char → Bool) : Cursor :=
  c.skip (c.rest.takeWhile test).length

/-- Past one line break. -/
def nextLine (c : Cursor) : Cursor :=
  match c.rest with
  | '\r' :: '\n' :: rest => ⟨rest, c.line + 1, 0, c.index + 2⟩
  | _ :: rest => ⟨rest, c.line + 1, 0, c.index + 1⟩
  | [] => c

/-- The text that a line break at the cursor stands for. -/
def breakText (c : Cursor) : List Char :=
  match c.rest with
  | [] => []
  | '\u2028' :: _ => ['\u2028']
  | '\u2029' :: _ => ['\u2029']
  | _ => ['\n']

def isAtEnd (c : Cursor) : Bool :=
  c.rest.isEmpty

/-- A line `---` or `...` begins here, with or without something behind a blank. -/
def isAtDocumentMark (c : Cursor) : Bool :=
  c.column = 0 &&
    match c.rest with
    | '-' :: '-' :: '-' :: rest => startsBlank rest
    | '.' :: '.' :: '.' :: rest => startsBlank rest
    | _ => false

end Cursor
end EditorLink.Yaml
