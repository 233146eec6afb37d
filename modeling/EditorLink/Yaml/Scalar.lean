import EditorLink.Text.Hex
import EditorLink.Yaml.Cursor

/-!
# EditorLink.Yaml.Scalar -- the texts of scalars

A scalar is written plain, between quotes, or as a block of indented lines. In plain and quoted scalars, and in folded blocks, a single line
break is read as a space, and of several line breaks the first does not count. Each reader here starts at the first character of a scalar and gives
its text and the cursor behind it; it gives nothing where the text breaks the rules.
-/

namespace EditorLink.Yaml

open Text

/-! ## Gaps -/

/-- Blanks and line breaks between two words of a scalar. -/
structure Gap where
  /-- Blanks before the first line break. -/
  blanks : List Char := []
  /-- There is a line break in the gap, or an escaped one before it. -/
  broken : Bool := false
  first : List Char := []
  /-- The line breaks after the first. -/
  more : List Char := []

namespace Gap

/-- What a gap is read as when a word follows. -/
def text (g : Gap) : List Char :=
  if !g.broken then g.blanks
  else if g.first = ['\n'] then (if g.more.isEmpty then [' '] else g.more)
  else g.first ++ g.more

def withBreak (g : Gap) (c : Cursor) : Gap :=
  if g.broken then { g with more := g.more ++ c.breakText }
  else { g with blanks := [], broken := true, first := c.breakText }

/-- The rest of a gap. Behind a line break, no tab may stand at a column below `indent`. -/
def read (indent : Int) : (fuel : Nat) → Gap → Cursor → Option (Gap × Cursor)
  | 0, g, c => some (g, c)
  | fuel + 1, g, c =>
    match c.rest with
    | [] => some (g, c)
    | d :: _ =>
      if isBreak d then read indent fuel (g.withBreak c) c.nextLine
      else if !isSpaceOrTab d then some (g, c)
      else if g.broken then (if d = '\t' ∧ c.column < indent then none else read indent fuel g (c.skip 1))
      else read indent fuel { g with blanks := g.blanks ++ [d] } (c.skip 1)

end Gap

/-! ## Plain scalars -/

def isFlowIndicator (c : Char) : Bool :=
  c = ',' || c = '[' || c = ']' || c = '\x7b' || c = '\x7d'

/-- A plain scalar inside brackets may not have a colon right before one of these. -/
def isAfterColon : List Char → Bool
  | c :: _ => isFlowIndicator c || c = '?'
  | [] => false

/-- The characters of a word, last first; `inFlow` says that it stands inside brackets. -/
def readWord (inFlow : Bool) : (taken : List Char) → List Char → Option (List Char)
  | taken, [] => some taken
  | taken, c :: cs =>
    if isSpaceOrTab c || isBreak c then some taken
    else if c = ':' && inFlow && isAfterColon cs then none
    else if (c = ':' && startsBlank cs) || (inFlow && isFlowIndicator c) then some taken
    else readWord inFlow (c :: taken) cs

/-- Words, the characters before them being `taken` and the gap before them `gap`. The result also says whether the scalar is followed by a
line break that belongs to no gap of it. -/
def readWords (inFlow : Bool) (indent : Int) :
    (fuel : Nat) → (taken : List Char) → Gap → Cursor → Option (List Char × Bool × Cursor)
  | 0, _, _, _ => none
  | fuel + 1, taken, gap, c =>
    if c.isAtDocumentMark || c.rest.head? = some '#' then some (taken, gap.broken, c)
    else
      match readWord inFlow [] c.rest with
      | none => none
      | some word =>
        let taken' := if word.isEmpty then taken else word ++ gap.text.reverse ++ taken
        let gap := if word.isEmpty then gap else {}
        let c := c.skip word.length
        if c.isAtEnd || !startsBlank c.rest then some (taken', gap.broken, c)
        else
          match Gap.read indent c.rest.length gap c with
          | none => none
          | some (gap, c) =>
            if !inFlow && c.column < indent then some (taken', gap.broken, c)
            else readWords inFlow indent fuel taken' gap c

/-- A plain scalar inside a block whose lines are indented by `indent` at least. -/
def readPlain (inFlow : Bool) (indent : Int) (c : Cursor) : Option (String × Bool × Cursor) :=
  (readWords inFlow indent (c.rest.length + 1) [] {} c).map fun (taken, broken, c) =>
    (String.ofList taken.reverse, broken, c)

/-! ## Quoted scalars -/

/-- What a letter names after a backslash. -/
def simpleEscape? : Char → Option Char
  | '0' => some '\x00'
  | 'a' => some '\x07'
  | 'b' => some '\x08'
  | 't' => some '\t'
  | '\t' => some '\t'
  | 'n' => some '\n'
  | 'v' => some '\x0b'
  | 'f' => some '\x0c'
  | 'r' => some '\r'
  | 'e' => some '\x1b'
  | ' ' => some ' '
  | '"' => some '"'
  | '/' => some '/'
  | '\\' => some '\\'
  | 'N' => some '\u0085'
  | '_' => some '\u00a0'
  | 'L' => some '\u2028'
  | 'P' => some '\u2029'
  | _ => none

/-- What follows a backslash: a character, and how many characters name it. -/
def readEscape : List Char → Option (Char × Nat)
  | 'x' :: cs => (readCodePoint? 2 cs).map fun (c, _) => (c, 3)
  | 'u' :: cs => (readCodePoint? 4 cs).map fun (c, _) => (c, 5)
  | 'U' :: cs => (readCodePoint? 8 cs).map fun (c, _) => (c, 9)
  | c :: _ => (simpleEscape? c).map fun c => (c, 1)
  | [] => none

/-- The rest of a scalar between double quotes; `taken` are its characters so far, last first. -/
def readDouble : (fuel : Nat) → (taken : List Char) → Cursor → Option (String × Cursor)
  | 0, _, _ => none
  | fuel + 1, taken, c =>
    match c.rest with
    | [] => none
    | '"' :: _ => some (String.ofList taken.reverse, c.skip 1)
    | '\\' :: rest =>
      if !rest.isEmpty && startsBreak rest then
        match Gap.read 0 rest.length { broken := true } (c.skip 1).nextLine with
        | some (gap, c) => if c.isAtDocumentMark then none else readDouble fuel (gap.text.reverse ++ taken) c
        | none => none
      else
        match readEscape rest with
        | some (d, n) => readDouble fuel (d :: taken) (c.skip (n + 1))
        | none => none
    | d :: _ =>
      if isSpaceOrTab d || isBreak d then
        match Gap.read 0 c.rest.length {} c with
        | some (gap, c) => if c.isAtDocumentMark then none else readDouble fuel (gap.text.reverse ++ taken) c
        | none => none
      else readDouble fuel (d :: taken) (c.skip 1)

/-- The rest of a scalar between single quotes, in which two of them stand for one. -/
def readSingle : (fuel : Nat) → (taken : List Char) → Cursor → Option (String × Cursor)
  | 0, _, _ => none
  | fuel + 1, taken, c =>
    match c.rest with
    | [] => none
    | '\'' :: '\'' :: _ => readSingle fuel ('\'' :: taken) (c.skip 2)
    | '\'' :: _ => some (String.ofList taken.reverse, c.skip 1)
    | d :: _ =>
      if isSpaceOrTab d || isBreak d then
        match Gap.read 0 c.rest.length {} c with
        | some (gap, c) => if c.isAtDocumentMark then none else readSingle fuel (gap.text.reverse ++ taken) c
        | none => none
      else readSingle fuel (d :: taken) (c.skip 1)

/-! ## Blocks -/

/-- What happens to the line breaks at the end of a block. -/
inductive Chomping where
  | strip
  | clip
  | keep
  deriving DecidableEq, Repr

structure BlockHeader where
  folded : Bool
  chomping : Chomping := .clip
  /-- Indentation beyond that of the surrounding block, where it is given. -/
  increment : Option Nat := none

def chompingOf? : Char → Option Chomping
  | '+' => some .keep
  | '-' => some .strip
  | _ => none

def incrementOf? (c : Char) : Option Nat :=
  if '1' ≤ c ∧ c ≤ '9' then some (c.toNat - '0'.toNat) else none

/-- One indicator at the cursor, if there is one of a kind that was not given yet. -/
def readIndicator (h : BlockHeader) (c : Cursor) : BlockHeader × Cursor :=
  match c.rest with
  | [] => (h, c)
  | d :: _ =>
    match h.chomping, chompingOf? d, h.increment, incrementOf? d with
    | .clip, some chomping, _, _ => ({ h with chomping }, c.skip 1)
    | _, _, none, some n => ({ h with increment := some n }, c.skip 1)
    | _, _, _, _ => (h, c)

/-- The indicators after `|` or `>`, in either order, each at most once. -/
def readHeader (folded : Bool) (c : Cursor) : BlockHeader × Cursor :=
  let (h, c) := readIndicator { folded } c
  readIndicator h c

/-- Line breaks and indentation before a line of a block: the breaks, the largest column that was reached, and the cursor. Indentation is at
most `limit`, and no tab may stand in it. -/
def readBreaks (limit : Option Nat) :
    (fuel : Nat) → (breaks : List Char) → (widest : Nat) → Cursor → Option (List Char × Nat × Cursor)
  | 0, breaks, widest, c => some (breaks, widest, c)
  | fuel + 1, breaks, widest, c =>
    let spaces := (c.rest.takeWhile (· = ' ')).length
    let c := c.skip (match limit with
      | some limit => min spaces (limit - c.column)
      | none => spaces)
    let widest := max widest c.column
    let indenting := match limit with
      | some limit => decide (c.column < limit)
      | none => true
    match c.rest with
    | [] => some (breaks, widest, c)
    | d :: _ =>
      if indenting && d = '\t' then none
      else if isBreak d then readBreaks limit fuel (breaks ++ c.breakText) widest c.nextLine
      else some (breaks, widest, c)

/-- The text of a block as far as it has been read. -/
structure BlockText where
  /-- Last character first. -/
  taken : List Char := []
  /-- The line break after the last line. -/
  first : List Char := []
  /-- The line breaks after that one. -/
  more : List Char := []
  /-- The last line starts with a blank. -/
  blankLine : Bool := false

namespace BlockText

/-- The text before a further line, which starts with a blank or not. -/
def joined (b : BlockText) (folded blankNext : Bool) : List Char :=
  if folded && b.first = ['\n'] && !b.blankLine && !blankNext then
    b.more.reverse ++ (if b.more.isEmpty then [' '] else []) ++ b.taken
  else b.more.reverse ++ b.first.reverse ++ b.taken

/-- The whole text, when no further line follows. -/
def finished (b : BlockText) : Chomping → List Char
  | .strip => b.taken
  | .clip => b.first.reverse ++ b.taken
  | .keep => b.more.reverse ++ b.first.reverse ++ b.taken

/-- The lines at column `indent`. -/
def read (h : BlockHeader) (indent : Nat) : (fuel : Nat) → BlockText → Cursor → Option (BlockText × Cursor)
  | 0, b, c => some (b, c)
  | fuel + 1, b, c =>
    match c.rest with
    | [] => some (b, c)
    | d :: _ =>
      if c.column ≠ indent then some (b, c)
      else
        let blankNext := isSpaceOrTab d
        let line := c.rest.takeWhile fun e => !isBreak e
        let behind := c.skip line.length
        match readBreaks (some indent) (behind.rest.length + 1) [] 0 behind.nextLine with
        | none => none
        | some (more, _, next) =>
          read h indent fuel
            { taken := line.reverse ++ b.joined h.folded blankNext
              first := behind.breakText
              more
              blankLine := blankNext } next

end BlockText

/-- A block scalar from its `|` or `>` on, inside a block with this indentation. -/
def readBlock (indent : Int) (folded : Bool) (c : Cursor) : Option (String × Cursor) :=
  let (h, c) := readHeader folded (c.skip 1)
  let c := c.skipWhile isSpaceOrTab
  let c := if c.rest.head? = some '#' then c.skipWhile fun d => !isBreak d else c
  if !startsBreak c.rest then none
  else
    let c := c.nextLine
    let given := h.increment.map fun n => if 0 ≤ indent then indent.toNat + n else n
    match readBreaks given (c.rest.length + 1) [] 0 c with
    | none => none
    | some (more, widest, c) =>
      let own := given.getD (max (max widest (indent + 1).toNat) 1)
      match BlockText.read h own (c.rest.length + 1) { more } c with
      | none => none
      | some (b, c) => some (String.ofList (b.finished h.chomping).reverse, c)

end EditorLink.Yaml
