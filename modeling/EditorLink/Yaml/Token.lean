import EditorLink.Yaml.Scalar

/-!
# EditorLink.Yaml.Token -- the tokens of a text

Tokens make visible what indentation means: `Token.scan?` puts in where block sequences and block mappings begin and end, and it puts a
`key` token in front of what turns out to be the key of a mapping.

Whether something is a key is known only at the colon after it. Until then its place is kept as a **candidate**, one for each level of
brackets. A candidate lasts to the end of its line and for 1024 characters; one that stands where its block has its keys must find its colon.
-/

namespace EditorLink.Yaml

open Text

inductive Token where
  | documentStart
  | documentEnd
  | version (major minor : String)
  | tagHandle (handle lead : String)
  | blockSequenceStart
  | blockMappingStart
  | blockEnd
  | flowSequenceStart
  | flowSequenceEnd
  | flowMappingStart
  | flowMappingEnd
  | blockEntry
  | flowEntry
  | key
  | value
  | alias (name : String)
  | anchor (name : String)
  | tag (handle suffix : String)
  | scalar (plain : Bool) (text : String)
  deriving DecidableEq, Repr

namespace Token

/-! ## The state of scanning -/

/-- A place where a key may have begun. -/
structure Candidate where
  required : Bool
  /-- Tokens before it. -/
  place : Nat
  start : Cursor

structure Scanner where
  cursor : Cursor
  /-- Tokens so far, last first. -/
  tokens : List Token := []
  /-- The column of the innermost block, `-1` outside all blocks. -/
  indent : Int := -1
  /-- The columns of the blocks around it. -/
  outer : List Int := []
  /-- A key may begin here. -/
  keyAllowed : Bool := true
  candidate : Option Candidate := none
  /-- Candidates of the levels of brackets around, innermost first. -/
  outerCandidates : List (Option Candidate) := []

namespace Scanner

def inFlow (s : Scanner) : Bool :=
  !s.outerCandidates.isEmpty

def emit (s : Scanner) (t : Token) : Scanner :=
  { s with tokens := t :: s.tokens }

/-- Puts tokens behind the first `place` ones. -/
def insertAt (s : Scanner) (place : Nat) (ts : List Token) : Scanner :=
  let after := s.tokens.length - place
  { s with tokens := s.tokens.take after ++ ts.reverse ++ s.tokens.drop after }

def moved (s : Scanner) (c : Cursor) : Scanner :=
  { s with cursor := c }

/-! ## Blocks -/

/-- Opens a block at a column, unless it is that of a block already; its first token is put behind the first `place` ones. -/
def openBlock (s : Scanner) (column place : Nat) (t : Token) : Scanner :=
  if s.inFlow || (column : Int) ≤ s.indent then s
  else { s.insertAt place [t] with outer := s.indent :: s.outer, indent := column }

/-- Closes the blocks that begin to the right of a column. -/
def closeBlocks (column : Int) : (outer : List Int) → Scanner → Scanner
  | [], s => s
  | indent :: outer, s =>
    if s.inFlow || s.indent ≤ column then s
    else closeBlocks column outer { s.emit .blockEnd with indent, outer }

def closeTo (s : Scanner) (column : Int) : Scanner :=
  closeBlocks column s.outer s

/-! ## Candidates -/

/-- A candidate that is too old is none any more, which is wrong if a key was required. -/
def refresh? (here : Cursor) : Option Candidate → Option (Option Candidate)
  | none => some none
  | some k =>
    if k.start.line < here.line ∨ k.start.index + 1024 < here.index then
      if k.required then none else some none
    else some (some k)

def refreshAll (s : Scanner) : Option Scanner := do
  let candidate ← refresh? s.cursor s.candidate
  let outerCandidates ← s.outerCandidates.mapM (refresh? s.cursor)
  pure { s with candidate, outerCandidates }

/-- Gives the candidate of this level up. -/
def dropCandidate (s : Scanner) : Option Scanner :=
  match s.candidate with
  | some k => if k.required then none else some { s with candidate := none }
  | none => some s

/-- Notes that a key may begin here. -/
def noteCandidate (s : Scanner) : Option Scanner :=
  if s.keyAllowed then do
    let required := !s.inFlow && decide (s.indent = s.cursor.column)
    let s ← s.dropCandidate
    pure { s with candidate := some ⟨required, s.tokens.length, s.cursor⟩ }
  else some s

/-! ## Between tokens -/

/-- Moves to the next token, past blanks, comments and line breaks. Tabs do not count where a key may begin in a block. -/
def skipToToken : (fuel : Nat) → Scanner → Scanner
  | 0, s => s
  | fuel + 1, s =>
    let tabs := s.inFlow || !s.keyAllowed
    let c := s.cursor.skipWhile fun d => d = ' ' || (tabs && d = '\t')
    let c := if c.rest.head? = some '#' then c.skipWhile fun d => !isBreak d else c
    if !c.isAtEnd && startsBreak c.rest then
      skipToToken fuel { s with cursor := c.nextLine, keyAllowed := s.keyAllowed || !s.inFlow }
    else s.moved c

/-! ## Names and tags -/

/-- A name of at least one character, after which only certain characters may stand. -/
def readName (c : Cursor) : Option (String × Cursor) :=
  let name := c.rest.takeWhile isWordChar
  let after := c.skip name.length
  let mayFollow := match after.rest with
    | d :: _ => "?:,]%@\x60\x7d".toList.contains d
    | [] => false
  if name.isEmpty || !(startsBlank after.rest || mayFollow) then none
  else some (String.ofList name, after)

def isTagChar (verbatim : Bool) (c : Char) : Bool :=
  isWordChar c || ";/?:@&=+$.!~*'()".toList.contains c || (verbatim && ",[]".toList.contains c)

/-- The bytes of a tag's text; a percent sign and two hexadecimal digits stand for one. -/
def readTagBytes (verbatim : Bool) : (fuel : Nat) → List Char → Option (List UInt8 × List Char)
  | 0, _ => none
  | fuel + 1, cs =>
    match cs with
    | '%' :: rest =>
      match readHex? 2 rest with
      | some (n, rest) => (readTagBytes verbatim fuel rest).map fun (bs, rest) => (UInt8.ofNat n :: bs, rest)
      | none => none
    | c :: rest =>
      if isTagChar verbatim c then
        (readTagBytes verbatim fuel rest).map fun (bs, rest) => ((String.singleton c).toUTF8.toList ++ bs, rest)
      else some ([], c :: rest)
    | [] => some ([], [])

/-- The text of a tag or of part of one. -/
def readTagText (verbatim : Bool) (c : Cursor) : Option (String × Cursor) :=
  match readTagBytes verbatim (c.rest.length + 1) c.rest with
  | some (bytes, rest) =>
    (String.fromUTF8? bytes.toByteArray).map fun s => (s, c.skip (c.rest.length - rest.length))
  | none => none

/-- A handle at the cursor: `!`, or a word between two of them. -/
def readHandle? (c : Cursor) : Option (String × Cursor) :=
  match c.rest with
  | '!' :: rest =>
    let word := rest.takeWhile isWordChar
    match rest.drop word.length with
    | '!' :: _ => some (String.ofList ('!' :: word ++ ['!']), c.skip (word.length + 2))
    | _ => none
  | _ => none

/-- A tag: its handle and the rest of it. A tag between angle brackets has an empty handle, as has the tag `!`. -/
def readTag (c : Cursor) : Option ((String × String) × Cursor) :=
  match c.rest with
  | '!' :: '<' :: _ =>
    match readTagText true (c.skip 2) with
    | some (text, c) =>
      if text ≠ "" && c.rest.head? = some '>' then some (("", text), c.skip 1) else none
    | none => none
  | _ =>
    match readHandle? c with
    | some (handle, c) =>
      match readTagText false c with
      | some (text, c) => if text = "" then none else some ((handle, text), c)
      | none => none
    | none =>
      match readTagText false (c.skip 1) with
      | some (text, c) => some (if text = "" then ("", "!") else ("!", text), c)
      | none => none

/-! ## Directives -/

def readVersion (c : Cursor) : Option (Token × Cursor) :=
  let major := c.rest.takeWhile Char.isDigit
  let c := c.skip major.length
  let minor := c.rest.tail.takeWhile Char.isDigit
  if major.isEmpty || c.rest.head? ≠ some '.' || minor.isEmpty then none
  else some (.version (String.ofList major) (String.ofList minor), c.skip (minor.length + 1))

def readTagHandle (c : Cursor) : Option (Token × Cursor) :=
  let handle := match readHandle? c with
    | some r => some r
    | none => if c.rest.head? = some '!' then some ("!", c.skip 1) else none
  match handle with
  | none => none
  | some (handle, c) =>
    if c.isAtEnd || !startsBlank c.rest || startsBreak c.rest then none
    else
      match readTagText true (c.skipWhile isSpaceOrTab) with
      | some (text, c) => if text ≠ "" && startsBlank c.rest then some (.tagHandle handle text, c) else none
      | none => none

def readDirective (c : Cursor) : Option (Token × Cursor) :=
  let c := c.skip 1
  let name := c.rest.takeWhile isWordChar
  let c := c.skip name.length
  if name.isEmpty || !startsBlank c.rest then none
  else
    let body := c.skipWhile isSpaceOrTab
    let read := if name = "YAML".toList then readVersion body
      else if name = "TAG".toList then readTagHandle body
      else none
    match read with
    | none => none
    | some (t, c) =>
      let c := c.skipWhile isSpaceOrTab
      let c := if c.rest.head? = some '#' then c.skipWhile fun d => !isBreak d else c
      if startsBreak c.rest then some (t, if c.isAtEnd then c else c.nextLine) else none

/-! ## One token -/

/-- All blocks end here, and no key begins. -/
def endDocument (s : Scanner) : Option Scanner :=
  ((s.closeTo (-1)).dropCandidate).map fun s => { s with keyAllowed := false }

def fetchBracketOpen (s : Scanner) (t : Token) : Option Scanner :=
  s.noteCandidate.map fun s =>
    { s.emit t with
      outerCandidates := s.candidate :: s.outerCandidates, candidate := none
      keyAllowed := true, cursor := s.cursor.skip 1 }

def fetchBracketClose (s : Scanner) (t : Token) : Option Scanner :=
  s.dropCandidate.map fun s =>
    let s := match s.outerCandidates with
      | candidate :: outerCandidates => { s with candidate, outerCandidates }
      | [] => s
    { s.emit t with keyAllowed := false, cursor := s.cursor.skip 1 }

def fetchFlowEntry (s : Scanner) : Option Scanner :=
  s.dropCandidate.map fun s => { s.emit .flowEntry with keyAllowed := true, cursor := s.cursor.skip 1 }

def fetchBlockEntry (s : Scanner) : Option Scanner :=
  if !s.inFlow && !s.keyAllowed then none
  else
    (s.openBlock s.cursor.column s.tokens.length .blockSequenceStart).dropCandidate.map fun s =>
      { s.emit .blockEntry with keyAllowed := true, cursor := s.cursor.skip 1 }

/-- An explicit key. -/
def fetchKey (s : Scanner) : Option Scanner :=
  if !s.inFlow && !s.keyAllowed then none
  else
    (s.openBlock s.cursor.column s.tokens.length .blockMappingStart).dropCandidate.map fun s =>
      { s.emit .key with keyAllowed := !s.inFlow, cursor := s.cursor.skip 1 }

/-- A colon: what began at the candidate is a key. -/
def fetchValue (s : Scanner) : Option Scanner :=
  match s.candidate with
  | some k =>
    let s := (s.insertAt k.place [.key]).openBlock k.start.column k.place .blockMappingStart
    some { s.emit .value with candidate := none, keyAllowed := false, cursor := s.cursor.skip 1 }
  | none =>
    if !s.inFlow && !s.keyAllowed then none
    else
      let s := s.openBlock s.cursor.column s.tokens.length .blockMappingStart
      some { s.emit .value with keyAllowed := !s.inFlow, cursor := s.cursor.skip 1 }

/-- Something that may be the start of a key. -/
def fetchKeyable (s : Scanner) (read : Cursor → Option (Token × Cursor)) : Option Scanner := do
  let s ← s.noteCandidate
  let (t, c) ← read s.cursor
  pure { s.emit t with keyAllowed := false, cursor := c }

def fetchPlain (s : Scanner) : Option Scanner := do
  let s ← s.noteCandidate
  let (text, broken, c) ← readPlain s.inFlow (s.indent + 1) s.cursor
  pure { s.emit (.scalar true text) with keyAllowed := broken, cursor := c }

def fetchBlockScalar (s : Scanner) (folded : Bool) : Option Scanner := do
  let s ← s.dropCandidate
  let (text, c) ← readBlock s.indent folded s.cursor
  pure { s.emit (.scalar false text) with keyAllowed := true, cursor := c }

def fetchTag (s : Scanner) : Option Scanner :=
  s.fetchKeyable fun c =>
    match readTag c with
    | some ((handle, suffix), c) =>
      if startsBlank c.rest || (s.inFlow && c.rest.head? = some ',') then some (.tag handle suffix, c) else none
    | none => none

/-- A quoted scalar. -/
def fetchQuoted (s : Scanner) (read : Cursor → Option (String × Cursor)) : Option Scanner :=
  s.fetchKeyable fun c => (read (c.skip 1)).map fun (text, c) => (.scalar false text, c)

/-- No plain scalar begins with one of these. -/
def isIndicator (c : Char) : Bool :=
  "-?:,[]#&*!|>'\"%@\x60\x7b\x7d".toList.contains c

/-- A plain scalar begins with this text. -/
def startsPlain (inFlow : Bool) : List Char → Bool
  | [] => false
  | c :: cs =>
    if c = '-' then !(match cs with | d :: _ => isSpaceOrTab d | [] => false)
    else if c = '?' ∨ c = ':' then !inFlow && !startsBlank cs
    else !isSpaceOrTab c && !isBreak c && !isIndicator c

/-- The next token; the cursor is where it begins. -/
def fetch (s : Scanner) : Option Scanner :=
  let s := s.closeTo s.cursor.column
  let c := s.cursor
  match c.rest with
  | [] => none
  | d :: rest =>
    let behind := startsBlank rest
    if c.column = 0 && d = '%' then do
      let s ← s.endDocument
      let (t, c) ← readDirective s.cursor
      pure ((s.emit t).moved c)
    else if c.isAtDocumentMark then
      s.endDocument.map fun s => (s.emit (if d = '-' then .documentStart else .documentEnd)).moved (c.skip 3)
    else if d = '[' then s.fetchBracketOpen .flowSequenceStart
    else if d = '\x7b' then s.fetchBracketOpen .flowMappingStart
    else if d = ']' then s.fetchBracketClose .flowSequenceEnd
    else if d = '\x7d' then s.fetchBracketClose .flowMappingEnd
    else if d = ',' then s.fetchFlowEntry
    else if d = '-' && behind then s.fetchBlockEntry
    else if d = '?' && (s.inFlow || behind) then s.fetchKey
    else if d = ':' && (s.inFlow || behind) then s.fetchValue
    else if d = '*' then s.fetchKeyable fun c => (readName (c.skip 1)).map fun (n, c) => (.alias n, c)
    else if d = '&' then s.fetchKeyable fun c => (readName (c.skip 1)).map fun (n, c) => (.anchor n, c)
    else if d = '!' then s.fetchTag
    else if d = '|' && !s.inFlow then s.fetchBlockScalar false
    else if d = '>' && !s.inFlow then s.fetchBlockScalar true
    else if d = '\'' then s.fetchQuoted fun c => readSingle (c.rest.length + 1) [] c
    else if d = '"' then s.fetchQuoted fun c => readDouble (c.rest.length + 1) [] c
    else if startsPlain s.inFlow c.rest then s.fetchPlain
    else none

/-- All tokens from here on. -/
def run : (fuel : Nat) → Scanner → Option (List Token)
  | 0, _ => none
  | fuel + 1, s =>
    match (s.skipToToken (s.cursor.rest.length + 1)).refreshAll with
    | none => none
    | some s =>
      if s.cursor.isAtEnd then s.endDocument.map fun s => s.tokens.reverse
      else
        match s.fetch with
        | none => none
        | some s => run fuel s

end Scanner

/-! ## Texts -/

/-- A character that may stand in a text at all. -/
def isAllowed (c : Char) : Bool :=
  let n := c.toNat
  n = 0x09 || n = 0x0a || n = 0x0d || (0x20 ≤ n && n ≤ 0x7e) || n = 0x85 ||
    (0xa0 ≤ n && n ≤ 0xfffd && n ≠ 0xfeff) || 0x10000 ≤ n

/-- A mark of the byte order at the front of a text does not count. -/
def dropMark : List Char → List Char
  | '\ufeff' :: cs => cs
  | cs => cs

/-- The tokens of a text, unless it breaks a rule. -/
def scan? (text : String) : Option (List Token) :=
  let cs := dropMark text.toList
  if cs.all isAllowed then Scanner.run (cs.length + 2) { cursor := { rest := cs } } else none

end Token
end EditorLink.Yaml
