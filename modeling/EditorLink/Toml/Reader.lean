import EditorLink.Number.Literal
import EditorLink.Text.Blank
import EditorLink.Text.Hex
import EditorLink.Toml.Item

/-!
# EditorLink.Toml.Reader -- reading TOML 1.0 text

`read?` reads a whole text as one document. A line holds a pair, a header, or nothing, and perhaps a comment. At most 79 containers may be
nested, and a key may have at most 79 parts.

Nesting is followed by recursion on the depth that is left; everything that repeats is bounded by the length of the text, because each
repetition takes at least one character.
-/

namespace EditorLink.Toml

open Text

/-- Something read, and what follows it. -/
abbrev Reading (α : Type) := Option (α × List Char)

/-! ## Blanks, comments and line ends -/

def isSpace (c : Char) : Bool :=
  c = ' ' || c = '\t'

def skipSpace (cs : List Char) : List Char :=
  cs.dropWhile isSpace

/-- A character that may stand in comments and, quotes and backslashes apart, in strings. -/
def isPrintable (c : Char) : Bool :=
  c = '\t' || (0x20 ≤ c.toNat && c.toNat ≠ 0x7f)

/-- What follows a line break. -/
def newline? : List Char → Option (List Char)
  | '\n' :: cs => some cs
  | '\r' :: '\n' :: cs => some cs
  | _ => none

def skipComment : List Char → List Char
  | '#' :: cs => cs.dropWhile isPrintable
  | cs => cs

/-- What follows the rest of a line on which nothing more is written. -/
def endLine? (cs : List Char) : Option (List Char) :=
  match skipComment (skipSpace cs) with
  | [] => some []
  | rest => newline? rest

/-- Skips blanks, comments and line breaks. -/
def skipFiller : (fuel : Nat) → List Char → List Char
  | 0, cs => cs
  | fuel + 1, cs =>
    let rest := skipComment (skipSpace cs)
    match newline? rest with
    | some rest => skipFiller fuel rest
    | none => rest

/-! ## Strings -/

/-- What a letter names after a backslash. -/
def simpleEscape? : Char → Option Char
  | 'b' => some '\x08'
  | 't' => some '\t'
  | 'n' => some '\n'
  | 'f' => some '\x0c'
  | 'r' => some '\r'
  | '"' => some '"'
  | '\\' => some '\\'
  | _ => none

/-- One character of a string between double quotes. -/
def readCharacter : List Char → Reading Char
  | '\\' :: 'u' :: cs => readCodePoint? 4 cs
  | '\\' :: 'U' :: cs => readCodePoint? 8 cs
  | '\\' :: c :: cs => (simpleEscape? c).map fun c => (c, cs)
  | c :: cs => if isPrintable c ∧ c ≠ '\\' then some (c, cs) else none
  | [] => none

/-- The rest of a string on one line; `taken` are its characters so far, last first. -/
def readBasic : (fuel : Nat) → (taken : List Char) → List Char → Reading String
  | 0, _, _ => none
  | _ + 1, taken, '"' :: cs => some (String.ofList taken.reverse, cs)
  | fuel + 1, taken, cs =>
    match readCharacter cs with
    | some (c, rest) => readBasic fuel (c :: taken) rest
    | none => none

/-- What follows a backslash at the end of a line: the next line that is not blank, without its indentation. -/
def skipBreak? (fuel : Nat) (cs : List Char) : Option (List Char) :=
  (newline? (skipSpace cs)).map fun rest => skipBlankLines fuel rest
where
  skipBlankLines : Nat → List Char → List Char
    | 0, cs => cs
    | fuel + 1, cs =>
      match newline? (skipSpace cs) with
      | some rest => skipBlankLines fuel rest
      | none => skipSpace cs

/-- The end of a string between triple quotes: the quotes that close it, behind up to two that belong to it. -/
def closeTriple? (quote : Char) (cs : List Char) : Reading (List Char) :=
  let n := (cs.takeWhile (· = quote)).length
  if n < 3 then none else some (List.replicate (min (n - 3) 2) quote, cs.drop (min n 5))

/-- The rest of a string between triple double quotes. -/
def readLongBasic : (fuel : Nat) → (taken : List Char) → List Char → Reading String
  | 0, _, _ => none
  | fuel + 1, taken, cs =>
    match closeTriple? '"' cs with
    | some (quotes, rest) => some (String.ofList (quotes ++ taken).reverse, rest)
    | none =>
      match newline? cs, cs with
      | some rest, _ => readLongBasic fuel ('\n' :: taken) rest
      | none, '"' :: rest => readLongBasic fuel ('"' :: taken) rest
      | none, '\\' :: rest =>
        match skipBreak? fuel rest with
        | some rest => readLongBasic fuel taken rest
        | none =>
          match readCharacter cs with
          | some (c, rest) => readLongBasic fuel (c :: taken) rest
          | none => none
      | none, cs =>
        match readCharacter cs with
        | some (c, rest) => readLongBasic fuel (c :: taken) rest
        | none => none

/-- The rest of a string on one line between single quotes, which has no escapes. -/
def readLiteral (cs : List Char) : Reading String :=
  match cs.span fun c => isPrintable c && c ≠ '\'' with
  | (taken, '\'' :: rest) => some (String.ofList taken, rest)
  | _ => none

/-- The rest of a string between triple single quotes. -/
def readLongLiteral : (fuel : Nat) → (taken : List Char) → List Char → Reading String
  | 0, _, _ => none
  | fuel + 1, taken, cs =>
    match closeTriple? '\'' cs with
    | some (quotes, rest) => some (String.ofList (quotes ++ taken).reverse, rest)
    | none =>
      match newline? cs, cs with
      | some rest, _ => readLongLiteral fuel ('\n' :: taken) rest
      | none, c :: rest => if isPrintable c then readLongLiteral fuel (c :: taken) rest else none
      | none, [] => none

/-- A line break right after the opening quotes does not count. -/
def dropNewline (cs : List Char) : List Char :=
  (newline? cs).getD cs

/-- A string of any kind. -/
def readString (bound : Nat) : List Char → Reading String
  | '"' :: '"' :: '"' :: cs => readLongBasic bound [] (dropNewline cs)
  | '\'' :: '\'' :: '\'' :: cs => readLongLiteral bound [] (dropNewline cs)
  | '"' :: cs => readBasic bound [] cs
  | '\'' :: cs => readLiteral cs
  | _ => none

/-! ## Keys -/

def isBareKey (c : Char) : Bool :=
  ('a' ≤ c && c ≤ 'z') || ('A' ≤ c && c ≤ 'Z') || isDigit c || c = '_' || c = '-'

/-- One part of a key. -/
def readKeyPart (bound : Nat) : List Char → Reading String
  | '"' :: cs => readBasic bound [] cs
  | '\'' :: cs => readLiteral cs
  | cs =>
    match cs.span isBareKey with
    | ([], _) => none
    | (part, rest) => some (String.ofList part, rest)

/-- The parts of a key; points stand between them, with or without blanks. -/
def readKeyParts (bound : Nat) : (fuel : Nat) → List Char → Reading (List String)
  | 0, _ => none
  | fuel + 1, cs =>
    match readKeyPart bound (skipSpace cs) with
    | none => none
    | some (part, rest) =>
      match skipSpace rest with
      | '.' :: rest => (readKeyParts bound fuel rest).map fun (parts, rest) => (part :: parts, rest)
      | rest => some ([part], rest)

/-- The deepest nesting that is read, and the most parts of a key. -/
def maxDepth : Nat := 79

/-- A key: the parts before the last, and the last. -/
def readKey (bound : Nat) (cs : List Char) : Reading (List String × String) :=
  match readKeyParts bound maxDepth cs with
  | some (parts, rest) => parts.getLast?.map fun last => ((parts.dropLast, last), rest)
  | none => none

/-! ## Numbers -/

/-- Digits of a kind, with single underscores between them. -/
def readRun (isOf : Char → Bool) : List Char → List Char × List Char
  | [] => ([], [])
  | c :: cs => if isOf c then after c cs else ([], c :: cs)
where
  after (c : Char) : List Char → List Char × List Char
    | [] => ([c], [])
    | '_' :: d :: cs =>
      if isOf d then
        let (digits, rest) := after d cs
        (c :: digits, rest)
      else ([c], '_' :: d :: cs)
    | d :: cs =>
      if isOf d then
        let (digits, rest) := after d cs
        (c :: digits, rest)
      else ([c], d :: cs)

/-- The whole part of a decimal number, which starts with zero only if it is zero. -/
def readWhole : List Char → List Char × List Char
  | '0' :: cs => (['0'], cs)
  | cs => readRun isDigit cs

/-- A float without its sign, as the characters of a decimal literal. -/
def readFloatChars (cs : List Char) : Reading (List Char) :=
  match readWhole cs with
  | ([], _) => none
  | (whole, rest) =>
    let (fraction, afterFraction) := match rest with
      | '.' :: rest => (fun (ds, rest) => ('.' :: ds, rest)) (readRun isDigit rest)
      | rest => ([], rest)
    if fraction = ['.'] then none
    else if Literal.atExponent afterFraction then
      let (sign, rest) := match afterFraction.tail with
        | '-' :: rest => (['-'], rest)
        | '+' :: rest => ([], rest)
        | rest => ([], rest)
      match readRun isDigit rest with
      | ([], _) => none
      | (digits, rest) => some (whole ++ fraction ++ 'e' :: sign ++ digits, rest)
    else if fraction.isEmpty then none
    else some (whole ++ fraction, afterFraction)

/-- A float that is too large for the format is refused, unless it is negative. -/
def readFloat (cs : List Char) : Reading Scalar :=
  let (negative, unsigned) := Literal.splitSign cs
  match unsigned with
  | 'i' :: 'n' :: 'f' :: rest => some (.float none, rest)
  | 'n' :: 'a' :: 'n' :: rest => some (.float none, rest)
  | _ =>
    match readFloatChars unsigned with
    | none => none
    | some (digits, rest) =>
      let x := (Literal.ofChars? digits).bind fun l => Literal.double? { l with negative }
      if x.isNone && !negative then none else some (.float x, rest)

def digitsToNatIn (base : Nat) (digits : List Char) : Nat :=
  digits.foldl (fun n c => n * base + (hexValue? c).getD 0) 0

/-- An integer that fits sixty-four bits with sign. -/
def fitted? (i : Int) : Option Scalar :=
  if -0x8000_0000_0000_0000 ≤ i ∧ i < 0x8000_0000_0000_0000 then some (.integer i) else none

/-- A natural number in a base other than ten. -/
def readBased (base : Nat) (isOf : Char → Bool) (cs : List Char) : Reading Scalar :=
  match readRun isOf cs with
  | ([], _) => none
  | (digits, rest) => (fitted? (digitsToNatIn base digits)).map fun s => (s, rest)

def readInteger : List Char → Reading Scalar
  | '0' :: 'x' :: cs => readBased 16 (fun c => (hexValue? c).isSome) cs
  | '0' :: 'o' :: cs => readBased 8 (fun c => '0' ≤ c && c ≤ '7') cs
  | '0' :: 'b' :: cs => readBased 2 (fun c => c = '0' || c = '1') cs
  | cs =>
    let (negative, unsigned) := Literal.splitSign cs
    match readWhole unsigned with
    | ([], _) => none
    | (digits, rest) =>
      let n : Int := digitsToNat digits
      (fitted? (if negative then -n else n)).map fun s => (s, rest)

/-! ## Dates and times -/

/-- A number of exactly `count` decimal digits that lies between two bounds. -/
def readPart (count least most : Nat) (cs : List Char) : Reading Nat :=
  let digits := cs.take count
  if digits.length = count ∧ digits.all isDigit then
    let n := digitsToNat digits
    if least ≤ n ∧ n ≤ most then some (n, cs.drop count) else none
  else none

def isLeapYear (year : Nat) : Bool :=
  year % 4 = 0 && (year % 100 ≠ 0 || year % 400 = 0)

def daysIn (year month : Nat) : Nat :=
  if month = 2 then (if isLeapYear year then 29 else 28)
  else if month = 4 ∨ month = 6 ∨ month = 9 ∨ month = 11 then 30
  else 31

/-- What follows one given character. -/
def after? (c : Char) : List Char → Option (List Char)
  | d :: cs => if d = c then some cs else none
  | [] => none

/-- What follows a calendar date. -/
def date? (cs : List Char) : Option (List Char) := do
  let (year, cs) ← readPart 4 0 9999 cs
  let cs ← after? '-' cs
  let (month, cs) ← readPart 2 1 12 cs
  let cs ← after? '-' cs
  let (_, cs) ← readPart 2 1 (daysIn year month) cs
  pure cs

/-- What follows a fraction of a second, if there is one. -/
def skipFraction : List Char → List Char
  | '.' :: c :: cs => if isDigit c then cs.dropWhile isDigit else '.' :: c :: cs
  | cs => cs

/-- What follows a time of day. -/
def time? (cs : List Char) : Option (List Char) := do
  let (_, cs) ← readPart 2 0 23 cs
  let cs ← after? ':' cs
  let (_, cs) ← readPart 2 0 59 cs
  let cs ← after? ':' cs
  let (_, cs) ← readPart 2 0 60 cs
  pure (skipFraction cs)

/-- What follows the distance from universal time; there may be none. -/
def offset? : List Char → Option (List Char)
  | [] => some []
  | c :: cs =>
    if c = 'Z' ∨ c = 'z' then some cs
    else if c = '+' ∨ c = '-' then do
      let (_, cs) ← readPart 2 0 23 cs
      let cs ← after? ':' cs
      let (_, cs) ← readPart 2 0 59 cs
      pure cs
    else some (c :: cs)

/-- What follows a date with or without a time, or a time. -/
def moment? (cs : List Char) : Option (List Char) :=
  match date? cs with
  | none => time? cs
  | some [] => some []
  | some (c :: rest) =>
    if c = 'T' ∨ c = 't' ∨ c = ' ' then
      match time? rest with
      | some rest => offset? rest
      | none => some (c :: rest)
    else some (c :: rest)

def readDate (cs : List Char) : Reading Scalar :=
  (moment? cs).map fun rest => (.date (String.ofList (cs.take (cs.length - rest.length))), rest)

/-! ## Values -/

def readScalar (bound : Nat) : List Char → Reading Scalar
  | 't' :: 'r' :: 'u' :: 'e' :: cs => some (.flag true, cs)
  | 'f' :: 'a' :: 'l' :: 's' :: 'e' :: cs => some (.flag false, cs)
  | '"' :: cs => (readString bound ('"' :: cs)).map fun (s, rest) => (.text s, rest)
  | '\'' :: cs => (readString bound ('\'' :: cs)).map fun (s, rest) => (.text s, rest)
  | cs => ((readDate cs).orElse fun _ => readFloat cs).orElse fun _ => readInteger cs

/-- Elements up to the closing bracket; `taken` are those read so far, last first. -/
def readElements (bound : Nat) (value : List Char → Reading Item) :
    (fuel : Nat) → (taken : List Item) → List Char → Reading (List Item)
  | 0, _, _ => none
  | fuel + 1, taken, cs =>
    match skipFiller bound cs with
    | ']' :: rest => some (taken.reverse, rest)
    | rest =>
      match value rest with
      | none => none
      | some (item, rest) =>
        match skipFiller bound rest with
        | ']' :: rest => some ((item :: taken).reverse, rest)
        | ',' :: rest => readElements bound value fuel (item :: taken) rest
        | _ => none

/-- A key, an equals sign and a value, added to a table. -/
def readPair (bound : Nat) (value : List Char → Reading Item) (t : Table) (cs : List Char) :
    Reading Table :=
  match readKey bound cs with
  | some ((path, key), '=' :: rest) =>
    match value (skipSpace rest) with
    | some (item, rest) => (t.addPair path key item).map fun t => (t, rest)
    | none => none
  | _ => none

/-- Pairs up to the closing brace, all on one line. -/
def readPairs (bound : Nat) (value : List Char → Reading Item) :
    (fuel : Nat) → Table → List Char → Reading Table
  | 0, _, _ => none
  | fuel + 1, t, cs =>
    match readPair bound value t cs with
    | none => none
    | some (t, rest) =>
      match skipSpace rest with
      | '\x7d' :: rest => some (t, rest)
      | ',' :: rest => readPairs bound value fuel t rest
      | _ => none

/-- A value at the front of a text of at most `bound` characters, with `depth` containers still allowed. -/
def readValue (bound : Nat) : (depth : Nat) → List Char → Reading Item
  | 0, cs => (readScalar bound cs).map fun (s, rest) => (.scalar s, rest)
  | depth + 1, '[' :: rest =>
    (readElements bound (readValue bound depth) bound [] rest).map fun (items, rest) => (.list items, rest)
  | depth + 1, '\x7b' :: rest =>
    match skipSpace rest with
    | '\x7d' :: rest => some (.table .value [], rest)
    | rest =>
      (readPairs bound (readValue bound depth) bound [] rest).map fun (t, rest) => (.table .value t, rest)
  | _ + 1, cs => (readScalar bound cs).map fun (s, rest) => (.scalar s, rest)

/-! ## Documents -/

/-- The document so far, and the path to the table that pairs are put into. -/
structure Document where
  root : Table := []
  place : List String := []

namespace Document

/-- The document after a header `[path.key]`, or `[[path.key]]` for the next table of an array. -/
def enter (d : Document) (isArray : Bool) (path : List String) (key : String) : Option Document :=
  (Table.changeAt (if isArray then Table.openElement key else Table.openTable key) path d.root).map
    fun root => ⟨root, path ++ [key]⟩

/-- What a line holds, added to the document, and what follows on the line. -/
def readLine (bound : Nat) (d : Document) (cs : List Char) : Reading Document :=
  match cs with
  | '[' :: '[' :: rest =>
    match readKey bound rest with
    | some ((path, key), ']' :: ']' :: rest) => (d.enter true path key).map fun d => (d, rest)
    | _ => none
  | '[' :: rest =>
    match readKey bound rest with
    | some ((path, key), ']' :: rest) => (d.enter false path key).map fun d => (d, rest)
    | _ => none
  | cs =>
    match readKey bound cs with
    | some ((path, key), '=' :: rest) =>
      match readValue bound maxDepth (skipSpace rest) with
      | some (item, rest) =>
        (Table.changeAt (Table.addPair path key item) d.place d.root).map fun root => ({ d with root }, rest)
      | none => none
    | _ => none

/-- Reads the lines that are left. -/
def readLines (bound : Nat) : (fuel : Nat) → Document → List Char → Option Document
  | 0, _, _ => none
  | fuel + 1, d, cs =>
    match endLine? cs with
    | some [] => some d
    | some rest => readLines bound fuel d rest
    | none =>
      match d.readLine bound (skipSpace cs) with
      | none => none
      | some (d, rest) =>
        match endLine? rest with
        | some [] => some d
        | some rest => readLines bound fuel d rest
        | none => none

end Document

/-- A mark of the byte order at the front of a text does not count. -/
def dropMark : List Char → List Char
  | '\ufeff' :: cs => cs
  | cs => cs

/-- The table that the whole text writes. -/
def read? (text : String) : Option Table :=
  let cs := dropMark text.toList
  (Document.readLines (cs.length + 1) (cs.length + 1) {} cs).map (·.root)

end EditorLink.Toml
