import EditorLink.Keyed
import EditorLink.Yaml.Token

/-!
# EditorLink.Yaml.Node -- the content of a document

A document is one **node**: a scalar, a sequence or a mapping, each perhaps with a tag. An alias is read as the node that it names, which has to be
complete by then. `Node.read?` reads a text that holds one document or none; a text with two documents is refused.

The rules of blocks and brackets are followed by recursion on a bound that the number of tokens gives: from one token to the next, at most four
calls are nested in one another.
-/

namespace EditorLink.Yaml

inductive Node where
  /-- `plain` says that the scalar is written without quotes and not as a block. -/
  | scalar (tag : Option String) (plain : Bool) (text : String)
  | sequence (tag : Option String) (items : List Node)
  | mapping (tag : Option String) (entries : List (Node × Node))
  deriving Inhabited

namespace Node

/-- What is written where nothing is. -/
def empty : Node := .scalar none true ""

/-! ## Reading tokens -/

/-- Tokens that are left, and what has been named so far. -/
structure Supply where
  tokens : List Token
  anchors : Keyed Node := []
  /-- Handles of tags and what they stand for. -/
  handles : Keyed String := []

namespace Supply

def next? (s : Supply) : Option Token :=
  s.tokens.head?

def drop (s : Supply) : Supply :=
  { s with tokens := s.tokens.tail }

/-- The next token is one of these, or there is none. -/
def endsBefore (s : Supply) (ts : List Token) : Bool :=
  match s.next? with
  | some t => ts.contains t
  | none => true

end Supply

abbrev Reading (α : Type) := Option (α × Supply)

def standardTags : String := "tag:yaml.org,2002:"

/-- The whole tag. An undeclared handle other than `!` and `!!` has no meaning. -/
def wholeTag? (handles : Keyed String) (handle suffix : String) : Option String :=
  if handle = "" then some suffix
  else match handles.get? handle with
    | some lead => some (lead ++ suffix)
    | none =>
      if handle = "!" then some ("!" ++ suffix)
      else if handle = "!!" then some (standardTags ++ suffix)
      else none

/-- What is written in front of a node. -/
structure Properties where
  anchor : Option String := none
  tag : Option String := none

/-- An anchor and a tag, in either order, each at most once. -/
def readProperties : Supply → Reading Properties
  | s =>
    match s.tokens with
    | .anchor a :: .tag h t :: rest =>
      (wholeTag? s.handles h t).map fun tag => (⟨some a, some tag⟩, { s with tokens := rest })
    | .tag h t :: .anchor a :: rest =>
      (wholeTag? s.handles h t).map fun tag => (⟨some a, some tag⟩, { s with tokens := rest })
    | .anchor a :: rest => some (⟨some a, none⟩, { s with tokens := rest })
    | .tag h t :: rest => (wholeTag? s.handles h t).map fun tag => (⟨none, some tag⟩, { s with tokens := rest })
    | _ => some ({}, s)

/-- Gives a node its name. -/
def named (p : Properties) : Node × Supply → Node × Supply
  | (n, s) =>
    match p.anchor with
    | some a => (n, { s with anchors := s.anchors.insert a n })
    | none => (n, s)

/-- Where a node stands: in brackets, in a block, or in a block mapping, where a sequence needs no further indentation. -/
inductive Setting where
  | flow
  | block
  | mappingEntry
  deriving DecidableEq, Repr

mutual
/-- A node. -/
def readNode (setting : Setting) : (fuel : Nat) → Supply → Reading Node
  | 0, _ => none
  | fuel + 1, s =>
    match s.tokens with
    | .alias a :: _ => (s.anchors.get? a).map fun n => (n, s.drop)
    | _ =>
      match readProperties s with
      | none => none
      | some (p, s) => (readContent setting p fuel s).map (named p)

/-- A node behind its properties. -/
def readContent (setting : Setting) (p : Properties) : (fuel : Nat) → Supply → Reading Node
  | 0, _ => none
  | fuel + 1, s =>
    let isBlock := setting ≠ .flow
    let absent := if p.anchor.isSome || p.tag.isSome then some (.scalar p.tag true "", s) else none
    match s.next? with
    | some (.scalar plain text) => some (.scalar p.tag plain text, s.drop)
    | some .flowSequenceStart =>
      (readFlowItems fuel true [] s.drop).map fun (items, s) => (.sequence p.tag items, s)
    | some .flowMappingStart =>
      (readFlowEntries fuel true [] s.drop).map fun (entries, s) => (.mapping p.tag entries, s)
    | some .blockSequenceStart =>
      if isBlock then (readBlockItems fuel [] s.drop).map fun (items, s) => (.sequence p.tag items, s)
      else absent
    | some .blockMappingStart =>
      if isBlock then (readBlockEntries fuel [] s.drop).map fun (entries, s) => (.mapping p.tag entries, s)
      else absent
    | some .blockEntry =>
      if setting = .mappingEntry then
        (readIndentless fuel [] s).map fun (items, s) => (.sequence p.tag items, s)
      else absent
    | _ => absent

/-- A node, or an empty one in front of certain tokens. -/
def readOptional (setting : Setting) (stops : List Token) : (fuel : Nat) → Supply → Reading Node
  | 0, _ => none
  | fuel + 1, s => if s.endsBefore stops then some (empty, s) else readNode setting fuel s

/-- The items of a block sequence; `taken` are those so far, last first. -/
def readBlockItems : (fuel : Nat) → (taken : List Node) → Supply → Reading (List Node)
  | 0, _, _ => none
  | fuel + 1, taken, s =>
    match s.next? with
    | some .blockEntry =>
      match readOptional .block [.blockEntry, .blockEnd] fuel s.drop with
      | some (n, s) => readBlockItems fuel (n :: taken) s
      | none => none
    | some .blockEnd => some (taken.reverse, s.drop)
    | _ => none

/-- The items of a sequence that is indented like the mapping around it. -/
def readIndentless : (fuel : Nat) → (taken : List Node) → Supply → Reading (List Node)
  | 0, _, _ => none
  | fuel + 1, taken, s =>
    match s.next? with
    | some .blockEntry =>
      match readOptional .block [.blockEntry, .key, .value, .blockEnd] fuel s.drop with
      | some (n, s) => readIndentless fuel (n :: taken) s
      | none => none
    | _ => some (taken.reverse, s)

/-- The entries of a block mapping; each begins with a key. -/
def readBlockEntries : (fuel : Nat) → (taken : List (Node × Node)) → Supply → Reading (List (Node × Node))
  | 0, _, _ => none
  | fuel + 1, taken, s =>
    match s.next? with
    | some .blockEnd => some (taken.reverse, s.drop)
    | some .key =>
      match readOptional .mappingEntry [.key, .value, .blockEnd] fuel s.drop with
      | none => none
      | some (k, s) =>
        match s.next? with
        | some .value =>
          match readOptional .mappingEntry [.key, .value, .blockEnd] fuel s.drop with
          | some (v, s) => readBlockEntries fuel ((k, v) :: taken) s
          | none => none
        | _ => readBlockEntries fuel ((k, empty) :: taken) s
    | _ => none

/-- The items of a sequence in brackets. An item may be a mapping with one entry. -/
def readFlowItems : (fuel : Nat) → (first : Bool) → (taken : List Node) → Supply → Reading (List Node)
  | 0, _, _, _ => none
  | fuel + 1, first, taken, s =>
    match s.next?, first with
    | some .flowSequenceEnd, _ => some (taken.reverse, s.drop)
    | some .flowEntry, false => readFlowItem fuel taken s.drop
    | _, true => readFlowItem fuel taken s
    | _, false => none

/-- One item of a sequence in brackets and those after it; a comma may be followed by the end. -/
def readFlowItem : (fuel : Nat) → (taken : List Node) → Supply → Reading (List Node)
  | 0, _, _ => none
  | fuel + 1, taken, s =>
    match s.next? with
    | some .flowSequenceEnd => some (taken.reverse, s.drop)
    | some .key =>
      match readFlowPair [.flowEntry, .flowSequenceEnd] fuel s.drop with
      | some (entry, s) => readFlowItems fuel false (.mapping none [entry] :: taken) s
      | none => none
    | _ =>
      match readNode .flow fuel s with
      | some (n, s) => readFlowItems fuel false (n :: taken) s
      | none => none

/-- A key and perhaps its value, in brackets. -/
def readFlowPair (stops : List Token) : (fuel : Nat) → Supply → Reading (Node × Node)
  | 0, _ => none
  | fuel + 1, s =>
    match readOptional .flow (.value :: stops) fuel s with
    | none => none
    | some (k, s) =>
      match s.next? with
      | some .value => (readOptional .flow stops fuel s.drop).map fun (v, s) => ((k, v), s)
      | _ => some ((k, empty), s)

/-- The entries of a mapping in braces. -/
def readFlowEntries :
    (fuel : Nat) → (first : Bool) → (taken : List (Node × Node)) → Supply → Reading (List (Node × Node))
  | 0, _, _, _ => none
  | fuel + 1, first, taken, s =>
    match s.next?, first with
    | some .flowMappingEnd, _ => some (taken.reverse, s.drop)
    | some .flowEntry, false => readFlowEntry fuel taken s.drop
    | _, true => readFlowEntry fuel taken s
    | _, false => none

/-- One entry of a mapping in braces and those after it; an entry without a colon has no value. -/
def readFlowEntry : (fuel : Nat) → (taken : List (Node × Node)) → Supply → Reading (List (Node × Node))
  | 0, _, _ => none
  | fuel + 1, taken, s =>
    match s.next? with
    | some .flowMappingEnd => some (taken.reverse, s.drop)
    | some .key =>
      match readFlowPair [.flowEntry, .flowMappingEnd] fuel s.drop with
      | some (entry, s) => readFlowEntries fuel false (entry :: taken) s
      | none => none
    | _ =>
      match readNode .flow fuel s with
      | some (k, s) => readFlowEntries fuel false ((k, empty) :: taken) s
      | none => none
end

/-! ## Documents -/

/-- Directives in front of a document. There may be one version, which has to be 1.1 or 1.2, and one meaning for each handle. -/
def readDirectives : (tokens : List Token) → (versioned : Bool) → Keyed String → Option (List Token × Keyed String)
  | .version major minor :: rest, versioned, handles =>
    if versioned || major ≠ "1" || (minor ≠ "1" && minor ≠ "2") then none else readDirectives rest true handles
  | .tagHandle handle lead :: rest, versioned, handles =>
    if handles.contains handle then none else readDirectives rest versioned (handles.insert handle lead)
  | rest, _, handles => some (rest, handles)

/-- The node of the first document and the tokens after it; there is none in a text without documents. -/
def readDocument (fuel : Nat) (tokens : List Token) : Option (Option Node × List Token) :=
  match tokens with
  | [] => some (none, [])
  | first :: _ =>
    match readDirectives tokens false [] with
    | none => none
    | some (.documentStart :: tokens, handles) =>
      (readOptional .block [.documentStart, .documentEnd] fuel { tokens, handles }).map fun (n, s) =>
        (some n, s.tokens)
    | some (tokens, handles) =>
      match first with
      | .version _ _ | .tagHandle _ _ => none
      | _ => (readNode .block fuel { tokens, handles }).map fun (n, s) => (some n, s.tokens)

/-- The node that a text writes; the inner `none` is a text without one. -/
def read? (text : String) : Option (Option Node) :=
  match Token.scan? text with
  | none => none
  | some tokens =>
    match readDocument (4 * tokens.length + 4) tokens with
    | some (n, rest) => if rest.all (· = .documentEnd) then some n else none
    | none => none

end Node
end EditorLink.Yaml
