import EditorLink.Pack.Head
import EditorLink.Text.Bytes
import EditorLink.Value

/-!
# EditorLink.Pack.Reader -- values from MessagePack

`unpack` reads one value at the front of some bytes. It takes every width of every form, not only the narrowest, but only
what a `Value` can hold: binary data, extensions, texts that are not UTF-8 and keys that are not texts are refused, and
an infinity or a NaN reads as null. At most 1023 containers may be nested.
-/

namespace EditorLink.Pack

/-- A value and what follows it. -/
abbrev Reading (α : Type) := Option (α × Bytes)

/-! ## Scalars -/

/-- The integer of `width` bytes in two's complement whose unsigned reading is `n`. -/
def twosComplement (width n : Nat) : Int :=
  if n < power 2 (8 * width - 1) then n else (n : Int) - (power 2 (8 * width) : Nat)

def readUnsigned (width : Nat) (bytes : Bytes) : Reading Value :=
  (Bytes.readNat? width bytes).map fun (n, rest) => (.nat (UInt64.ofNat n), rest)

def readSigned (width : Nat) (bytes : Bytes) : Reading Value :=
  (Bytes.readNat? width bytes).map fun (n, rest) => (.ofInt (twosComplement width n), rest)

/-- A float as a value; one that is not finite has none. -/
def floatValue : Option Double → Value
  | some x => .number (.float x)
  | none => .null

def readSingle (bytes : Bytes) : Reading Value :=
  (Bytes.readNat? 4 bytes).map fun (n, rest) => (floatValue (Double.ofSingleBits? (UInt32.ofNat n)), rest)

def readDouble (bytes : Bytes) : Reading Value :=
  (Bytes.readNat? 8 bytes).map fun (n, rest) => (floatValue (Double.ofBits? (UInt64.ofNat n)), rest)

def readText (length : Nat) (bytes : Bytes) : Reading String :=
  match Bytes.splitExactly? length bytes with
  | none => none
  | some (content, rest) => (Bytes.text? content).map fun s => (s, rest)

/-- A text whose length has `width` bytes. -/
def readSizedText (width : Nat) (bytes : Bytes) : Reading String :=
  match Bytes.readNat? width bytes with
  | none => none
  | some (length, rest) => readText length rest

/-- A key of a map, which must be a text. -/
def readKey : Bytes → Reading String
  | [] => none
  | b :: bytes =>
    match Head.ofByte b with
    | .text length => readText length bytes
    | .textSized width => readSizedText width bytes
    | _ => none

/-! ## Containers -/

/-- So many values, each read by `element`; `taken` are those read so far, last first. -/
def readItems (element : Bytes → Reading Value) :
    (count : Nat) → (taken : List Value) → Bytes → Reading (List Value)
  | 0, taken, bytes => some (taken.reverse, bytes)
  | count + 1, taken, bytes =>
    match element bytes with
    | none => none
    | some (v, rest) => readItems element count (v :: taken) rest

/-- So many fields, whose values are read by `element`. -/
def readFields (element : Bytes → Reading Value) :
    (count : Nat) → (taken : Fields) → Bytes → Reading Fields
  | 0, taken, bytes => some (taken.reverse, bytes)
  | count + 1, taken, bytes =>
    match readKey bytes with
    | none => none
    | some (key, rest) =>
      match element rest with
      | none => none
      | some (v, rest) => readFields element count ((key, v) :: taken) rest

def readArray (element : Bytes → Reading Value) (count : Nat) (bytes : Bytes) : Reading Value :=
  (readItems element count [] bytes).map fun (items, rest) => (.array items, rest)

/-- The fields in key order; the last value of a repeated key counts. -/
def readMap (element : Bytes → Reading Value) (count : Nat) (bytes : Bytes) : Reading Value :=
  (readFields element count [] bytes).map fun (fields, rest) => (.ofFields fields, rest)

/-! ## Values -/

/-- A container can be entered only while some depth is left; `read` gets the reader of its elements. -/
def nested {α : Type} (inner : Option (Bytes → Reading Value))
    (read : (Bytes → Reading Value) → Reading α) : Reading α :=
  inner.bind read

/-- The value that a marker starts, given the bytes after it and the reader of elements, if any. -/
def readAfter (inner : Option (Bytes → Reading Value)) (bytes : Bytes) : Head → Reading Value
  | .nil => some (.null, bytes)
  | .bool b => some (.bool b, bytes)
  | .natural n => some (.nat (UInt64.ofNat n), bytes)
  | .negative n => some (.ofInt ((n : Int) - 256), bytes)
  | .unsigned width => readUnsigned width bytes
  | .signed width => readSigned width bytes
  | .single => readSingle bytes
  | .double => readDouble bytes
  | .text length => (readText length bytes).map fun (s, rest) => (.string s, rest)
  | .textSized width => (readSizedText width bytes).map fun (s, rest) => (.string s, rest)
  | .array count => nested inner fun element => readArray element count bytes
  | .arrayCounted width =>
    nested inner fun element =>
      (Bytes.readNat? width bytes).bind fun (count, rest) => readArray element count rest
  | .map count => nested inner fun element => readMap element count bytes
  | .mapCounted width =>
    nested inner fun element =>
      (Bytes.readNat? width bytes).bind fun (count, rest) => readMap element count rest
  | .binarySized _ | .extension _ | .extensionSized _ | .reserved => none

/-- A value at the front of the bytes, with `depth` containers still allowed. -/
def unpack : (depth : Nat) → Bytes → Reading Value
  | _, [] => none
  | 0, b :: bytes => readAfter none bytes (Head.ofByte b)
  | depth + 1, b :: bytes => readAfter (some (unpack depth)) bytes (Head.ofByte b)

/-- The deepest nesting that is read. -/
def maxDepth : Nat := 1023

/-- The value that all the bytes together form. -/
def read? (bytes : Bytes) : Option Value :=
  match unpack maxDepth bytes with
  | some (v, []) => some v
  | _ => none

end EditorLink.Pack
