import EditorLink.Text.Bytes
import EditorLink.Value

/-!
# EditorLink.Pack.Writer -- values as MessagePack

Every value is written in its narrowest form: a natural number in an unsigned form and a negative one in a signed form of
the least width that holds it, a length or a count likewise. Floats always take sixty-four bits.
-/

namespace EditorLink.Pack

/-! ## Numbers -/

def packNatural (n : Nat) : Bytes :=
  if n < 0x80 then [UInt8.ofNat n]
  else if n < 0x100 then 0xcc :: Bytes.ofNat 1 n
  else if n < 0x10000 then 0xcd :: Bytes.ofNat 2 n
  else if n < 0x1_0000_0000 then 0xce :: Bytes.ofNat 4 n
  else 0xcf :: Bytes.ofNat 8 n

/-- The integer `-(k + 1)` in two's complement. -/
def packNegative (k : Nat) : Bytes :=
  if k < 32 then [UInt8.ofNat (255 - k)]
  else if k < 0x80 then 0xd0 :: Bytes.ofNat 1 (0x100 - 1 - k)
  else if k < 0x8000 then 0xd1 :: Bytes.ofNat 2 (0x10000 - 1 - k)
  else if k < 0x8000_0000 then 0xd2 :: Bytes.ofNat 4 (0x1_0000_0000 - 1 - k)
  else 0xd3 :: Bytes.ofNat 8 (0x1_0000_0000_0000_0000 - 1 - k)

def packNumber : Number → Bytes
  | .natural n => packNatural n.toNat
  | .negative k => packNegative k.val
  | .float x => 0xcb :: Bytes.ofNat 8 x.bits.toNat

/-! ## Heads of texts and containers -/

def textHead (length : Nat) : Bytes :=
  if length < 32 then [UInt8.ofNat (0xa0 + length)]
  else if length < 0x100 then 0xd9 :: Bytes.ofNat 1 length
  else if length < 0x10000 then 0xda :: Bytes.ofNat 2 length
  else 0xdb :: Bytes.ofNat 4 length

def arrayHead (count : Nat) : Bytes :=
  if count < 16 then [UInt8.ofNat (0x90 + count)]
  else if count < 0x10000 then 0xdc :: Bytes.ofNat 2 count
  else 0xdd :: Bytes.ofNat 4 count

def mapHead (count : Nat) : Bytes :=
  if count < 16 then [UInt8.ofNat (0x80 + count)]
  else if count < 0x10000 then 0xde :: Bytes.ofNat 2 count
  else 0xdf :: Bytes.ofNat 4 count

def packText (s : String) : Bytes :=
  let bytes := Bytes.ofText s
  textHead bytes.length ++ bytes

/-! ## Values -/

/-- The bytes of a value. -/
def pack : Value → Bytes
  | .null => [0xc0]
  | .bool false => [0xc2]
  | .bool true => [0xc3]
  | .number n => packNumber n
  | .string s => packText s
  | .array items => arrayHead items.length ++ items.flatMap fun v => pack v
  | .object fields => mapHead fields.length ++ fields.flatMap fun f => packText f.1 ++ pack f.2
termination_by v => v
decreasing_by
  · simp_wf
    have := List.sizeOf_lt_of_mem ‹_›
    omega
  · simp_wf
    have := List.sizeOf_lt_of_mem ‹_›
    have : sizeOf f = 1 + sizeOf f.1 + sizeOf f.2 := by cases f; simp
    omega

end EditorLink.Pack
