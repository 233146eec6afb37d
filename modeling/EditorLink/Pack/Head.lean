/-!
# EditorLink.Pack.Head -- the marker bytes of MessagePack

A MessagePack value starts with one **marker** byte. `Head.ofByte` says what each of the 256 bytes announces: a value that is
complete, a payload of known length, a big-endian length and then a payload, or a count of values that follow. Reading values
and finding where a frame ends both go by this table.
-/

namespace EditorLink.Pack

/-- What a marker announces. A `width` is the number of bytes of the number that follows. -/
inductive Head where
  | nil
  | bool (b : Bool)
  /-- A small natural in the marker itself. -/
  | natural (n : Nat)
  /-- The integer `n - 256` in the marker itself. -/
  | negative (n : Nat)
  | unsigned (width : Nat)
  | signed (width : Nat)
  | single
  | double
  | text (length : Nat)
  | textSized (width : Nat)
  | binarySized (width : Nat)
  /-- A type byte and a payload of known length. -/
  | extension (length : Nat)
  | extensionSized (width : Nat)
  | array (count : Nat)
  | arrayCounted (width : Nat)
  | map (count : Nat)
  | mapCounted (width : Nat)
  | reserved
  deriving DecidableEq, Repr

/-- The bytes from `0xc0` to `0xdf`. -/
def Head.named : Nat → Head
  | 0xc0 => .nil
  | 0xc1 => .reserved
  | 0xc2 => .bool false
  | 0xc3 => .bool true
  | 0xc4 => .binarySized 1
  | 0xc5 => .binarySized 2
  | 0xc6 => .binarySized 4
  | 0xc7 => .extensionSized 1
  | 0xc8 => .extensionSized 2
  | 0xc9 => .extensionSized 4
  | 0xca => .single
  | 0xcb => .double
  | 0xcc => .unsigned 1
  | 0xcd => .unsigned 2
  | 0xce => .unsigned 4
  | 0xcf => .unsigned 8
  | 0xd0 => .signed 1
  | 0xd1 => .signed 2
  | 0xd2 => .signed 4
  | 0xd3 => .signed 8
  | 0xd4 => .extension 1
  | 0xd5 => .extension 2
  | 0xd6 => .extension 4
  | 0xd7 => .extension 8
  | 0xd8 => .extension 16
  | 0xd9 => .textSized 1
  | 0xda => .textSized 2
  | 0xdb => .textSized 4
  | 0xdc => .arrayCounted 2
  | 0xdd => .arrayCounted 4
  | 0xde => .mapCounted 2
  | 0xdf => .mapCounted 4
  | _ => .reserved

def Head.ofByte (b : UInt8) : Head :=
  let n := b.toNat
  if n < 0x80 then .natural n
  else if n < 0x90 then .map (n - 0x80)
  else if n < 0xa0 then .array (n - 0x90)
  else if n < 0xc0 then .text (n - 0xa0)
  else if n < 0xe0 then .named n
  else .negative n

end EditorLink.Pack
