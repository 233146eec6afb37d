import Mathlib.Algebra.Group.Nat.Defs
import EditorLink.Pack.Reader
import EditorLink.Pack.Writer
import EditorLink.Proofs.Text.Bytes

/-!
# EditorLink.Proofs.Pack.Heads -- the narrowest head

A number that starts a value -- a natural number, the length of a text, the count of a container -- is written in one of two ways: in
the marker byte itself, or behind a marker in the least width that holds it. `Announces` says this once for all of them, so the widths at
which a form ends are met here and nowhere else.
-/

namespace EditorLink.Pack

/-! ## Markers -/

/-- What a marker announces, by the number of its byte. -/
theorem ofByte_ofNat {n : Nat} (h : n < 256) :
    Head.ofByte (UInt8.ofNat n) =
      if n < 0x80 then .natural n
      else if n < 0x90 then .map (n - 0x80)
      else if n < 0xa0 then .array (n - 0x90)
      else if n < 0xc0 then .text (n - 0xa0)
      else if n < 0xe0 then .named n
      else .negative n := by
  have hbyte : (UInt8.ofNat n).toNat = n := UInt8.toNat_ofNat_of_lt' h
  rw [Head.ofByte, hbyte]

theorem ofByte_natural {n : Nat} (h : n < 0x80) : Head.ofByte (UInt8.ofNat n) = .natural n := by
  rw [ofByte_ofNat (by omega), if_pos h]

theorem ofByte_map {n : Nat} (h : n < 16) : Head.ofByte (UInt8.ofNat (0x80 + n)) = .map n := by
  rw [ofByte_ofNat (by omega), if_neg (by omega), if_pos (by omega), Nat.add_sub_cancel_left]

theorem ofByte_array {n : Nat} (h : n < 16) : Head.ofByte (UInt8.ofNat (0x90 + n)) = .array n := by
  rw [ofByte_ofNat (by omega), if_neg (by omega), if_neg (by omega), if_pos (by omega), Nat.add_sub_cancel_left]

theorem ofByte_text {n : Nat} (h : n < 32) : Head.ofByte (UInt8.ofNat (0xa0 + n)) = .text n := by
  rw [ofByte_ofNat (by omega), if_neg (by omega), if_neg (by omega), if_neg (by omega), if_pos (by omega), Nat.add_sub_cancel_left]

theorem ofByte_negative {k : Nat} (h : k < 32) : Head.ofByte (UInt8.ofNat (255 - k)) = .negative (255 - k) := by
  rw [ofByte_ofNat (by omega), if_neg (by omega), if_neg (by omega), if_neg (by omega), if_neg (by omega), if_neg (by omega)]

/-! ## Heads that carry a number -/

/-- A number in the marker, or behind a marker in a width that holds it. -/
inductive Announces (inline sized : Nat → Head) (n : Nat) : Bytes → Prop where
  | inline (b) : Head.ofByte b = inline n → Announces inline sized n [b]
  | sized (b width) : Head.ofByte b = sized width → n < 256 ^ width → Announces inline sized n (b :: Bytes.ofNat width n)

theorem announces_packNatural {n : Nat} (h : n < 2 ^ 64) : Announces .natural .unsigned n (packNatural n) := by
  rw [packNatural]
  split
  · next hinline => exact .inline _ (ofByte_natural hinline)
  split
  · next hone => exact .sized 0xcc 1 rfl (by omega)
  split
  · next htwo => exact .sized 0xcd 2 rfl (by omega)
  split
  · next hfour => exact .sized 0xce 4 rfl (by omega)
  · exact .sized 0xcf 8 rfl (by omega)

theorem announces_textHead {length : Nat} (h : length < 2 ^ 32) : Announces .text .textSized length (textHead length) := by
  rw [textHead]
  split
  · next hinline => exact .inline _ (ofByte_text hinline)
  split
  · next hone => exact .sized 0xd9 1 rfl (by omega)
  split
  · next htwo => exact .sized 0xda 2 rfl (by omega)
  · exact .sized 0xdb 4 rfl (by omega)

theorem announces_arrayHead {count : Nat} (h : count < 2 ^ 32) : Announces .array .arrayCounted count (arrayHead count) := by
  rw [arrayHead]
  split
  · next hinline => exact .inline _ (ofByte_array hinline)
  split
  · next htwo => exact .sized 0xdc 2 rfl (by omega)
  · exact .sized 0xdd 4 rfl (by omega)

theorem announces_mapHead {count : Nat} (h : count < 2 ^ 32) : Announces .map .mapCounted count (mapHead count) := by
  rw [mapHead]
  split
  · next hinline => exact .inline _ (ofByte_map hinline)
  split
  · next htwo => exact .sized 0xde 2 rfl (by omega)
  · exact .sized 0xdf 4 rfl (by omega)

/-- A negative integer is in the marker, or behind a marker in a width in whose two's complement it is. -/
inductive AnnouncesNegative (k : Nat) : Bytes → Prop where
  | inline (b) : Head.ofByte b = .negative (255 - k) → k < 32 → AnnouncesNegative k [b]
  | sized (b width n) : Head.ofByte b = .signed width → n < 256 ^ width → twosComplement width n = -(k : Int) - 1 →
    AnnouncesNegative k (b :: Bytes.ofNat width n)

/-- From the upper half of a width on, numbers stand for negative integers. -/
theorem twosComplement_negative {width k : Nat} (hwidth : 1 ≤ width) (h : k < 2 ^ (8 * width - 1)) :
    twosComplement width (2 ^ (8 * width) - 1 - k) = -(k : Int) - 1 := by
  have hhalf : 2 ^ (8 * width) = 2 * 2 ^ (8 * width - 1) := by
    rw [← Nat.pow_succ']
    congr 1
    omega
  rw [twosComplement, power, power, if_neg (by omega)]
  push_cast [show k ≤ 2 ^ (8 * width) - 1 by omega, show 1 ≤ 2 ^ (8 * width) by omega]
  omega

theorem announcesNegative_packNegative {k : Nat} (h : k < 2 ^ 63) : AnnouncesNegative k (packNegative k) := by
  rw [packNegative]
  split
  · next hinline => exact .inline _ (ofByte_negative hinline) hinline
  split
  · next hone => exact .sized 0xd0 1 _ rfl (by omega) (twosComplement_negative (by omega) hone)
  split
  · next htwo => exact .sized 0xd1 2 _ rfl (by omega) (twosComplement_negative (by omega) htwo)
  split
  · next hfour => exact .sized 0xd2 4 _ rfl (by omega) (twosComplement_negative (by omega) hfour)
  · exact .sized 0xd3 8 _ rfl (by omega) (twosComplement_negative (by omega) h)

end EditorLink.Pack
