/-!
# EditorLink.Text.Bytes -- byte strings

Wire data is a plain list of bytes. Text enters and leaves it as UTF-8; an ill-formed sequence has no
text, it is never repaired.
-/

namespace EditorLink

/-- Bytes in the order in which they are read or written. -/
abbrev Bytes := List UInt8

namespace Bytes

/-- The UTF-8 form of a text. -/
def ofText (s : String) : Bytes :=
  s.toByteArray.toList

/-- The text that the bytes spell in UTF-8, if they are well formed. -/
def text? (bytes : Bytes) : Option String :=
  String.fromUTF8? bytes.toByteArray

/-- What is left after the first `n` bytes, if there are that many. -/
def dropExactly? : Nat → Bytes → Option Bytes
  | 0, bytes => some bytes
  | _ + 1, [] => none
  | n + 1, _ :: bytes => dropExactly? n bytes

/-- The first `n` bytes and what follows them, if there are that many. -/
def splitExactly? (n : Nat) (bytes : Bytes) : Option (Bytes × Bytes) :=
  (dropExactly? n bytes).map fun rest => (bytes.take n, rest)

theorem dropExactly?_eq {n : Nat} {bytes : Bytes} :
    dropExactly? n bytes = if n ≤ bytes.length then some (bytes.drop n) else none := by
  induction n generalizing bytes with
  | zero => simp [dropExactly?]
  | succ n ih => cases bytes <;> simp [dropExactly?, ih]

theorem length_of_dropExactly? {n : Nat} {bytes rest : Bytes} (h : dropExactly? n bytes = some rest) :
    bytes.length = n + rest.length := by
  rw [dropExactly?_eq] at h
  split at h
  · simp only [Option.some.injEq] at h
    subst h
    simp; omega
  · simp at h

/-! ## Big-endian numbers -/

/-- The number whose base-256 digits are the bytes, most significant first. -/
def toNat (bytes : Bytes) : Nat :=
  bytes.foldl (fun n b => n * 256 + b.toNat) 0

/-- The lowest `width` base-256 digits of `n`, most significant first. -/
def ofNat : (width n : Nat) → Bytes
  | 0, _ => []
  | width + 1, n => ofNat width (n / 256) ++ [UInt8.ofNat (n % 256)]

/-- A number of `width` bytes at the front, and what follows it. -/
def readNat? (width : Nat) (bytes : Bytes) : Option (Nat × Bytes) :=
  (splitExactly? width bytes).map fun (digits, rest) => (toNat digits, rest)

end Bytes
end EditorLink
