import EditorLink.Failure
import EditorLink.Pack.Head
import EditorLink.Text.Bytes

/-!
# EditorLink.Wire.Scan -- where a MessagePack frame ends

A stream of MessagePack values has no separators: a frame ends where its value ends. `Scan` walks over the markers of one value
and can be interrupted wherever the buffered bytes run out. Bytes are only ever appended to the buffer until the frame is taken off,
so the walk goes on where it stopped and looks at each marker once; payloads are jumped over, also while they are still missing.

All three counters are natural numbers, so nothing here can wrap around.
-/

namespace EditorLink.Wire

open Pack (Head)

/-! ## What follows a marker -/

/-- How far a marker reaches. -/
inductive Layout where
  /-- A fixed number of bytes. -/
  | fixed (size : Nat)
  /-- A length of `width` bytes, `extra` bytes, and a payload of that length. -/
  | sized (width extra : Nat)
  /-- So many values. -/
  | items (count : Nat)
  /-- A count of `width` bytes, and `per` values for each counted item. -/
  | counted (width per : Nat)
  deriving DecidableEq, Repr

/-- The layout that a marker announces; the reserved one has none. -/
def layout? : Head → Option Layout
  | .nil | .bool _ | .natural _ | .negative _ => some (.fixed 0)
  | .unsigned width | .signed width => some (.fixed width)
  | .single => some (.fixed 4)
  | .double => some (.fixed 8)
  | .text length => some (.fixed length)
  | .textSized width | .binarySized width => some (.sized width 0)
  | .extension length => some (.fixed (length + 1))
  | .extensionSized width => some (.sized width 1)
  | .array count => some (.items count)
  | .arrayCounted width => some (.counted width 1)
  | .map count => some (.items (2 * count))
  | .mapCounted width => some (.counted width 2)
  | .reserved => none

/-! ## The walk -/

/-- Where a walk stands. -/
structure Scan where
  /-- Start of the next unvisited value. -/
  offset : Nat := 0
  /-- Values still to visit before the frame is complete. -/
  remaining : Nat := 1
  /-- Buffer length below which there is nothing new to visit. -/
  need : Nat := 1
  deriving DecidableEq, Repr

/-- What a walk found. -/
inductive Scanned where
  /-- The frame is this long. -/
  | complete (length : Nat)
  /-- More bytes are needed; the walk goes on from here. -/
  | partially (scan : Scan)
  /-- A reserved marker where a value should start. -/
  | reserved (byte : UInt8) (scan : Scan)
  deriving DecidableEq, Repr

namespace Scan

/-- What one marker takes: its last byte's successor, the values it adds, and the bytes after it. -/
inductive Stride where
  /-- The marker's number is not complete; so many bytes of the buffer are needed. -/
  | short (need : Nat)
  /-- All that belongs to the marker itself ends at `stop`, `added` values follow, and `rest` is what is buffered after
  `stop`, if the buffer reaches that far. -/
  | full (stop added : Nat) (rest : Option Bytes)

/-- The stride of a layout whose marker ends at `start`, before `bytes`. -/
def stride (start : Nat) (bytes : Bytes) : Layout → Stride
  | .fixed size => .full (start + size) 0 (Bytes.dropExactly? size bytes)
  | .items count => .full start count (some bytes)
  | .sized width extra =>
    match Bytes.readNat? width bytes with
    | none => .short (start + width)
    | some (size, rest) =>
      .full (start + width + extra + size) 0 (Bytes.dropExactly? (extra + size) rest)
  | .counted width per =>
    match Bytes.readNat? width bytes with
    | none => .short (start + width)
    | some (count, rest) => .full (start + width) (count * per) (some rest)

theorem length_of_readNat? {width n : Nat} {bytes rest : Bytes}
    (h : Bytes.readNat? width bytes = some (n, rest)) : rest.length ≤ bytes.length := by
  simp only [Bytes.readNat?, Bytes.splitExactly?, Option.map_map, Option.map_eq_some_iff] at h
  obtain ⟨r, hr, he⟩ := h
  have := Bytes.length_of_dropExactly? hr
  simp only [Function.comp, Prod.mk.injEq] at he
  obtain ⟨_, rfl⟩ := he
  omega

theorem length_of_stride {start stop added : Nat} {bytes rest : Bytes} {layout : Layout}
    (h : stride start bytes layout = .full stop added (some rest)) : rest.length ≤ bytes.length := by
  cases layout with
  | fixed size =>
    simp only [stride, Stride.full.injEq] at h
    have := Bytes.length_of_dropExactly? h.2.2
    omega
  | items count =>
    simp only [stride, Stride.full.injEq, Option.some.injEq] at h
    exact Nat.le_of_eq (congrArg List.length h.2.2.symm)
  | sized width extra =>
    simp only [stride] at h
    split at h
    · simp at h
    · next heq =>
      simp only [Stride.full.injEq] at h
      have h1 := Bytes.length_of_dropExactly? h.2.2
      have h2 := length_of_readNat? heq
      omega
  | counted width per =>
    simp only [stride] at h
    split at h
    · simp at h
    · next heq =>
      simp only [Stride.full.injEq, Option.some.injEq] at h
      have := length_of_readNat? heq
      rw [← h.2.2]
      exact this

/-- Visits values from `offset` on, where the buffer holds `bytes`, until `remaining` of them are complete. -/
def walk (offset remaining : Nat) (bytes : Bytes) : Scanned :=
  match remaining, bytes with
  | 0, _ => .complete offset
  | remaining + 1, [] => .partially ⟨offset, remaining + 1, offset + 1⟩
  | remaining + 1, b :: bytes =>
    match layout? (Head.ofByte b) with
    | none => .reserved b ⟨offset, remaining + 1, offset + 1⟩
    | some layout =>
      match h : stride (offset + 1) bytes layout with
      | .short need => .partially ⟨offset, remaining + 1, need⟩
      | .full stop added none => .partially ⟨stop, remaining + added, stop⟩
      | .full stop added (some rest) => walk stop (remaining + added) rest
termination_by bytes.length
decreasing_by
  have := length_of_stride h
  simp only [List.length_cons]
  omega

/-- Goes on with a walk over a buffer that holds what it held before and possibly more. -/
def advance (scan : Scan) (buffer : Bytes) : Scanned :=
  match Bytes.dropExactly? scan.need buffer with
  | none => .partially scan
  | some _ => walk scan.offset scan.remaining (buffer.drop scan.offset)

end Scan
end EditorLink.Wire
