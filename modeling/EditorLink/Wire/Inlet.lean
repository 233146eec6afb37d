import EditorLink.Wire.Codec

/-!
# EditorLink.Wire.Inlet -- the receiving half of a connection

Bytes arrive in any portions and are taken over in **reads**: a read fills the room that the buffer has, and decoding goes on with what is
there then. The buffer starts with room for 8192 bytes and doubles when a frame fills it. How reads cut the stream can be observed only
where the frame limit looks at an incomplete line.
-/

namespace EditorLink.Wire

/-- The memory behind a decoder's buffer: its size, and how much of it lies before the buffer's first byte. -/
structure Window where
  capacity : Nat := 8192
  before : Nat := 0

namespace Window

def room (w : Window) (length : Nat) : Nat :=
  w.capacity - w.before - length

/-- Some room for at least one more byte: what is left, what shifting to the front gives, or as much memory again. -/
def reserve (w : Window) (length : Nat) : Window :=
  if 0 < w.room length then w
  else if length ≤ w.before then { w with before := 0 }
  else { w with capacity := max (2 * w.capacity) (w.before + length + 1) }

end Window

structure Inlet where
  decoder : Decoder
  window : Window := {}
  /-- Bytes that have arrived and were not read yet. -/
  arriving : Bytes := []
  /-- Nothing arrives any more. -/
  ended : Bool := false
  /-- The end of the stream has been read. -/
  atEnd : Bool := false
  /-- The decoder has not asked for more since the last read. -/
  decodable : Bool := false

/-- What one step of receiving gives. -/
inductive Received where
  | message (m : Message)
  /-- A step was made; there may be more. -/
  | again
  /-- Nothing can be done before more arrives. -/
  | blocked
  | finished
  | failed (e : TransportError)

namespace Inlet

def arrive (i : Inlet) (bytes : Bytes) : Inlet :=
  { i with arriving := i.arriving ++ bytes }

def finish (i : Inlet) : Inlet :=
  { i with ended := true }

/-- The inlet with the decoder after it took bytes off its buffer. -/
def decoded (i : Inlet) (d : Decoder) : Inlet :=
  { i with
    decoder := d
    window := { i.window with before := i.window.before + (i.decoder.buffer.length - d.buffer.length) } }

/-- One read: as much of what has arrived as there is room for. -/
def read (i : Inlet) : Inlet :=
  let length := i.decoder.buffer.length
  let window := i.window.reserve length
  let (chunk, rest) := i.arriving.splitAt (window.room length)
  { i with decoder := i.decoder.feed chunk, window, arriving := rest, atEnd := false, decodable := true }

/-- One decoding step, or one read when the decoder asked for more. -/
def receive (i : Inlet) : Received × Inlet :=
  if i.decodable then
    match if i.atEnd then i.decoder.finish else i.decoder.next with
    | (.message m, d) => (.message m, i.decoded d)
    | (.failed e, d) => (.failed e.toTransport, i.decoded d)
    | (.more, d) => (if i.atEnd then .finished else .again, { i.decoded d with decodable := false })
  else if !i.arriving.isEmpty then (.again, i.read)
  else if !i.ended then (.blocked, i)
  else if i.atEnd then (.finished, i)
  else (.again, { i with atEnd := true, decodable := true })

end Inlet
end EditorLink.Wire
