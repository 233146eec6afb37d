import EditorLink.Json.Reader
import EditorLink.Message
import EditorLink.Pack.Reader
import EditorLink.Pack.Writer
import EditorLink.Text.Bytes
import EditorLink.Wire.Scan

/-!
# EditorLink.Wire.Codec -- messages in a byte stream

There are two wire formats. In `msgpack`, messages are MessagePack values back to back; in `json`, each is one line of JSON text.
`encode` writes one message. A `Decoder` holds the bytes that have arrived and not yet been taken: `feed` appends to them and
`next` takes one message off the front, asks for more, or fails.

* A frame is complete before it is decoded, and a complete frame is taken off the buffer before its content is looked at, so a
  frame with bad content costs only itself.
* A reserved marker and a frame over the limit take nothing off; the decoder fails on them again.
* The limit is checked on a complete MessagePack frame, on an incomplete one as soon as its length is known, and on a line that
  has not ended.
* Blank lines are skipped.
-/

namespace EditorLink.Wire

inductive Format where
  | msgpack
  | json
  deriving DecidableEq, Repr

/-- Sixteen mebibytes. -/
def defaultMaxFrameBytes : Nat := 16 * 1024 * 1024

def newline : UInt8 := 0x0a

/-! ## Encoding -/

def encode : Format → Message → Bytes
  | .msgpack, m => Pack.pack m.toValue
  | .json, m => Bytes.ofText (Json.print m.toValue) ++ [newline]

def encodeAll (format : Format) (messages : List Message) : Bytes :=
  messages.flatMap (encode format)

/-! ## Frames -/

/-- The message in a complete MessagePack frame. -/
def readFrame (frame : Bytes) : Except ProtocolError Message :=
  match Pack.read? frame with
  | some v => Message.ofValue v
  | none => .error (.decode .notMessagePack)

/-- The message on a line, or `none` if the line is blank. -/
def readLine (line : Bytes) : Except ProtocolError (Option Message) :=
  match Bytes.text? line with
  | none => .error (.decode .notText)
  | some s =>
    let text := Text.trim s.toList
    if text.isEmpty then .ok none
    else match Json.read? text with
      | some v => (Message.ofValue v).map some
      | none => .error (.decode .notJson)

/-- The bytes before the first newline, last first, and those after it. -/
def splitLine? (taken : Bytes) : Bytes → Option (Bytes × Bytes)
  | [] => none
  | b :: bytes => if b = newline then some (taken, bytes) else splitLine? (b :: taken) bytes

theorem length_of_splitLine? {taken bytes line rest : Bytes} (h : splitLine? taken bytes = some (line, rest)) :
    rest.length < bytes.length := by
  induction bytes generalizing taken with
  | nil => simp [splitLine?] at h
  | cons b bytes ih =>
    by_cases hb : b = newline
    · simp only [splitLine?, hb, if_true, Option.some.injEq, Prod.mk.injEq] at h
      rw [← h.2]
      simp
    · simp only [splitLine?, hb, if_false] at h
      have := ih h
      simp only [List.length_cons]
      omega

/-! ## Decoding -/

structure Decoder where
  format : Format
  /-- The most bytes a frame may have. -/
  limit : Nat
  scan : Scan := {}
  /-- Bytes that have arrived and are not taken yet. -/
  buffer : Bytes := []

/-- The answer of one decoding step. -/
inductive Decoded where
  | message (m : Message)
  /-- Nothing is complete. -/
  | more
  | failed (e : ProtocolError)

namespace Decoder

def feed (d : Decoder) (chunk : Bytes) : Decoder :=
  { d with buffer := d.buffer ++ chunk }

/-- The decoder asks for more bytes, unless so many are too many already. -/
def await (d : Decoder) (pending : Nat) : Decoded × Decoder :=
  if d.limit < pending then (.failed (.frameTooLarge pending d.limit), d) else (.more, d)

/-- The next MessagePack message. -/
def nextFrame (d : Decoder) : Decoded × Decoder :=
  match d.scan.advance d.buffer with
  | .reserved byte scan => (.failed (.decode (.reservedMarker byte)), { d with scan })
  | .partially scan => await { d with scan } (max d.buffer.length scan.need)
  | .complete length =>
    if d.limit < length then
      (.failed (.frameTooLarge length d.limit), { d with scan := ⟨length, 0, length⟩ })
    else
      let (frame, rest) := d.buffer.splitAt length
      let d := { d with scan := {}, buffer := rest }
      match readFrame frame with
      | .ok m => (.message m, d)
      | .error e => (.failed e, d)

/-- The first line of `bytes` that is not blank, and what follows it; `none` if no such line is complete, with what
follows the last blank one. -/
def firstLine (bytes : Bytes) : Option (Except ProtocolError Message) × Bytes :=
  match _h : splitLine? [] bytes with
  | none => (none, bytes)
  | some (line, rest) =>
    match readLine line.reverse with
    | .ok none => firstLine rest
    | .ok (some m) => (some (.ok m), rest)
    | .error e => (some (.error e), rest)
termination_by bytes.length
decreasing_by exact length_of_splitLine? _h

/-- The next message of a JSON stream. -/
def nextLine (d : Decoder) : Decoded × Decoder :=
  match firstLine d.buffer with
  | (none, rest) => await { d with buffer := rest } rest.length
  | (some (.ok m), rest) => (.message m, { d with buffer := rest })
  | (some (.error e), rest) => (.failed e, { d with buffer := rest })

/-- One step on what is buffered. -/
def next (d : Decoder) : Decoded × Decoder :=
  match d.format with
  | .msgpack => d.nextFrame
  | .json => d.nextLine

/-- One step after the last byte has arrived: the last line may lack its newline, a frame may not lack anything. -/
def finish (d : Decoder) : Decoded × Decoder :=
  match d.next with
  | (.more, d) =>
    if d.buffer.isEmpty then (.more, d)
    else match d.format with
      | .msgpack => (.failed (.decode (.cutShort d.buffer.length)), d)
      | .json =>
        let rest := { d with buffer := [] }
        match readLine d.buffer with
        | .ok (some m) => (.message m, rest)
        | .ok none => (.more, rest)
        | .error e => (.failed e, rest)
  | step => step

/-! ## Runs -/

/-- What steps gave until the decoder asked for more or failed. -/
structure Run where
  messages : List Message
  failure : Option ProtocolError
  decoder : Decoder

/-- Steps until one gives no message; `taken` are the messages so far, last first. Each message takes at least one byte, so the
buffer's length bounds the steps. -/
def runWith (step : Decoder → Decoded × Decoder) : (fuel : Nat) → (taken : List Message) → Decoder → Run
  | 0, taken, d => ⟨taken.reverse, none, d⟩
  | fuel + 1, taken, d =>
    match step d with
    | (.message m, d) => runWith step fuel (m :: taken) d
    | (.more, d) => ⟨taken.reverse, none, d⟩
    | (.failed e, d) => ⟨taken.reverse, some e, d⟩

def drain (d : Decoder) : Run :=
  runWith next (d.buffer.length + 1) [] d

def drainFinal (d : Decoder) : Run :=
  runWith finish (d.buffer.length + 1) [] d

end Decoder
end EditorLink.Wire
