import EditorLink.Wire.Inlet

/-!
# EditorLink.Session.Ends -- the two ends of a connection

`LocalEnd` is this side's end: what comes in, whether sending is still possible, and whether the sending side has been shut down.
`HostEnd` is the host's end as an observer sees it: what the host has received and how its reading ended. A host either speaks
messages, with a codec of its own, or plain bytes.
-/

namespace EditorLink.Session

open Wire

/-! ## This side -/

structure LocalEnd where
  inlet : Inlet
  /-- Nothing is sent any more. -/
  closed : Bool := false
  /-- The host has been told that nothing is sent any more. -/
  shutDown : Bool := false
  /-- The host's end is gone, so that writing fails. -/
  abandoned : Bool := false

namespace LocalEnd

def format (c : LocalEnd) : Format := c.inlet.decoder.format

/-- The bytes that sending a message puts on the wire. -/
def send (c : LocalEnd) (m : Message) : Except TransportError Bytes :=
  if c.closed then .error .closed
  else if c.abandoned then .error (.sendFailed (ProtocolError.io "broken pipe").message)
  else .ok (encode c.format m)

/-- One step of receiving. The end of receiving closes the connection. -/
def receive (c : LocalEnd) : Received × LocalEnd :=
  match c.inlet.receive with
  | (.finished, inlet) => (.finished, { c with inlet, closed := true })
  | (.failed e, inlet) => (.failed e, { c with inlet, closed := true })
  | (step, inlet) => (step, { c with inlet })

/-- Stops sending for good. -/
def close (c : LocalEnd) : LocalEnd :=
  { c with closed := true, shutDown := true }

end LocalEnd

/-! ## The host -/

structure HostEnd where
  inlet : Inlet
  /-- The host speaks bytes and decodes nothing. -/
  raw : Bool := false
  /-- The host sends nothing any more. -/
  closed : Bool := false
  /-- The host is gone altogether. -/
  gone : Bool := false
  /-- How the host's reading ended, once it did. -/
  ended : Option (Except TransportError Unit) := none
  /-- Messages received and not reported yet, last first. -/
  messages : List Message := []

namespace HostEnd

/-- Reads what has arrived; `fuel` bounds the steps. -/
def readAll : (fuel : Nat) → HostEnd → HostEnd
  | 0, h => h
  | fuel + 1, h =>
    match h.inlet.receive with
    | (.message m, inlet) => readAll fuel { h with inlet, messages := m :: h.messages }
    | (.again, inlet) => readAll fuel { h with inlet }
    | (.blocked, inlet) => { h with inlet }
    | (.finished, inlet) => { h with inlet, closed := true, ended := some (.ok ()) }
    | (.failed e, inlet) => { h with inlet, closed := true, ended := some (.error e) }

/-- The host catches up with what has arrived. Bytes are kept as they are by a host that speaks bytes. -/
def catchUp (h : HostEnd) : HostEnd :=
  if h.gone || h.ended.isSome then h
  else if h.raw then (if h.inlet.ended then { h with ended := some (.ok ()) } else h)
  else readAll (2 * h.inlet.arriving.length + h.inlet.decoder.buffer.length + 4) h

end HostEnd
end EditorLink.Session
