import EditorLink.Session.Step

/-!
# EditorLink.Session.Control -- what a session is told from outside

The embedding program starts and stops a run, makes facade calls, opens gates, and loads packages; the host sends, stops sending, or goes away.
None of this runs anything by itself: it changes the state, and `Session.settle` lets the consequences happen.
-/

namespace EditorLink.Session

open Extension Wire

/-- How a session is set up. -/
structure Setup where
  format : Format := .msgpack
  maxFrameBytes : Nat := defaultMaxFrameBytes
  maxInFlight : Nat := 16
  packageDir : String := ""
  /-- The host speaks bytes. -/
  rawHost : Bool := false
  /-- What a run does at its end. -/
  farewell : Program := .finish .done

def ofSetup (setup : Setup) : Session :=
  let inlet : Inlet := { decoder := { format := setup.format, limit := setup.maxFrameBytes } }
  { workspace := { packageDir := setup.packageDir }
    connection := { inlet }
    host := { inlet, raw := setup.rawHost }
    limit := setup.maxInFlight
    farewell := setup.farewell }

/-! ## The embedding program -/

/-- Begins to read. A session is started once. -/
def start (s : Session) : Session :=
  if s.reader = .notStarted then { s with reader := .due }.enqueue .reader else s

/-- Shuts the sending side down; reading goes on. -/
def shutdown (s : Session) : Session :=
  s.closeWith .closed

/-- Asks the run to end. -/
def requestStop (s : Session) : Session :=
  { s with stopping := true }.wakeReader

def callFacade (s : Session) (tag : String) (p : Program) : Session :=
  s.spawn (.caller tag) p

/-- Work whose result the embedding program waits for. -/
def perform (s : Session) (p : Program) : Session :=
  s.spawn .direct p

def hasTag (tag : String) (t : Task) : Bool :=
  match t.role with
  | .caller other => other = tag
  | _ => false

/-- What is left to do for a task that goes away. -/
def releaseOf : Wait → Workspace → Workspace
  | .reply _ release _ => release
  | .turn (.ensure change _) => change
  | _ => id

/-- A facade call goes away without an end. Its request stays registered. -/
def abandon (s : Session) (tag : String) : Session :=
  match s.tasks.find? (hasTag tag) with
  | some t => { s.removeTask t.id with workspace := releaseOf t.wait s.workspace }
  | none => s

def openGate (s : Session) (gate : String) : Session :=
  { s with openGates := gate :: s.openGates }.resumeGate gate

/-! ## The host -/

/-- The host sends a message, or cannot. -/
def hostSend (s : Session) (m : Message) : Except TransportError Session :=
  if s.host.closed then .error .closed
  else .ok ({ s with connection := { s.connection with
    inlet := s.connection.inlet.arrive (encode s.connection.format m) } }.wakeReader)

def hostWrite (s : Session) (bytes : Bytes) : Session :=
  { s with connection := { s.connection with inlet := s.connection.inlet.arrive bytes } }.wakeReader

/-- The host stops sending. -/
def hostHangUp (s : Session) : Session :=
  { s with
    host := { s.host with closed := true }
    connection := { s.connection with inlet := s.connection.inlet.finish } }.wakeReader

/-- The host goes away altogether. -/
def hostLeave (s : Session) : Session :=
  { s with
    host := { s.host with closed := true, gone := true }
    connection := { s.connection with inlet := s.connection.inlet.finish, abandoned := true } }.wakeReader

/-! ## What can be seen -/

/-- Sending is over, for calls or for the connection. -/
def isClosed (s : Session) : Bool :=
  s.link.isClosed || s.connection.closed

/-- The session with nothing left to report. -/
def forget (s : Session) : Session :=
  { s with
    journal := {}
    host := { s.host with messages := [], inlet := if s.host.raw then { s.host.inlet with arriving := [] } else s.host.inlet } }

end EditorLink.Session
