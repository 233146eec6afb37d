import EditorLink.Session.State

/-!
# EditorLink.Session.Step -- one step of a session

A step lets the reader handle one message, lets the writer write one message, lets a program do one thing, or hands the turn on. The
end of a run follows one order whatever ended it: pending calls are rejected, the connection is closed, a failure is reported, then
comes what the run still has to do itself; everybody else goes on only after that.
-/

namespace EditorLink.Session

open Extension

/-! ## The end of a run -/

/-- The reason that pending calls are given when a run ends. -/
def closeReason : Except Failure Unit → TransportError
  | .error (.transport e) => e
  | _ => .closed

/-- Rejects the pending calls and closes the connection. -/
def closeWith (s : Session) (reason : TransportError) : Session :=
  let (completions, link) := s.link.close reason
  let s := completions.foldl (fun s c => (s.report (.rejectingCall c.call.method reason)).complete c)
    { s with link }
  let s := if completions.isEmpty then s else s.report (.rejectedCalls completions.length)
  { s with
    connection := s.connection.close
    host := { s.host with inlet := s.host.inlet.finish } }

/-- Goes over to what the run does at its end. -/
def farewellWith (s : Session) (result : Except Failure Unit) : Session :=
  { s with
    reader := .ended
    focus := .running s.nextTask (.farewell result) s.farewell []
    nextTask := s.nextTask + 1 }

/-- Reading has ended. -/
def endReading (s : Session) (result : Except Failure Unit) : Session :=
  let s := s.closeWith (closeReason result)
  let s := match result with
    | .error e => s.report (.readEnded e)
    | .ok () => s
  s.farewellWith result

/-- The run ends because it was asked to. -/
def stopRun (s : Session) : Session :=
  ((s.report .stopRequested).closeWith .closed).farewellWith (.ok ())

/-! ## Replies to requests -/

/-- The right to answer one request of the host. Using it sends the reply; one that goes away unused sends a failure. -/
structure Responder where
  id : UInt32
  method : String
  replied : Bool := false

/-- Answers a request, which uses the responder up. -/
def useResponder (s : Session) (r : Responder) (outcome : Outcome) : Responder × Session :=
  ({ r with replied := true }, s.sending (s.link.answer r.id outcome))

/-- A responder goes away. -/
def dropResponder (s : Session) (r : Responder) : Session :=
  if r.replied then s
  else ((s.report (.unanswered r.id r.method)).useResponder r (.error (Handling.noAnswer r.method))).2

/-! ## The reader -/

/-- Starts a handler, or says that there are too many. -/
def dispatch (s : Session) (method : String) (role : Role) (p : Program) : Except Session Session :=
  if s.limit ≤ s.inFlight then .error (s.report (.limitReached method s.limit))
  else .ok ({ s with inFlight := s.inFlight + 1 }.spawn role p)

/-- Starts the handler of a request. When there are too many, the responder goes away, which still answers the host. -/
def dispatchRequest (s : Session) (id : UInt32) (method : String) (args : List Value) : Except Session Session :=
  match s.dispatch method (.request id method) (Handling.request method args) with
  | .ok s => .ok s
  | .error s => .error (s.dropResponder { id, method })

/-- Handles one message; it may end the run. -/
def handle (s : Session) : Message → Session
  | .reply id outcome =>
    let s := s.report (.replyReceived id outcome.isOk)
    match s.link.resolve id outcome with
    | .error e => s.endReading (.error e)
    | .ok (completion, link) =>
      let s := { s with link }
      let s := if (s.task? completion.call.caller).isSome then s
        else s.report (.callerGone id completion.call.method)
      s.complete completion
  | .notify method args =>
    match s.dispatch method (.notification method) (Handling.notification method args) with
    | .ok s => s
    | .error s => s.endReading (.error (.dispatchExhausted s.limit))
  | .request id method args =>
    match s.dispatchRequest id method args with
    | .ok s => s
    | .error s => s.endReading (.error (.dispatchExhausted s.limit))

/-- One step of the reader's turn. -/
def readStep (s : Session) : Session :=
  match s.connection.receive with
  | (.message m, connection) => { s with connection }.handle m
  | (.again, connection) => { s with connection }
  | (.blocked, connection) => { s with connection, focus := .idle, reader := .waiting }
  | (.finished, connection) => ({ s with connection }.report .hostClosed).endReading (.ok ())
  | (.failed e, connection) => { s with connection }.endReading (.error (.transport e))

/-! ## The writer -/

/-- A message could not be written. -/
def lose (s : Session) (m : Message) (reason : TransportError) : Session :=
  match s.link.writeFailed m reason with
  | (some completion, link) => { s with link }.complete completion
  | (none, link) =>
    if m.requestId?.isSome then { s with link }
    else { s with link }.report (.droppedMessage reason)

/-- One step of the writer's turn. -/
def writeStep (s : Session) : Session :=
  match s.link.takeOutbound with
  | none => { s with focus := .idle, writerDue := false }
  | some (m, link) =>
    let s := { s with link }
    match s.connection.send m with
    | .ok bytes => { s with host := { s.host with inlet := s.host.inlet.arrive bytes } }
    | .error reason => s.lose m reason

/-! ## Programs -/

/-- A handler is finished. -/
def release (s : Session) : Session :=
  { s with inFlight := s.inFlight - 1 }

/-- A program has ended. -/
def conclude (s : Session) (exit : Exit) : Role → Session
  | .caller tag => { s with journal := { s.journal with done := (tag, exit) :: s.journal.done } }
  | .direct => { s with journal := { s.journal with answer := some exit } }
  | .farewell result => { s with runEnd := some result }
  | .notification method =>
    match exit with
    | .ended _ => s.release
    | .panicked text => (s.report (.notificationPanicked method text)).release
  | .request id method =>
    match exit with
    | .ended e =>
      let (responder, s) := s.useResponder { id, method } (Handling.outcome e)
      (s.dropResponder responder).release
    | .panicked text =>
      ((s.dropResponder { id, method }).report (.requestPanicked method text)).release

/-- Code has ended: what called it goes on, and without a caller the task is over. -/
def leave (s : Session) (id : TaskId) (role : Role) (exit : Exit) : List (Exit → Program) → Session
  | [] => { s with focus := .idle }.conclude exit role
  | next :: outer => { s with focus := .running id role (next exit) outer }

/-- The code of an id; there is none only for ids that were never given out. -/
def codeOf (s : Session) (id : Registry.CodeId) : Input → Program :=
  s.code.getD id fun _ => .finish .done

/-- One step of a program that `outer` has called. -/
def runStep (s : Session) (id : TaskId) (role : Role) (outer : List (Exit → Program)) : Program → Session
  | .finish e => s.leave id role (.ended e) outer
  | .panic text => s.leave id role (.panicked text) outer
  | .record entry next => { s with focus := .running id role next outer }.record entry
  | .report notice next => { s with focus := .running id role next outer }.report notice
  | .access change next =>
    { s with focus := .running id role (next s.workspace) outer, workspace := change s.workspace }
  | .ensure change next =>
    { s with focus := .running id role next outer, workspace := change s.workspace }
  | .keep code next =>
    { s with focus := .running id role (next s.code.size) outer, code := s.code.push code }
  | .run code input next =>
    { s with focus := .running id role (s.codeOf code input) (next :: outer) }
  | .notify method args next =>
    ({ s with focus := .running id role next outer }.report (.notifying method)).sending
      (s.link.notify method args)
  | .invoke method args release next =>
    match s.link.invoke id method args with
    | none => { s with focus := .running id role (.invoke method args release next) outer }
    | some (.error reason) => { s with focus := .running id role (next (.error (.transport reason))) outer }
    | some (.ok (call, link)) =>
      (({ s with focus := .idle }.suspend ⟨id, role, .reply call release next, outer⟩).report
        (.invoking call method)).sending link
  | .await gate next =>
    if s.openGates.contains gate then { s with focus := .running id role next outer }
    else { s with focus := .idle }.suspend ⟨id, role, .gate gate next, outer⟩

/-! ## Turns -/

/-- A turn begins. A task that is gone, or waits again, has no turn. -/
def begin (s : Session) : Turn → Session
  | .reader =>
    if s.reader ≠ .due then s
    else if s.stopping then s.stopRun
    else { s with focus := .reading }
  | .writer => { s with focus := .writing }
  | .task id =>
    match s.task? id with
    | some ⟨_, role, .turn p, outer⟩ => { s.removeTask id with focus := .running id role p outer }
    | _ => s

/-- One step; `none` when nothing can happen before something arrives from outside. -/
def step (s : Session) : Option Session :=
  match s.focus with
  | .reading => some s.readStep
  | .writing => some s.writeStep
  | .running id role p outer => some (s.runStep id role outer p)
  | .idle =>
    match s.ready with
    | [] => none
    | turn :: rest => some ({ s with ready := rest }.begin turn)

/-- Steps until nothing can happen, but at most `fuel` of them. -/
def settleWithin : (fuel : Nat) → Session → Session
  | 0, s => s
  | fuel + 1, s =>
    match s.step with
    | none => s
    | some s => settleWithin fuel s

/-- More steps than any session takes between two things from outside, unless its code never ends. -/
def patience : Nat := 5000000

/-- Everything runs until nothing can happen any more, and the host reads what it was sent. -/
def settle (s : Session) : Session :=
  let s := s.settleWithin patience
  { s with host := s.host.catchUp }

end EditorLink.Session
