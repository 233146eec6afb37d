import EditorLink.Proofs.Link.Exchange
import EditorLink.Proofs.Session.Frame

/-!
# EditorLink.Proofs.Session.Chronicle -- all histories of a session

A **chronicle** is a session with a record of what it did. The session goes on step by step, and between any two steps the embedding
program and the host do whatever they like, and the turns that are due may change places; so every list of **moves** is a history.
What a move does to the session is what the session's own operations do. The record is written beside it and nothing reads it: it
consists of **deeds**, each named where it happens, from the session as it was just before.

Deeds on the link are acts of an exchange, so that every chronicle has an exchange of its own.
-/

namespace EditorLink.Session

open Extension Wire

/-! ## Moves -/

inductive Move where
  /-- The session does its next step, if there is one. -/
  | step
  | start
  | shutdown
  | requestStop
  | callFacade (tag : String) (p : Program)
  | perform (p : Program)
  | abandon (tag : String)
  | openGate (gate : String)
  | report (n : Notice)
  /-- A request is handed to the dispatcher, past the connection. -/
  | handOver (id : UInt32) (method : String) (args : List Value)
  | hostSend (m : Message)
  | hostWrite (bytes : Bytes)
  | hostHangUp
  | hostLeave
  /-- The host reads what it was sent. -/
  | hostRead
  | forget
  /-- Turns are taken in another order. One that is not due is none, so that any list of turns will do. -/
  | reorder (turns : List Turn)

def move (s : Session) : Move → Session
  | .step => s.step.getD s
  | .start => s.start
  | .shutdown => s.shutdown
  | .requestStop => s.requestStop
  | .callFacade tag p => s.callFacade tag p
  | .perform p => s.perform p
  | .abandon tag => s.abandon tag
  | .openGate gate => s.openGate gate
  | .report n => s.report n
  | .handOver id method args =>
    match s.dispatchRequest id method args with
    | .ok s => s
    | .error s => s
  | .hostSend m =>
    match s.hostSend m with
    | .ok s => s
    | .error _ => s
  | .hostWrite bytes => s.hostWrite bytes
  | .hostHangUp => s.hostHangUp
  | .hostLeave => s.hostLeave
  | .hostRead => { s with host := s.host.catchUp }
  | .forget => s.forget
  | .reorder turns => { s with ready := turns }

/-! ## Deeds -/

inductive Deed where
  | link (a : Exchange.Act TaskId)
  /-- A message of the host gets a handler. -/
  | accepted (t : TaskId) (role : Role) (args : List Value)
  /-- A message of the host gets none, since too many are unfinished. -/
  | refused (role : Role) (args : List Value)
  /-- The program that a task was made for looked at the workspace. -/
  | saw (t : TaskId) (w : Workspace)
  /-- Code that the program of a task had called itself came back. -/
  | returned (t : TaskId) (exit : Exit)
  | finished (t : TaskId) (role : Role) (exit : Exit)

/-- The deeds when code ends. -/
def leaveDeeds (t : TaskId) (role : Role) (exit : Exit) : List (Exit → Program) → List Deed
  | [] => .finished t role exit ::
      ((role.reply? exit).map fun (id, outcome) => Deed.link (.answer id outcome)).toList
  | [_] => [.returned t exit]
  | _ => []

/-- The deeds of a program that `outer` has called. -/
def runDeeds (s : Session) (t : TaskId) (role : Role) (outer : List (Exit → Program)) : Program → List Deed
  | .finish e => leaveDeeds t role (.ended e) outer
  | .panic text => leaveDeeds t role (.panicked text) outer
  | .access _ _ => if outer.isEmpty then [.saw t s.workspace] else []
  | .notify method args _ => [.link (.notify method args)]
  | .invoke method args _ _ => [.link (.invoke t method args)]
  | _ => []

/-- The deeds when a request is handed to the dispatcher. -/
def requestDeeds (s : Session) (id : UInt32) (method : String) (args : List Value) : List Deed :=
  if s.limit ≤ s.inFlight then
    [.refused (.request id method) args, .link (.answer id (.error (Handling.noAnswer method)))]
  else [.accepted s.nextTask (.request id method) args]

/-- The deeds of the reader. -/
def readDeeds (s : Session) : Received → List Deed
  | .message (.reply id outcome) => [.link (.read id outcome)]
  | .message (.notify method args) =>
    if s.limit ≤ s.inFlight then [.refused (.notification method) args, .link (.stop (.exhausted s.limit))]
    else [.accepted s.nextTask (.notification method) args]
  | .message (.request id method args) =>
    s.requestDeeds id method args ++
      if s.limit ≤ s.inFlight then [.link (.stop (.exhausted s.limit))] else []
  | .again => []
  | .blocked => []
  | .finished => [.link (.stop .hungUp)]
  | .failed e => [.link (.stop (.broken e))]

/-- The deeds of the writer. -/
def writeDeeds (s : Session) : List Deed :=
  match s.link.takeOutbound with
  | none => []
  | some (m, _) =>
    match s.connection.send m with
    | .ok _ => [.link .take, .link .write]
    | .error reason => [.link .take, .link (.lose reason)]

/-- The deeds when a turn begins. -/
def beginDeeds (s : Session) : Turn → List Deed
  | .reader => if s.reader = .due ∧ s.stopping = true then [.link (.stop .stopped)] else []
  | .writer => []
  | .task _ => []

def stepDeeds (s : Session) : List Deed :=
  match s.focus with
  | .reading => s.readDeeds s.connection.receive.1
  | .writing => s.writeDeeds
  | .running t role p outer => s.runDeeds t role outer p
  | .idle =>
    match s.ready with
    | [] => []
    | turn :: _ => s.beginDeeds turn

def moveDeeds (s : Session) : Move → List Deed
  | .step => s.stepDeeds
  | .shutdown => [.link (.close .closed)]
  | .abandon tag => ((s.tasks.find? (hasTag tag)).map fun t => Deed.link (.abandon t.id)).toList
  | .handOver id method args => s.requestDeeds id method args
  | _ => []

/-! ## Chronicles -/

structure Chronicle where
  session : Session
  /-- What the session did, first things first. -/
  log : List Deed := []

namespace Chronicle

def move (c : Chronicle) (m : Move) : Chronicle where
  session := c.session.move m
  log := c.log ++ c.session.moveDeeds m

/-- The chronicle of a session after some moves. -/
def after (setup : Setup) (moves : List Move) : Chronicle :=
  moves.foldl move { session := ofSetup setup }

@[simp] theorem after_nil (setup : Setup) : after setup [] = { session := ofSetup setup } := rfl

@[simp] theorem after_concat (setup : Setup) (moves : List Move) (m : Move) :
    after setup (moves ++ [m]) = (after setup moves).move m := by
  simp [after]

end Chronicle

/-! ## Reading a record -/

def Deed.act? : Deed → Option (Exchange.Act TaskId)
  | link a => some a
  | _ => none

/-- The acts on the link, first things first. -/
def acts (log : List Deed) : List (Exchange.Act TaskId) :=
  log.filterMap Deed.act?

@[simp] theorem acts_append (log more : List Deed) : acts (log ++ more) = acts log ++ acts more := by
  simp [acts]

@[simp] theorem acts_map_link (as : List (Exchange.Act TaskId)) : acts (as.map .link) = as := by
  simp [acts, Deed.act?, List.filterMap_map, Function.comp_def]

/-- The exchange of a chronicle. -/
def Chronicle.exchange (c : Chronicle) : Exchange TaskId :=
  Exchange.after (acts c.log)

/-! ## The exchange of a session -/

/-- An exchange shows the link of a session and whether its run goes on. -/
structure Mirrors (s : Session) (x : Exchange TaskId) : Prop where
  link : x.link = s.link
  hand : x.hand = none
  runEnd : x.runEnd = none ↔ s.reader ≠ .ended
  reading : s.focus = .reading → s.reader ≠ .ended

/-- Some acts on the link lead from one session to the other. -/
def Follows (s s' : Session) (as : List (Exchange.Act TaskId)) : Prop :=
  ∀ x : Exchange TaskId, Mirrors s x → Mirrors s' (as.foldl Exchange.act x)

/-- What touches neither the link nor the reader is no act. -/
theorem follows_nil {s s' : Session} (hlink : s'.link = s.link) (hreader : s'.reader = .ended ↔ s.reader = .ended)
    (hreading : s'.focus = .reading → s.focus = .reading ∨ s.reader ≠ .ended) : Follows s s' [] := by
  intro x hx
  refine ⟨hx.link.trans hlink.symm, hx.hand, hx.runEnd.trans (not_congr hreader.symm), fun hfocus => ?_⟩
  rw [Ne, hreader]
  exact (hreading hfocus).elim hx.reading id

/-- An act that changes the link while the run goes on as it does. -/
theorem follows_act {s s' : Session} {a : Exchange.Act TaskId}
    (hact : ∀ x : Exchange TaskId, Mirrors s x →
      (x.act a).link = s'.link ∧ (x.act a).hand = none ∧ (x.act a).runEnd = x.runEnd)
    (hreader : s'.reader = s.reader) (hreading : s'.focus = .reading → s.focus = .reading) :
    Follows s s' [a] := by
  intro x hx
  obtain ⟨hlink, hhand, hend⟩ := hact x hx
  refine ⟨hlink, hhand, ?_, fun hfocus => ?_⟩
  · rw [hreader]
    show (x.act a).runEnd = none ↔ _
    rw [hend]
    exact hx.runEnd
  · rw [hreader]
    exact hx.reading (hreading hfocus)

end EditorLink.Session
