import EditorLink.Extension.Handling
import EditorLink.Extension.Loading
import EditorLink.Link
import EditorLink.Session.Ends

/-!
# EditorLink.Session.State -- tasks, turns and the state of a session

A session runs in one thread. Whatever can go on takes **turns**: the reader, which handles all messages that have arrived; the writer,
which writes all messages that are queued; and one task for each handler and each facade call. Turns are taken in the order in which
they fell due, and a turn ends only where its program ends or waits. The state is plain data, and `Session.step` moves it by one step.
-/

namespace EditorLink.Session

open Extension

abbrev TaskId := Nat

/-- What a task is for, which decides what its end means. -/
inductive Role where
  /-- A facade call, known by a tag. -/
  | caller (tag : String)
  /-- Work for the embedding program, which gets the result. -/
  | direct
  /-- The last part of a run, which ends the run with a result that is known already. -/
  | farewell (result : Except Failure Unit)
  | notification (method : String)
  | request (id : UInt32) (method : String)

/-- What a task waits for. -/
inductive Wait where
  /-- Its turn. -/
  | turn (next : Program)
  /-- The reply to a request. -/
  | reply (id : UInt32) (release : Workspace → Workspace) (next : CallResult → Program)
  | gate (name : String) (next : Program)

structure Task where
  id : TaskId
  role : Role
  wait : Wait
  /-- The code that goes on when what runs now has ended, innermost first. -/
  outer : List (Exit → Program) := []

/-- Something that has fallen due. -/
inductive Turn where
  | reader
  | writer
  | task (id : TaskId)
  deriving DecidableEq, Repr

/-- What is going on right now. -/
inductive Focus where
  | idle
  | reading
  | writing
  | running (id : TaskId) (role : Role) (program : Program) (outer : List (Exit → Program))

/-- Where the reader stands. -/
inductive ReaderPhase where
  | notStarted
  /-- It waits for more to arrive. -/
  | waiting
  /-- Its turn is due, or it is reading. -/
  | due
  | ended
  deriving DecidableEq, Repr

/-- What has happened and was not reported yet; lists have the latest first. -/
structure Journal where
  records : List Value := []
  notices : List Notice := []
  /-- Ends of facade calls. -/
  done : List (String × Exit) := []
  /-- The end of work for the embedding program. -/
  answer : Option Exit := none

end EditorLink.Session

namespace EditorLink

open Extension Session

structure Session where
  workspace : Workspace := {}
  /-- Registered code, by id. -/
  code : Array (Input → Program) := #[]
  link : Link TaskId := {}
  connection : LocalEnd
  host : HostEnd
  /-- Most handlers that may be unfinished at one time. -/
  limit : Nat
  /-- Handlers that are not finished. -/
  inFlight : Nat := 0
  /-- What a run does between the end of reading and its own end. -/
  farewell : Program := .finish .done
  tasks : List Task := []
  nextTask : TaskId := 0
  ready : List Turn := [.writer]
  focus : Focus := .idle
  reader : ReaderPhase := .notStarted
  /-- The writer's turn is due, or it is writing. -/
  writerDue : Bool := true
  /-- The run is asked to stop. -/
  stopping : Bool := false
  openGates : List String := []
  runEnd : Option (Except Failure Unit) := none
  journal : Journal := {}

namespace Session

/-! ## Notes -/

def record (s : Session) (v : Value) : Session :=
  { s with journal := { s.journal with records := v :: s.journal.records } }

def report (s : Session) (n : Notice) : Session :=
  { s with journal := { s.journal with notices := n :: s.journal.notices } }

/-! ## Turns -/

def enqueue (s : Session) (t : Turn) : Session :=
  { s with ready := s.ready ++ [t] }

/-- The reader's turn falls due if it was waiting. -/
def wakeReader (s : Session) : Session :=
  if s.reader = .waiting then { s with reader := .due }.enqueue .reader else s

/-- The writer's turn falls due unless it is already. -/
def wakeWriter (s : Session) : Session :=
  if s.writerDue then s else { s with writerDue := true }.enqueue .writer

/-- Changes the link by something that queues a message. -/
def sending (s : Session) (l : Link TaskId) : Session :=
  { s with link := l }.wakeWriter

/-! ## Tasks -/

/-- A new task, whose turn falls due. -/
def spawn (s : Session) (role : Role) (p : Program) : Session :=
  let task : Task := { id := s.nextTask, role, wait := .turn p }
  { s with tasks := s.tasks ++ [task], nextTask := s.nextTask + 1 }.enqueue (.task task.id)

def task? (s : Session) (id : TaskId) : Option Task :=
  s.tasks.find? (·.id = id)

def removeTask (s : Session) (id : TaskId) : Session :=
  { s with tasks := s.tasks.filter (·.id ≠ id) }

/-- Puts a task back that waits. -/
def suspend (s : Session) (t : Task) : Session :=
  { s with tasks := s.tasks ++ [t] }

def replaceTask (s : Session) (t : Task) : Session :=
  { s with tasks := s.tasks.map fun u => if u.id = t.id then t else u }

/-- The turn of a waiting task falls due. -/
def resume (s : Session) (t : Task) (p : Program) : Session :=
  (s.replaceTask { t with wait := .turn p }).enqueue (.task t.id)

/-- The caller of a completed call goes on, if it still waits for it. -/
def complete (s : Session) (c : Completion TaskId) : Session :=
  match s.task? c.call.caller with
  | some t =>
    match t.wait with
    | .reply id _ next => if id = c.call.id then s.resume t (next c.result) else s
    | _ => s
  | none => s

/-- Tasks that wait for a gate go on, in the order in which they began to wait. -/
def resumeGate (s : Session) (gate : String) : Session :=
  s.tasks.foldl (fun s t =>
    match t.wait with
    | .gate name next => if name = gate then s.resume t next else s
    | _ => s) s

end Session
end EditorLink
