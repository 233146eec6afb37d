import EditorLink.Extension.Workspace
import EditorLink.Notice
import EditorLink.Registry.Condition

/-!
# EditorLink.Extension.Program -- what code does, as data

Commands, contexts, listeners, facade calls and the library's own handlers are all **programs**: trees that say, step by step, what the code
asks of the session and how it goes on with the answer. Between two steps nothing else happens, except at the two steps that wait: `invoke`,
for the host's reply, and `await`, for a gate to open. A program ends with an `Ending` or by a panic.

Code that has been registered is named by a `CodeId`, so programs can hand it around and the workspace stays plain data.
-/

namespace EditorLink.Extension

open Registry

/-- What registered code is called with. -/
inductive Input where
  /-- The arguments of a command. -/
  | arguments (args : Fields)
  /-- The comparison that a context is asked. -/
  | question (operator : Operator) (value : Value)
  /-- The event that a listener sees. -/
  | event (id : EventId)
  /-- The text of a dialog. -/
  | text (content : String)
  /-- Nothing: an extension. -/
  | nothing

/-- How code ends when it does not panic. -/
inductive Ending where
  | value (v : Value)
  /-- A failure and what its callers said about it, outermost first. -/
  | failed (reasons : List String)

namespace Ending

/-- The ending counts as a match. -/
def isMatch : Ending → Bool
  | value (.bool true) => true
  | _ => false

def done : Ending := value .null

/-- The reasons of a failure on one line. -/
def reasonText (reasons : List String) : String :=
  ": ".intercalate reasons

end Ending

/-- How code ends. -/
inductive Exit where
  | ended (e : Ending)
  | panicked (text : String)

inductive Program where
  | finish (e : Ending)
  | panic (text : String)
  /-- Writes to the journal of the extensions. -/
  | record (entry : Value) (next : Program)
  | report (notice : Notice) (next : Program)
  /-- Looks at the workspace and changes it in one go; what follows depends on what was there before. -/
  | access (change : Workspace → Workspace) (next : Workspace → Program)
  /-- Makes a change that is due in any case: it still happens if the caller goes away before its turn. -/
  | ensure (change : Workspace → Workspace) (next : Program)
  /-- Keeps code under a fresh id. -/
  | keep (code : Input → Program) (next : CodeId → Program)
  /-- Runs kept code within the same task. -/
  | run (code : CodeId) (input : Input) (next : Exit → Program)
  | notify (method : String) (args : List Value) (next : Program)
  /-- Sends a request and waits for its reply. If the caller goes away while it waits, `release` is all that still happens. -/
  | invoke (method : String) (args : List Value) (release : Workspace → Workspace)
      (next : Except Failure Value → Program)
  /-- Waits until a gate is open. -/
  | await (gate : String) (next : Program)

namespace Program

instance : Inhabited Program := ⟨finish .done⟩

/-- The program that goes on after the end of the first, also after its panic. -/
def andThen : Program → (Exit → Program) → Program
  | finish e, k => k (.ended e)
  | panic text, k => k (.panicked text)
  | record entry next, k => record entry (next.andThen k)
  | report notice next, k => report notice (next.andThen k)
  | access change next, k => access change fun w => (next w).andThen k
  | ensure change next, k => ensure change (next.andThen k)
  | keep code next, k => keep code fun id => (next id).andThen k
  | run code input next, k => run code input fun o => (next o).andThen k
  | notify method args next, k => notify method args (next.andThen k)
  | invoke method args release next, k => invoke method args release fun r => (next r).andThen k
  | await gate next, k => await gate (next.andThen k)

/-- A panic of the inner code is a panic of the outer one. -/
def unlessPanicked (k : Ending → Program) : Exit → Program
  | .ended e => k e
  | .panicked text => panic text

/-- The program that goes on with the ending of the first. -/
def bind (p : Program) (k : Ending → Program) : Program :=
  p.andThen (unlessPanicked k)

/-- Runs kept code and goes on with its ending. -/
def call (code : CodeId) (input : Input) (k : Ending → Program) : Program :=
  run code input (unlessPanicked k)

/-- Looks at the workspace. -/
def look (next : Workspace → Program) : Program :=
  access id next

/-- Changes the workspace. -/
def change (f : Workspace → Workspace) (next : Program) : Program :=
  access f fun _ => next

def reports : List Notice → Program → Program
  | [], next => next
  | n :: ns, next => report n (reports ns next)

end Program
end EditorLink.Extension
