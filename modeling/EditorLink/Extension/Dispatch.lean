import EditorLink.Extension.Program

/-!
# EditorLink.Extension.Dispatch -- calling what is registered

Events go to listeners: `emit` calls all listeners of a type, `any` stops after the first that matches. Both work on the listeners as they
are registered when the dispatch begins. A panic ends the dispatch and is passed on.
-/

namespace EditorLink.Extension.Program

open Registry

/-- Calls listeners in order until one matches. -/
def firstMatch (event : EventId) (k : Bool → Program) : List CodeId → Program
  | [] => k false
  | code :: rest => call code (.event event) fun e => if e.isMatch then k true else firstMatch event k rest

/-- Calls listeners in order, whatever they answer. -/
def callAll (event : EventId) (next : Program) : List CodeId → Program
  | [] => next
  | code :: rest => call code (.event event) fun _ => callAll event next rest

/-- Whether a listener of the type matches the event. -/
def any (type : String) (event : EventId) (k : Bool → Program) : Program :=
  look fun w => firstMatch event k (w.listeners.of type)

def emit (type : String) (event : EventId) (next : Program) : Program :=
  look fun w => callAll event next (w.listeners.of type)

/-- Makes an event; fields given twice keep the later value. -/
def newEvent (fields : Fields) (k : EventId → Program) : Program :=
  access (Workspace.addEvent (Keyed.ofList fields)) fun w => k w.nextEvent

/-- Asks a registered context; `none` when the name is not registered. -/
def ask (name : String) (operator : Operator) (value : Value) (k : Option Bool → Program) : Program :=
  look fun w =>
    match w.contexts.get? name with
    | some code => call code (.question operator value) fun e => k (some e.isMatch)
    | none => k none

/-- Runs a registered command; `none` when the name is not registered. -/
def runCommand (name : String) (args : Fields) (k : Option Ending → Program) : Program :=
  look fun w =>
    match w.commands.get? name with
    | some code => call code (.arguments args) fun e => k (some e)
    | none => k none

end EditorLink.Extension.Program
