import EditorLink.Failure
import EditorLink.Host.KeyPress
import EditorLink.Registry.Condition

/-!
# EditorLink.Host.Inbound -- what the host may ask

The host knows four notifications and four requests. `Notification.read` and `Request.read` give the typed form of one, or `none` when
the method is not among them. Arguments are positional: absent and null mean the same everywhere, and what follows
the last declared argument is ignored.
-/

namespace EditorLink.Host

open Registry (Operator)

/-! ## Positional arguments -/

/-- The argument at a position; null when there is none. -/
def argument (args : List Value) (index : Nat) : Value :=
  args[index]?.getD .null

def missing (name : String) : ProtocolError :=
  .invalidShape (.argument name)

/-- A text that has to be there. -/
def textArg (args : List Value) (index : Nat) (name : String) : Except ProtocolError String :=
  match argument args index with
  | .string s => .ok s
  | _ => .error (missing name)

/-- A text in which anything but a text is written as JSON, and null as nothing. -/
def lenientText : Value → String
  | .string s => s
  | .null => ""
  | v => Json.print v

/-- A flag that is false unless it is there. -/
def flagArg (args : List Value) (index : Nat) : Bool :=
  ((argument args index).flag?).getD false

/-- The fields of an object; null has none. -/
def fieldsArg (args : List Value) (index : Nat) (name : String) : Except ProtocolError Fields :=
  match argument args index with
  | .object fields => .ok fields
  | .null => .ok []
  | _ => .error (missing name)

def naturalArg (args : List Value) (index : Nat) (name : String) : Except ProtocolError UInt64 :=
  match (argument args index).natural? with
  | some n => .ok n
  | none => .error (missing name)

/-! ## Notifications -/

inductive Notification where
  | runCommand (name : String) (args : Fields)
  | commandEvent (name : String) (args : Value)
  | focusChanged (view : Value)
  | textChanged (dialog : UInt64) (text : String)

/-- Reads a notification; `none` for a method that is not one of the four. -/
def Notification.read (method : String) (args : List Value) : Except ProtocolError (Option Notification) :=
  if method = "runCommand" then do
    let name ← textArg args 0 "cmd"
    let fields ← fieldsArg args 1 "args"
    pure (some (.runCommand name fields))
  else if method = "commandEvent" then do
    let name ← textArg args 0 "cmd"
    pure (some (.commandEvent name (argument args 1)))
  else if method = "focusChanged" then
    pure (some (.focusChanged (argument args 0)))
  else if method = "InputDialog.textValueChanged" then do
    let dialog ← naturalArg args 0 "id"
    pure (some (.textChanged dialog (lenientText (argument args 1))))
  else pure none

/-! ## Requests -/

inductive Request where
  | askContext (name : String) (operator : Operator) (value : Value)
  | eventFilter (type : String) (event : Fields)
  | keyEventFilter (key : KeyPress)
  | cmdEventFilter (name : String) (args : Value)

/-- A key press from its positional form; only the type has to be there. -/
def KeyPress.ofArgs (args : List Value) : Except ProtocolError KeyPress := do
  let type ← textArg args 0 "type"
  pure {
    type
    key := lenientText (argument args 1)
    isRepeat := flagArg args 2
    altKey := flagArg args 3
    ctrlKey := flagArg args 4
    metaKey := flagArg args 5
    shiftKey := flagArg args 6 }

/-- Reads a request; `none` for a method that is not one of the four. -/
def Request.read (method : String) (args : List Value) : Except ProtocolError (Option Request) :=
  if method = "askContext" then do
    let name ← textArg args 0 "name"
    let operator ← textArg args 1 "operator"
    pure (some (.askContext name (Operator.ofText operator) (argument args 2)))
  else if method = "eventFilter" then do
    let type ← textArg args 0 "type"
    let event ← fieldsArg args 1 "event"
    pure (some (.eventFilter type event))
  else if method = "keyEventFilter" then do
    let key ← KeyPress.ofArgs args
    pure (some (.keyEventFilter key))
  else if method = "cmdEventFilter" then do
    let name ← textArg args 0 "name"
    pure (some (.cmdEventFilter name (argument args 1)))
  else pure none

end EditorLink.Host
