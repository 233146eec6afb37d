import EditorLink.Extension.Dispatch
import EditorLink.Host.Inbound
import EditorLink.Message

/-!
# EditorLink.Extension.Handling -- answering the host

The programs that run for inbound messages. A name that nobody registered is a negative answer, never a fault. The program of a
request ends with the value of a successful reply or with the reason of a failure.
-/

namespace EditorLink.Extension.Handling

open Registry Host

/-! ## Notifications -/

def react : Notification → Program
  | .runCommand name args =>
    .runCommand name args fun
      | none => .report (.noSuchCommand name) (.finish .done)
      | some (.failed reasons) =>
        .report (.commandFailed name (Ending.reasonText reasons)) (.finish .done)
      | some (.value _) => .finish .done
  | .commandEvent name args =>
    .newEvent [("cmd", .string name), ("args", args)] fun event =>
      .emit Listeners.commandType event (.finish .done)
  | .focusChanged view =>
    .newEvent [("type", view)] fun event =>
      .emit Listeners.focusType event (.finish .done)
  | .textChanged dialog text =>
    .look fun w =>
      match w.dialogs.callback? dialog with
      | some code => .call code (.text text) fun _ => .finish .done
      | none => .report (.noDialogCallback dialog) (.finish .done)

/-- What a notification sets off. Unknown and malformed ones are only reported. -/
def notification (method : String) (args : List Value) : Program :=
  match Notification.read method args with
  | .ok (some n) => react n
  | .ok none => .report (.unknownNotification method) (.finish .done)
  | .error fault => .report (.malformedNotification method fault) (.finish .done)

/-! ## Requests -/

def truth (b : Bool) : Program := .finish (.value (.bool b))

/-- What the filters of commands made of an event: whether one matched, and the command as they left it. -/
def rewritten (isMatch : Bool) (fields : Fields) : Value :=
  .array [.bool isMatch, (fields.get? "name").getD .null, (fields.get? "args").getD .null]

def respond : Request → Program
  | .askContext name operator value =>
    .ask name operator value fun answer => truth (answer.getD false)
  | .eventFilter type fields =>
    .newEvent fields fun event => .any type event truth
  | .keyEventFilter key =>
    .newEvent key.toFields fun event => .any key.type event truth
  | .cmdEventFilter name args =>
    .newEvent [("name", .string name), ("args", args)] fun event =>
      .any Listeners.runCommandType event fun isMatch =>
        .look fun w => .finish (.value (rewritten isMatch (w.eventFields event)))

/-- What a request sets off. Unknown and malformed ones are reported and fail. -/
def request (method : String) (args : List Value) : Program :=
  match Request.read method args with
  | .ok (some r) => respond r
  | .ok none =>
    .report (.unknownRequest method) (.finish (.failed ["unknown method: " ++ method]))
  | .error fault =>
    .report (.malformedRequest method fault)
      (.finish (.failed ["invalid arguments for " ++ method ++ ": " ++ fault.message]))

/-- The outcome that a request's ending stands for. -/
def outcome : Ending → Outcome
  | .value v => .ok v
  | .failed reasons => .error (.string (Ending.reasonText reasons))

/-- The payload for a request whose handler is gone without an answer. -/
def noAnswer (method : String) : Value :=
  .string ("handler for '" ++ method ++ "' did not reply")

end EditorLink.Extension.Handling
