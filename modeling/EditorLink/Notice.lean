import EditorLink.Failure

/-!
# EditorLink.Notice -- what the library reports about itself

A **notice** is one reported event: how severe it is, what it says, and the fields that go with it. Notices never change what
happens; failures that nobody waits for are only visible here.
-/

namespace EditorLink

inductive Severity where
  | debug
  | info
  | warn
  | error
  deriving DecidableEq, Repr

namespace Severity

def name : Severity → String
  | debug => "DEBUG"
  | info => "INFO"
  | warn => "WARN"
  | error => "ERROR"

/-- Severities in increasing order. -/
def rank : Severity → Nat
  | debug => 1
  | info => 2
  | warn => 3
  | error => 4

end Severity

inductive Notice where
  -- Calls and the connection.
  | notifying (method : String)
  | invoking (id : UInt32) (method : String)
  | replyReceived (id : UInt32) (ok : Bool)
  | callerGone (id : UInt32) (method : String)
  | rejectedCalls (count : Nat)
  | rejectingCall (method : String) (reason : TransportError)
  | droppedMessage (reason : TransportError)
  | hostClosed
  | readEnded (failure : Failure)
  -- Inbound messages.
  | limitReached (method : String) (limit : Nat)
  | unanswered (id : UInt32) (method : String)
  | notificationPanicked (method text : String)
  | requestPanicked (method text : String)
  | unknownNotification (method : String)
  | malformedNotification (method : String) (fault : ProtocolError)
  | unknownRequest (method : String)
  | malformedRequest (method : String) (fault : ProtocolError)
  | noSuchCommand (name : String)
  | commandFailed (name reason : String)
  | noDialogCallback (dialog : UInt64)
  -- Registrations.
  | replacedCommand (name : String)
  | registeringCommands (count : Nat)
  | undeclaredSetting (name : String)
  -- Packages.
  | loadedRoot (root : String) (count : Nat)
  | skippedRoot (root : String) (reason : PackageError)
  | loadedPackage (name : String) (active : Bool)
  | skippedPackage (dir : String) (reason : PackageError)
  | noExtension (name entry : String)
  | deactivationPanicked (name : String)
  -- The program as a whole.
  | starting (endpoint : String) (roots : Nat)
  | connecting (endpoint transport format : String)
  | packagesLoaded (count commands contexts settings : Nat)
  | ready
  | stopRequested
  | stopped
  | failed (failure : Failure)

namespace Notice

def severity : Notice → Severity
  | notifying _ | invoking _ _ | replyReceived _ _ | callerGone _ _ | rejectingCall _ _ => .debug
  | noSuchCommand _ | noDialogCallback _ | replacedCommand _ | registeringCommands _ => .debug
  | undeclaredSetting _ | loadedPackage _ _ | noExtension _ _ => .debug
  | hostClosed | loadedRoot _ _ | starting _ _ | connecting _ _ _ | packagesLoaded _ _ _ _ => .info
  | ready | stopRequested | stopped => .info
  | rejectedCalls _ | droppedMessage _ | unanswered _ _ | unknownNotification _ => .warn
  | malformedNotification _ _ | unknownRequest _ | malformedRequest _ _ | commandFailed _ _ => .warn
  | skippedRoot _ _ | skippedPackage _ _ | deactivationPanicked _ => .warn
  | readEnded _ | limitReached _ _ | notificationPanicked _ _ | requestPanicked _ _ | failed _ => .error

def message : Notice → String
  | notifying _ => "Notifying host"
  | invoking _ _ => "Invoking host"
  | replyReceived _ _ => "Reply received"
  | callerGone _ _ => "Caller went away before its reply arrived"
  | rejectedCalls _ => "Rejected pending calls after the connection ended"
  | rejectingCall _ reason => "Rejecting pending call: " ++ reason.message
  | droppedMessage reason => "Dropping outbound message: " ++ reason.message
  | hostClosed => "Host closed the connection"
  | readEnded failure => "Read loop terminated: " ++ failure.message
  | limitReached _ _ => "Cannot start handler: in-flight dispatch limit reached"
  | unanswered _ _ => "Handler finished without replying; sending failure reply"
  | notificationPanicked _ text => "Notification handler panicked: " ++ text
  | requestPanicked _ text => "Request handler panicked: " ++ text
  | unknownNotification _ => "Dropping unknown notification"
  | malformedNotification _ fault => "Dropping malformed notification: " ++ fault.message
  | unknownRequest _ => "Rejecting unknown request"
  | malformedRequest _ fault => "Rejecting malformed request: " ++ fault.message
  | noSuchCommand _ => "No command registered; ignoring"
  | commandFailed _ reason => "Command failed: " ++ reason
  | noDialogCallback _ => "Text change for a dialog without a callback"
  | replacedCommand _ => "Replaced existing command"
  | registeringCommands _ => "Registering commands"
  | undeclaredSetting _ => "Config entry not declared"
  | loadedRoot _ _ => "Loaded packages"
  | skippedRoot _ reason => "Skipping package root: " ++ reason.message
  | loadedPackage _ _ => "Package loaded"
  | skippedPackage _ reason => "Skipping package: " ++ reason.message
  | noExtension _ _ => "No extension for package"
  | deactivationPanicked _ => "Extension panicked while deactivating"
  | starting _ _ => "Starting extension bridge"
  | connecting _ _ _ => "Connecting to host"
  | packagesLoaded _ _ _ _ => "Packages loaded"
  | ready => "Bridge ready"
  | stopRequested => "Shutdown requested"
  | stopped => "Bridge stopped"
  | failed failure => "Bridge failed: " ++ failure.message

private def count (n : Nat) : Value := .nat (UInt64.ofNat n)

/-- The fields beside the message, in the order in which they are reported. -/
def details : Notice → List (String × Value)
  | notifying method => [("method", .string method)]
  | invoking id method => [("request_id", count id.toNat), ("method", .string method)]
  | replyReceived id ok => [("request_id", count id.toNat), ("ok", .bool ok)]
  | callerGone id method => [("request_id", count id.toNat), ("method", .string method)]
  | rejectedCalls n => [("rejected", count n)]
  | rejectingCall method _ => [("method", .string method)]
  | limitReached method limit => [("method", .string method), ("limit", count limit)]
  | unanswered id method => [("request_id", count id.toNat), ("method", .string method)]
  | notificationPanicked method _ | requestPanicked method _ => [("method", .string method)]
  | unknownNotification method | malformedNotification method _ => [("method", .string method)]
  | unknownRequest method | malformedRequest method _ => [("method", .string method)]
  | noSuchCommand name | commandFailed name _ | replacedCommand name => [("command", .string name)]
  | noDialogCallback dialog => [("dialog", .nat dialog)]
  | registeringCommands n => [("count", count n)]
  | undeclaredSetting name => [("config", .string name)]
  | loadedRoot root n => [("root", .string root), ("count", count n)]
  | skippedRoot root _ => [("root", .string root)]
  | loadedPackage name active => [("package", .string name), ("active", .bool active)]
  | skippedPackage dir _ => [("dir", .string dir)]
  | noExtension name entry => [("package", .string name), ("entry", .string entry)]
  | deactivationPanicked name => [("package", .string name)]
  | starting endpoint roots => [("endpoint", .string endpoint), ("roots", count roots)]
  | connecting endpoint transport format =>
    [("endpoint", .string endpoint), ("transport", .string transport), ("format", .string format)]
  | packagesLoaded n commands contexts settings =>
    [("count", count n), ("commands", count commands), ("contexts", count contexts), ("configs", count settings)]
  | droppedMessage _ | hostClosed | readEnded _ | ready | stopRequested | stopped | failed _ => []

/-- The severity and the message on one line. -/
def line (n : Notice) : String :=
  n.severity.name ++ ": " ++ n.message

end Notice
end EditorLink
