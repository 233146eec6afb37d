import EditorLink.Wire.Codec

/-!
# EditorLink.Wire.Outlet -- the sending half of a connection

Messages are sent one at a time. A message passes if the connection is not closed when it comes; then it waits for the lock, and with the
lock its bytes are put into a buffer, from which the pipe takes them as it has room. Closing sets a flag at once; the first to close then
waits for the same lock, lets the pipe take what is in the buffer, and shuts the pipe down. A write that fails leaves the rest in the
buffer.

Each operation is what happens between two places where a task may have to wait, and is `none` where it cannot happen.
-/

namespace EditorLink.Wire

/-- How far the sending of a message has come. -/
inductive Sending where
  /-- Nothing is being sent. -/
  | idle
  /-- The message has passed and waits for the lock. -/
  | passed (m : Message)
  /-- It has the lock. -/
  | locked (m : Message)
  /-- Its bytes have been put into the buffer. -/
  | begun (m : Message)

/-- The message that is being sent. -/
def Sending.message? : Sending → Option Message
  | idle => none
  | passed m => some m
  | locked m => some m
  | begun m => some m

/-- The same once its bytes have been put into the buffer. -/
def Sending.begun? : Sending → Option Message
  | begun m => some m
  | _ => none

/-- How far the first close has come. -/
inductive Closing where
  | notYet
  /-- It waits for the lock. -/
  | waiting
  | locked
  | over
  deriving DecidableEq, Repr

structure Outlet where
  format : Format
  /-- Nothing passes any more. -/
  closed : Bool := false
  sending : Sending := .idle
  closing : Closing := .notYet
  /-- What the pipe has not taken yet. -/
  buffer : Bytes := []
  /-- What the pipe has taken. -/
  written : Bytes := []
  /-- The pipe takes nothing any more. -/
  shut : Bool := false

namespace Outlet

/-- The lock is held. -/
def isLocked (o : Outlet) : Bool :=
  match o.sending, o.closing with
  | .locked _, _ => true
  | .begun _, _ => true
  | _, .locked => true
  | _, _ => false

/-! ## Sending -/

/-- A message comes to be sent. -/
def pass (o : Outlet) (m : Message) : Except TransportError Outlet :=
  if o.closed then .error .closed else .ok { o with sending := .passed m }

def lock (o : Outlet) : Option Outlet :=
  match o.sending with
  | .passed m => if o.isLocked then none else some { o with sending := .locked m }
  | _ => none

def begin (o : Outlet) : Option Outlet :=
  match o.sending with
  | .locked m => some { o with sending := .begun m, buffer := o.buffer ++ encode o.format m }
  | _ => none

/-- The pipe takes some bytes from whoever holds the lock. -/
def flow (o : Outlet) (count : Nat) : Option Outlet :=
  if o.isLocked = true ∧ o.shut = false then
    some { o with written := o.written ++ o.buffer.take count, buffer := o.buffer.drop count }
  else none

/-- A message has been sent, once the pipe has taken all that is in the buffer. -/
def finish (o : Outlet) : Option Outlet :=
  match o.sending, o.buffer with
  | .begun _, [] => some { o with sending := .idle }
  | _, _ => none

/-- The pipe fails while a message is being sent. -/
def fail (o : Outlet) : Option Outlet :=
  match o.sending with
  | .locked _ => some { o with sending := .idle }
  | .begun _ => some { o with sending := .idle }
  | _ => none

/-! ## Closing -/

/-- The end of receiving closes the connection and leaves the pipe alone. -/
def hear (o : Outlet) : Outlet :=
  { o with closed := true }

def close (o : Outlet) : Outlet :=
  { o with closed := true, closing := if o.closing = .notYet then .waiting else o.closing }

def lockToClose (o : Outlet) : Option Outlet :=
  if o.closing = .waiting ∧ o.isLocked = false then some { o with closing := .locked } else none

def shutDown (o : Outlet) : Option Outlet :=
  if o.closing = .locked ∧ o.buffer = [] then some { o with closing := .over, shut := true } else none

/-- The pipe fails while it is being closed, or whoever closes it goes away. -/
def giveUp (o : Outlet) : Option Outlet :=
  if o.closing = .waiting ∨ o.closing = .locked then some { o with closing := .over } else none

end Outlet
end EditorLink.Wire
