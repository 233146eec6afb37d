import EditorLink.Message

/-!
# EditorLink.Link -- calls and replies over one connection

A **link** is the sending side of a connection: the calls that wait for a reply and the queue of messages to be written. Its
operations are atomic, and any interleaving of them is a possible history:

* `invoke` registers a call under a fresh id and queues its request; once the link is closed it refuses instead;
* `notify` and `answer` queue a message;
* `takeOutbound` takes the next message to be written, and `writeFailed` is told when that did not work: a request then fails its call;
* `resolve` hands a reply to the call with its id, and fails when there is none;
* `close` fails all calls. The reason of the first close stays.

A caller that goes away leaves its call registered, since the host may still reply to it. So the registered ids are those of the
queued and written requests that have no reply yet, whoever still waits.
-/

namespace EditorLink

/-- A call that waits for the host. -/
structure PendingCall (Caller : Type) where
  id : UInt32
  method : String
  caller : Caller

/-- What a call ends with. -/
abbrev CallResult := Except Failure Value

/-- The end of a call, for whoever waits. -/
structure Completion (Caller : Type) where
  call : PendingCall Caller
  result : CallResult

structure Link (Caller : Type) where
  /-- The id that the next call tries first. -/
  nextId : UInt32 := 1
  /-- Calls without an outcome, lowest id first. -/
  pending : List (PendingCall Caller) := []
  /-- Why the link was closed, once it is. -/
  closedWith : Option TransportError := none
  /-- Messages to be written, next one first. -/
  outbound : List Message := []

namespace Link

variable {Caller : Type}

/-! ## Registered calls -/

def find? (l : Link Caller) (id : UInt32) : Option (PendingCall Caller) :=
  l.pending.find? (·.id = id)

def holds (l : Link Caller) (id : UInt32) : Bool :=
  l.pending.any (·.id = id)

/-- The first id from `id` on that no call holds, looked for among `fuel` ids. -/
def freeId? (l : Link Caller) : (fuel : Nat) → (id : UInt32) → Option UInt32
  | 0, _ => none
  | fuel + 1, id => if l.holds id then l.freeId? fuel (id + 1) else some id

/-- Puts a call into the table, which stays ordered by id. -/
def insertCall (c : PendingCall Caller) : List (PendingCall Caller) → List (PendingCall Caller)
  | [] => [c]
  | d :: rest => if c.id < d.id then c :: d :: rest else d :: insertCall c rest

/-- The table without the call of an id. -/
def dropCall (l : Link Caller) (id : UInt32) : Link Caller :=
  { l with pending := l.pending.filter (·.id ≠ id) }

/-! ## Sending -/

def send (l : Link Caller) (m : Message) : Link Caller :=
  { l with outbound := l.outbound ++ [m] }

def notify (l : Link Caller) (method : String) (args : List Value) : Link Caller :=
  l.send (.notify method args)

def answer (l : Link Caller) (id : UInt32) (outcome : Outcome) : Link Caller :=
  l.send (.reply id outcome)

/-- Registers a call and queues its request, or says why the link is closed. Among one more id than there are calls one is free,
unless calls hold all ids there are: then the search for a free one never ends, which is `none`. -/
def invoke (l : Link Caller) (caller : Caller) (method : String) (args : List Value) :
    Option (Except TransportError (UInt32 × Link Caller)) :=
  match l.closedWith with
  | some reason => some (.error reason)
  | none =>
    match l.freeId? (l.pending.length + 1) l.nextId with
    | none => none
    | some id =>
      let call := ⟨id, method, caller⟩
      some (.ok (id, { l with nextId := id + 1, pending := insertCall call l.pending }.send (.request id method args)))

/-- The next message to be written, and the link without it. -/
def takeOutbound (l : Link Caller) : Option (Message × Link Caller) :=
  match l.outbound with
  | [] => none
  | m :: rest => some (m, { l with outbound := rest })

/-! ## Outcomes -/

/-- What a reply means for the caller of a method. -/
def resultOf (method : String) : Outcome → CallResult
  | .ok v => .ok v
  | .error payload => .error (.remote method payload)

/-- Ends the call of a reply; a reply without a call is a failure. -/
def resolve (l : Link Caller) (id : UInt32) (outcome : Outcome) :
    Except Failure (Completion Caller × Link Caller) :=
  match l.find? id with
  | none => .error (.unmatchedReply id)
  | some call => .ok (⟨call, resultOf call.method outcome⟩, l.dropCall id)

/-- Ends one call with a failure of the connection, if it is still registered. -/
def reject (l : Link Caller) (id : UInt32) (reason : TransportError) :
    Option (Completion Caller) × Link Caller :=
  ((l.find? id).map fun call => ⟨call, .error (.transport reason)⟩, l.dropCall id)

/-- A message could not be written: a request ends its call. -/
def writeFailed (l : Link Caller) (m : Message) (reason : TransportError) :
    Option (Completion Caller) × Link Caller :=
  match m.requestId? with
  | some id => l.reject id reason
  | none => (none, l)

/-- Ends every call and refuses new ones from now on. -/
def close (l : Link Caller) (reason : TransportError) : List (Completion Caller) × Link Caller :=
  (l.pending.map fun call => ⟨call, .error (.transport reason)⟩,
    { l with pending := [], closedWith := l.closedWith.or (some reason) })

def isClosed (l : Link Caller) : Bool :=
  l.closedWith.isSome

end Link
end EditorLink
