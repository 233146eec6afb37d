import EditorLink.Failure

/-!
# EditorLink.Message -- messages and their wire values

A **message** is a request, a reply or a notification. On the wire it is a positional array:

    request       [0, id, method, arguments]
    reply         [1, id, error, result]
    notification  [2, method, arguments]

`Message.toValue` writes the array and `Message.ofValue` reads it. Reading is a little wider than writing: the argument slot
may hold null (no arguments) or a single value that is no array, and a reply whose error slot is not null is a failure whatever
its result slot holds. A failure with the payload null is the one message that does not survive the way there and back.
-/

namespace EditorLink

/-- How a request ended: with a result, or with the payload of a failure. -/
abbrev Outcome := Except Value Value

inductive Message where
  | request (id : UInt32) (method : String) (args : List Value)
  | reply (id : UInt32) (outcome : Outcome)
  | notify (method : String) (args : List Value)

namespace Message

/-- Requests and notifications name a method. -/
def method? : Message → Option String
  | request _ method _ => some method
  | reply _ _ => none
  | notify method _ => some method

/-- The id of a request; other messages have none that a caller waits on. -/
def requestId? : Message → Option UInt32
  | request id _ _ => some id
  | _ => none

/-! ## Writing -/

def toValue : Message → Value
  | request id method args => .array [.nat 0, .nat id.toUInt64, .string method, .array args]
  | reply id (.ok result) => .array [.nat 1, .nat id.toUInt64, .null, result]
  | reply id (.error payload) => .array [.nat 1, .nat id.toUInt64, payload, .null]
  | notify method args => .array [.nat 2, .string method, .array args]

/-! ## Reading -/

/-- A request id: a natural number of thirty-two bits. -/
def readId (v : Value) : Except ProtocolError UInt32 :=
  match v.natural? with
  | some n => if n.toNat < 0x1_0000_0000 then .ok n.toUInt32 else .error (.invalidShape (.requestId v))
  | none => .error (.invalidShape (.requestId v))

def readMethod : Value → Except ProtocolError String
  | .string s => .ok s
  | v => .error (.invalidShape (.methodName v))

/-- The arguments in an argument slot. -/
def readArgs : Value → List Value
  | .array items => items
  | .null => []
  | v => [v]

/-- The outcome that an error slot and a result slot stand for. -/
def readOutcome (error result : Value) : Outcome :=
  if error.isNull then .ok result else .error error

def readRequest : List Value → Except ProtocolError Message
  | [_, id, method, args] => do
    let id ← readId id
    let method ← readMethod method
    pure (.request id method (readArgs args))
  | items => .error (.invalidShape (.elementCount .request items.length))

def readReply : List Value → Except ProtocolError Message
  | [_, id, error, result] => do
    let id ← readId id
    pure (.reply id (readOutcome error result))
  | items => .error (.invalidShape (.elementCount .reply items.length))

def readNotify : List Value → Except ProtocolError Message
  | [_, method, args] => do
    let method ← readMethod method
    pure (.notify method (readArgs args))
  | items => .error (.invalidShape (.elementCount .notification items.length))

/-- The message that a wire value stands for. The first element names the kind. -/
def ofValue : Value → Except ProtocolError Message
  | .array items =>
    match items.head?.bind Value.natural? with
    | none => .error (.invalidShape .noKind)
    | some kind =>
      if kind = 0 then readRequest items
      else if kind = 1 then readReply items
      else if kind = 2 then readNotify items
      else .error (.unknownKind kind)
  | _ => .error (.invalidShape .notAnArray)

end Message
end EditorLink
