import EditorLink.Json.Printer

/-!
# EditorLink.Failure -- what can go wrong

Each layer has its own failures and `Failure` gathers them. A failure is a cause; its wording is one function beside the
type, and nothing else in the library makes error text. A cause that only the environment can word (the operating
system, a caller) carries that text.
-/

namespace EditorLink

private def countText (n : Nat) : String := toString n

/-! ## Messages and frames -/

/-- The three kinds of message. -/
inductive MessageKind where
  | request
  | reply
  | notification
  deriving DecidableEq, Repr

namespace MessageKind

def noun : MessageKind → String
  | request => "request"
  | reply => "reply"
  | notification => "notification"

/-- Elements of the array that carries a message of this kind. -/
def arity : MessageKind → Nat
  | request => 4
  | reply => 4
  | notification => 3

end MessageKind

/-- What is wrong with the shape of a message or of its arguments. -/
inductive ShapeFault where
  | notAnArray
  | noKind
  | elementCount (kind : MessageKind) (count : Nat)
  | requestId (found : Value)
  | methodName (found : Value)
  /-- A positional argument is absent or of the wrong type. -/
  | argument (name : String)
  | described (reason : String)

def ShapeFault.message : ShapeFault → String
  | notAnArray => "message is not an array"
  | noKind => "missing message kind"
  | elementCount kind count =>
    kind.noun ++ " has " ++ countText count ++ " elements, expected " ++ countText kind.arity
  | requestId found => "invalid request id: " ++ Json.print found
  | methodName found => "method name is not a string: " ++ Json.print found
  | argument name => "missing or invalid argument '" ++ name ++ "'"
  | described reason => reason

/-- Why the bytes of a frame give no value. -/
inductive DecodeFault where
  /-- The byte `0xc1`, which starts no MessagePack value. -/
  | reservedMarker (byte : UInt8)
  /-- The stream ended with this many bytes of a frame. -/
  | cutShort (buffered : Nat)
  | notText
  | notJson
  | notMessagePack
  | described (reason : String)

private def hexPair (b : UInt8) : String :=
  String.ofList [Text.hexDigit (b.toNat / 16), Text.hexDigit (b.toNat % 16)]

def DecodeFault.message : DecodeFault → String
  | reservedMarker byte => "reserved MessagePack marker 0x" ++ hexPair byte
  | cutShort buffered => "stream ended inside a frame (" ++ countText buffered ++ " bytes buffered)"
  | notText => "the line is not UTF-8 text"
  | notJson => "the line is not one JSON value"
  | notMessagePack => "the frame holds no value that JSON could hold"
  | described reason => reason

inductive ProtocolError where
  | invalidShape (fault : ShapeFault)
  | unknownKind (kind : UInt64)
  | frameTooLarge (size limit : Nat)
  | encode (reason : String)
  | decode (fault : DecodeFault)
  | io (reason : String)

def ProtocolError.message : ProtocolError → String
  | invalidShape fault => "Invalid message shape: " ++ fault.message
  | unknownKind kind => "Unknown message kind: " ++ countText kind.toNat
  | frameTooLarge size limit =>
    "Frame of " ++ countText size ++ " bytes exceeds limit of " ++ countText limit ++ " bytes"
  | encode reason => "Encode error: " ++ reason
  | decode fault => "Decode error: " ++ fault.message
  | io reason => "IO error: " ++ reason

/-! ## The connection -/

inductive TransportError where
  | connectionFailed (reason : String)
  | sendFailed (reason : String)
  | receiveFailed (reason : String)
  | closed
  | malformedFrame (reason : String)
  deriving DecidableEq, Repr

def TransportError.message : TransportError → String
  | connectionFailed reason => "Connection failed: " ++ reason
  | sendFailed reason => "Send failed: " ++ reason
  | receiveFailed reason => "Receive failed: " ++ reason
  | closed => "Transport closed"
  | malformedFrame reason => "Malformed frame: " ++ reason

/-- A protocol failure as the connection reports it. -/
def ProtocolError.toTransport : ProtocolError → TransportError
  | io reason => .receiveFailed reason
  | e => .malformedFrame e.message

/-! ## Settings and packages -/

/-- A setting or an endpoint that is not acceptable. -/
inductive ValidationFault where
  | frameLimit (least given : Nat)
  | noHandlers
  | blankLogLevel
  | logLevel (level : String)
  | logFile (path : String)
  | blankEndpoint
  | tcpEndpoint (text : String)
  | described (reason : String)

def ValidationFault.message : ValidationFault → String
  | frameLimit least given =>
    "wire.maxFrameBytes must be at least " ++ countText least ++ ", got " ++ countText given
  | noHandlers => "dispatch.maxInFlight must be greater than 0"
  | blankLogLevel => "logging.level must not be empty"
  | logLevel level => "Invalid log level '" ++ level ++ "'"
  | logFile path => "Invalid log file: " ++ path
  | blankEndpoint => "endpoint must not be empty"
  | tcpEndpoint text => "invalid TCP endpoint: " ++ text
  | described reason => reason

/-- Why a configuration source gives no configuration. -/
inductive ConfigParseFault where
  | notFound (path : String)
  | unsupported
  /-- The text is not in its format, or its settings have the wrong types. -/
  | content (reason : String)

def ConfigParseFault.message : ConfigParseFault → String
  | notFound path => "Config file not found: " ++ path
  | unsupported => "Unsupported config file format. Use .toml, .json, .yaml, or .yml"
  | content reason => reason

inductive ConfigError where
  | validation (fault : ValidationFault)
  | parse (fault : ConfigParseFault)
  /-- A reference to a variable that is not set, or a text about it. -/
  | unsetVariable (name : String)
  | environment (reason : String)

def ConfigError.message : ConfigError → String
  | validation fault => "Validation error: " ++ fault.message
  | parse fault => "Parse error: " ++ fault.message
  | unsetVariable name => "Environment variable error: Environment variable '" ++ name ++ "' not found"
  | environment reason => "Environment variable error: " ++ reason

/-- Why a manifest file gives no manifest. -/
inductive ManifestFault where
  | blankName
  | content (reason : String)

def ManifestFault.message : ManifestFault → String
  | blankName => "package name is empty"
  | content reason => reason

inductive PackageError where
  | manifest (path : String) (fault : ManifestFault)
  | missingManifest (dir : String)
  | unreadableRoot (reason : String)
  | activation (package reason : String)

def PackageError.message : PackageError → String
  | manifest path fault => "Invalid manifest " ++ path ++ ": " ++ fault.message
  | missingManifest dir => "No manifest found in " ++ dir
  | unreadableRoot reason => "Package root is not readable: " ++ reason
  | activation package reason => "Activation of '" ++ package ++ "' failed: " ++ reason

/-! ## All failures -/

/-- What a call, a load or a session can end with. -/
inductive Failure where
  | config (e : ConfigError)
  | transport (e : TransportError)
  /-- The host answered this method with a failure. -/
  | remote (method : String) (payload : Value)
  | protocol (e : ProtocolError)
  | package (e : PackageError)
  | io (reason : String)
  | serialization (reason : String)
  | unmatchedReply (id : UInt32)
  | dispatchExhausted (limit : Nat)
  /-- The host's result is not of the form that the method promises. -/
  | invalidResponse (method reason : String)

def Failure.message : Failure → String
  | config e => "Configuration error: " ++ e.message
  | transport e => "Transport error: " ++ e.message
  | remote method payload => "Host rejected '" ++ method ++ "': " ++ Json.print payload
  | protocol e => "Protocol error: " ++ e.message
  | package e => "Package error: " ++ e.message
  | io reason => "IO error: " ++ reason
  | serialization reason => "Serialization error: " ++ reason
  | unmatchedReply id => "Reply " ++ countText id.toNat ++ " does not match any pending call"
  | dispatchExhausted limit =>
    "Dispatch limit of " ++ countText limit ++ " in-flight handlers exhausted"
  | invalidResponse method reason => "Unexpected response to '" ++ method ++ "': " ++ reason

end EditorLink
