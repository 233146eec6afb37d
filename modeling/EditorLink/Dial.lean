import EditorLink.Endpoint
import EditorLink.Files.Tree
import EditorLink.Number.Literal

/-!
# EditorLink.Dial -- reaching an endpoint

A tree of files has no sockets in it, and there is no network behind it, so nobody listens at a path or an address. Only the standard streams
are always there. For the other endpoints, `Endpoint.dial` says why they cannot be reached.
-/

namespace EditorLink

open Text

namespace Endpoint

/-! ## Socket paths -/

/-- Bytes that a socket path has to stay below. -/
def maxSocketPath : Nat := 108

/-- Why there is nobody at a path. -/
def pathFault (files : Files.Tree) (path : String) : String :=
  if path = "" then "Invalid argument (os error 22)"
  else if maxSocketPath ≤ path.utf8ByteSize then "path must be shorter than SUN_LEN"
  else match files.find path with
    | .error fault => fault.message
    | .ok _ => "Connection refused (os error 111)"

/-! ## Addresses -/

/-- What precedes the last colon, and what follows it. -/
def splitPort? (address : String) : Option (List Char × List Char) :=
  let cs := address.toList.reverse
  match cs.span (· ≠ ':') with
  | (_, []) => none
  | (port, _ :: host) => some (host.reverse, port.reverse)

def isPort (cs : List Char) : Bool :=
  match intOfChars? cs with
  | some n => 0 ≤ n && n < 0x10000 && cs.head? ≠ some '-'
  | none => false

/-- Four numbers below 256 with points between them. -/
def isNumericHost (cs : List Char) : Bool :=
  let parts := (String.ofList cs).splitOn "."
  parts.length = 4 && parts.all fun p =>
    !p.isEmpty && p.toList.all isDigit && p.length ≤ 3 && digitsToNat p.toList < 256

/-- A host that needs no name service. -/
def isKnownHost (cs : List Char) : Bool :=
  isNumericHost cs || cs.head? = some '[' || cs = "localhost".toList

/-- Why there is nobody at an address. -/
def addressFault (address : String) : String :=
  match splitPort? address with
  | none => "invalid socket address"
  | some (host, port) =>
    if !isPort port then "invalid port value"
    else if isKnownHost host then "Network is unreachable (os error 101)"
    else "failed to lookup address information: Temporary failure in name resolution"

/-! ## Dialling -/

def dialFault (target reason : String) : TransportError :=
  .connectionFailed ("Failed to connect to " ++ target ++ ": " ++ reason)

/-- Connects to an endpoint, or says why that fails. -/
def dial (files : Files.Tree) : Endpoint → Except TransportError Unit
  | stdio => .ok ()
  | unix path => .error (dialFault path (pathFault files path))
  | tcp address => .error (dialFault address (addressFault address))

/-- The transport that leads to an endpoint. -/
def transport : Endpoint → String
  | unix _ => "Unix"
  | tcp _ => "Tcp"
  | stdio => "Stdio"

end Endpoint
end EditorLink
