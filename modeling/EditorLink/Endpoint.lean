import EditorLink.Failure
import EditorLink.Text.Blank

/-!
# EditorLink.Endpoint -- where the host listens

An endpoint is written `-` or `stdio`, `tcp://ADDRESS`, `unix://PATH`, or as a bare socket path. Blanks around the text do not
count. The written form that `Endpoint.text` gives always carries its scheme.
-/

namespace EditorLink

open Text

inductive Endpoint where
  | unix (path : String)
  | tcp (address : String)
  | stdio
  deriving DecidableEq, Repr

namespace Endpoint

def tcpScheme : List Char := "tcp://".toList

def unixScheme : List Char := "unix://".toList

/-- The endpoint that a text names, its blanks at both ends taken off already. -/
def ofTrimmed (cs : List Char) : Except ConfigError Endpoint :=
  if cs.isEmpty then .error (.validation .blankEndpoint)
  else if cs = ['-'] ∨ cs = "stdio".toList then .ok .stdio
  else match dropLead? tcpScheme cs with
    | some [] => .error (.validation (.tcpEndpoint (String.ofList cs)))
    | some address => .ok (.tcp (String.ofList address))
    | none => match dropLead? unixScheme cs with
      | some path => .ok (.unix (String.ofList path))
      | none => .ok (.unix (String.ofList cs))

def parse (s : String) : Except ConfigError Endpoint :=
  ofTrimmed (trim s.toList)

def text : Endpoint → String
  | unix path => "unix://" ++ path
  | tcp address => "tcp://" ++ address
  | stdio => "stdio"

end Endpoint
end EditorLink
