import EditorLink.CommandLine
import EditorLink.Configuration.Basic
import EditorLink.Configuration.Loading
import EditorLink.Configuration.Sources
import EditorLink.Configuration.Substitution
import EditorLink.Configuration.Variables
import EditorLink.Dial
import EditorLink.Endpoint
import EditorLink.Extension.Dispatch
import EditorLink.Extension.Facade
import EditorLink.Extension.Handling
import EditorLink.Extension.Loading
import EditorLink.Extension.Program
import EditorLink.Extension.Workspace
import EditorLink.Failure
import EditorLink.Files.Path
import EditorLink.Files.Tree
import EditorLink.Host.Inbound
import EditorLink.Host.KeyPress
import EditorLink.Json.Printer
import EditorLink.Json.Reader
import EditorLink.Keyed
import EditorLink.Link
import EditorLink.Log
import EditorLink.Main
import EditorLink.Message
import EditorLink.Notice
import EditorLink.Number.Double
import EditorLink.Number.Literal
import EditorLink.Number.Shortest
import EditorLink.Pack.Head
import EditorLink.Pack.Reader
import EditorLink.Pack.Writer
import EditorLink.Package.Manifest
import EditorLink.Package.Source
import EditorLink.Record
import EditorLink.Registry.Condition
import EditorLink.Registry.Dialogs
import EditorLink.Registry.Listeners
import EditorLink.Registry.Setting
import EditorLink.Service
import EditorLink.Session.Control
import EditorLink.Session.Ends
import EditorLink.Session.State
import EditorLink.Session.Step
import EditorLink.Text.Blank
import EditorLink.Text.Bytes
import EditorLink.Text.Hex
import EditorLink.Text.Quoted
import EditorLink.Toml.Item
import EditorLink.Toml.Reader
import EditorLink.Value
import EditorLink.Wire.Codec
import EditorLink.Wire.Inlet
import EditorLink.Wire.Outlet
import EditorLink.Wire.Scan
import EditorLink.Yaml.Cursor
import EditorLink.Yaml.Meaning
import EditorLink.Yaml.Node
import EditorLink.Yaml.Scalar
import EditorLink.Yaml.Token
import EditorLink.Proofs.Link.Table
import EditorLink.Proofs.Link.Exchange
import EditorLink.Proofs.Link.Invariant
import EditorLink.Proofs.Link.Numbering
import EditorLink.Proofs.Link.Wire
import EditorLink.Proofs.Link.Correlation
import EditorLink.Proofs.Link.Closing
import EditorLink.Proofs.Session.Chronicle
import EditorLink.Proofs.Session.Course
import EditorLink.Proofs.Session.Moves
import EditorLink.Proofs.Session.Tasks
import EditorLink.Proofs.Session.Handlers
import EditorLink.Proofs.Session.Replies
import EditorLink.Proofs.Session.Delivery
import EditorLink.Proofs.Text.Bytes
import EditorLink.Proofs.Number.Digits
import EditorLink.Proofs.Keyed
import EditorLink.Proofs.Record
import EditorLink.Proofs.Value
import EditorLink.Proofs.Json.Tokens
import EditorLink.Proofs.Json.RoundTrip
import EditorLink.Proofs.Message
import EditorLink.Proofs.Pack.Heads
import EditorLink.Proofs.Pack.RoundTrip
import EditorLink.Proofs.Wire.Grammar
import EditorLink.Proofs.Wire.Walk
import EditorLink.Proofs.Wire.Runs
import EditorLink.Proofs.Wire.Cuts
import EditorLink.Proofs.Wire.Frames
import EditorLink.Proofs.Wire.Lines
import EditorLink.Proofs.Wire.Pieces
import EditorLink.Proofs.Wire.Calls
import EditorLink.Proofs.Wire.Failures
import EditorLink.Proofs.Session.Aside
import EditorLink.Proofs.Session.Verdict
import EditorLink.Proofs.Wire.Inlets
import EditorLink.Proofs.Session.Arrival
import EditorLink.Proofs.Session.Ending
import EditorLink.Proofs.Session.Slots
import EditorLink.Proofs.Extension.Runs
import EditorLink.Proofs.Extension.Loading
import EditorLink.Proofs.Session.Turns
import EditorLink.Proofs.Session.Order
import EditorLink.Proofs.Session.Effects
import EditorLink.Proofs.Session.Outflow
import EditorLink.Proofs.Session.Outbound
import EditorLink.Proofs.Session.Tending
import EditorLink.Proofs.Extension.Rules
import EditorLink.Proofs.Extension.Lifecycle
import EditorLink.Proofs.Extension.Pairing
import EditorLink.Proofs.Files.Places
import EditorLink.Proofs.Extension.Finding
import EditorLink.Proofs.Extension.Candor
import EditorLink.Proofs.Extension.Announcements
import EditorLink.Proofs.Configuration.Overlay
import EditorLink.Proofs.Configuration.Sources
import EditorLink.Proofs.Configuration.Substitution
import EditorLink.Proofs.Configuration.Settings
import EditorLink.Proofs.Configuration.Combination
import EditorLink.Proofs.Configuration.Precedence
import EditorLink.Proofs.Wire.Recognition
import EditorLink.Proofs.Configuration.Expansion
import EditorLink.Proofs.Extension.Prompts
import EditorLink.Proofs.Extension.LiveDialogs
import EditorLink.Proofs.Extension.Registrations
import EditorLink.Proofs.Extension.Dispatches
import EditorLink.Proofs.Registry.LeadingInteger
import EditorLink.Proofs.Registry.Coercion
import EditorLink.Proofs.Session.Begun
import EditorLink.Proofs.Extension.Screening
import EditorLink.Proofs.Registry.Comparison
import EditorLink.Proofs.Host.Inbound
import EditorLink.Proofs.Endpoint
import EditorLink.Proofs.Wire.Counters
