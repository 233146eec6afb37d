import EditorLink.Package.Manifest
import EditorLink.Registry.Dialogs
import EditorLink.Registry.Setting

/-!
# EditorLink.Extension.Workspace -- what extensions register

The workspace is all the data that extension code shares: who registered what, the events under way, the open dialogs, the entities that
the host has named, and the loaded packages. Code itself is not in it: registered code is known by its id.
-/

namespace EditorLink.Extension

open Registry Package

/-- Events are known by number; listeners of one event share its fields. -/
abbrev EventId := Nat

/-- The kinds of thing in the host that a handle can name. -/
inductive EntityKind where
  | tabView
  | tabViewGroup
  | textEditView
  | window
  | statusBar
  deriving DecidableEq, Repr

/-- The name under which the host knows the kind. -/
def EntityKind.name : EntityKind → String
  | tabView => "TabView"
  | tabViewGroup => "TabViewGroup"
  | textEditView => "TextEditView"
  | window => "Window"
  | statusBar => "StatusBar"

/-- A thing in the host, named by a number that the host gave out. -/
structure Entity where
  kind : EntityKind
  handle : UInt64
  deriving DecidableEq, Repr

/-- A handle as people read it. -/
def handleText (handle : UInt64) : String :=
  "#" ++ toString handle.toNat

/-- An entity as reports show it. -/
def Entity.text (e : Entity) : String :=
  e.kind.name ++ " \x7b remote: Remote(" ++ handleText e.handle ++ ") \x7d"

structure Workspace where
  commands : Keyed CodeId := []
  contexts : Keyed CodeId := []
  settings : Keyed Setting := []
  listeners : Listeners := []
  /-- Listeners that can be named again, to register or to remove them. -/
  listenerKeys : Keyed CodeId := []
  dialogs : Dialogs := {}
  /-- Fields of the events made so far; an event's id is its place. -/
  events : Array Fields := #[]
  /-- Entities that factories of this session have returned. -/
  entities : List Entity := []
  /-- Loaded packages, first loaded first. -/
  packages : List Loaded := []
  /-- Where user packages are installed. -/
  packageDir : String := ""

namespace Workspace

/-! ## Events -/

/-- The id of the next event. -/
def nextEvent (w : Workspace) : EventId := w.events.size

def addEvent (fields : Fields) (w : Workspace) : Workspace :=
  { w with events := w.events.push fields }

def eventFields (w : Workspace) (e : EventId) : Fields :=
  w.events.getD e []

/-- Sets one field, for everybody who shares the event. -/
def setField (e : EventId) (key : String) (value : Value) (w : Workspace) : Workspace :=
  { w with events := w.events.modify e (Keyed.insert key value) }

/-- A field of an event, if it is a text. -/
def eventText? (w : Workspace) (e : EventId) (key : String) : Option String :=
  ((w.eventFields e).get? key).bind Value.text?

/-- A field of an event, false unless it is true. -/
def eventFlag (w : Workspace) (e : EventId) (key : String) : Bool :=
  (((w.eventFields e).get? key).bind Value.flag?).getD false

/-! ## Registrations -/

def addCommand (name : String) (code : CodeId) (w : Workspace) : Workspace :=
  { w with commands := w.commands.insert name code }

def dropCommand (name : String) (w : Workspace) : Workspace :=
  { w with commands := w.commands.erase name }

def addContext (name : String) (code : CodeId) (w : Workspace) : Workspace :=
  { w with contexts := w.contexts.insert name code }

def dropContext (name : String) (w : Workspace) : Workspace :=
  { w with contexts := w.contexts.erase name }

def addSetting (name : String) (s : Setting) (w : Workspace) : Workspace :=
  { w with settings := w.settings.insert name s }

def addListener (type : String) (code : CodeId) (w : Workspace) : Workspace :=
  { w with listeners := w.listeners.add type code }

def dropListener (type : String) (code : CodeId) (w : Workspace) : Workspace :=
  { w with listeners := w.listeners.remove type code }

def openDialog (callback : Option CodeId) (w : Workspace) : Workspace :=
  { w with dialogs := w.dialogs.opened callback }

def closeDialog (id : UInt64) (w : Workspace) : Workspace :=
  { w with dialogs := w.dialogs.closed id }

def addEntity (e : Entity) (w : Workspace) : Workspace :=
  { w with entities := e :: w.entities }

def addPackage (p : Loaded) (w : Workspace) : Workspace :=
  { w with packages := w.packages ++ [p] }

def dropPackages (w : Workspace) : Workspace :=
  { w with packages := [] }

end Workspace
end EditorLink.Extension
