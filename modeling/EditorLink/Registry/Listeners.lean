import EditorLink.Keyed

/-!
# EditorLink.Registry.Listeners -- listeners by event type

Each event type has its listeners in the order of registration, and one listener may be registered several times. Removal takes away the
first registration of exactly that listener and leaves other types alone. A dispatch works on the list as it was when the dispatch
began, so what listeners do to the list concerns later dispatches only.
-/

namespace EditorLink.Registry

/-- A piece of registered code. Two registrations are of one listener exactly when they have one id. -/
abbrev CodeId := Nat

/-- Event types and their listeners, first registered first. -/
abbrev Listeners := Keyed (List CodeId)

namespace Listeners

/-- The filter type fed by command events. -/
def commandType : String := "command"

/-- The filter type fed by focus changes. -/
def focusType : String := "focusChanged"

/-- The filter type asked before a command runs. -/
def runCommandType : String := "runCommand"

def of (ls : Listeners) (type : String) : List CodeId :=
  (ls.get? type).getD []

/-- One more registration, after all others of its type. -/
def add (ls : Listeners) (type : String) (id : CodeId) : Listeners :=
  ls.insert type (ls.of type ++ [id])

/-- Without the first registration of the listener under the type. -/
def remove (ls : Listeners) (type : String) (id : CodeId) : Listeners :=
  if (ls.of type).contains id then ls.insert type ((ls.of type).erase id) else ls

/-- The listener is registered under the type. -/
def has (ls : Listeners) (type : String) (id : CodeId) : Bool :=
  (ls.of type).contains id

end Listeners
end EditorLink.Registry
