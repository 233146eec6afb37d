import EditorLink.Registry.Listeners

/-!
# EditorLink.Registry.Dialogs -- input dialogs that are on the screen

Every dialog gets the next id, and the ones that want to hear about text changes have their code kept under it until the dialog is
gone. No id is used twice before the counter comes round.
-/

namespace EditorLink.Registry

structure Dialogs where
  /-- The last id given out. -/
  last : UInt64 := 0
  /-- The dialogs with code for text changes, latest first. -/
  callbacks : List (UInt64 × CodeId) := []

namespace Dialogs

/-- The id of the next dialog. -/
def fresh (d : Dialogs) : UInt64 := d.last + 1

/-- A new dialog, perhaps with code for text changes. -/
def opened (d : Dialogs) (callback : Option CodeId) : Dialogs :=
  { last := d.fresh
    callbacks := match callback with
      | some code => (d.fresh, code) :: d.callbacks
      | none => d.callbacks }

/-- The dialog is gone. -/
def closed (d : Dialogs) (id : UInt64) : Dialogs :=
  { d with callbacks := d.callbacks.filter (·.1 ≠ id) }

def callback? (d : Dialogs) (id : UInt64) : Option CodeId :=
  (d.callbacks.find? (·.1 = id)).map (·.2)

end Dialogs
end EditorLink.Registry
