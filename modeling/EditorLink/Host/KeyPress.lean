import EditorLink.Record

/-!
# EditorLink.Host.KeyPress -- a key press as the host describes it

A key press travels in three forms: as a record in settings and facade calls, as seven positional arguments, and as the fields of
the event that filters see.
-/

namespace EditorLink.Host

structure KeyPress where
  /-- `keyPress`, `keyDown` and so on; the type of the event. -/
  type : String
  key : String
  isRepeat : Bool := false
  altKey : Bool := false
  ctrlKey : Bool := false
  metaKey : Bool := false
  shiftKey : Bool := false
  deriving DecidableEq, Repr

namespace KeyPress

/-- The positional form. -/
def toArgs (k : KeyPress) : List Value :=
  [.string k.type, .string k.key, .bool k.isRepeat, .bool k.altKey, .bool k.ctrlKey, .bool k.metaKey, .bool k.shiftKey]

/-- The fields of the event, in key order. -/
def toFields (k : KeyPress) : Fields :=
  [("altKey", .bool k.altKey), ("ctrlKey", .bool k.ctrlKey), ("key", .string k.key), ("metaKey", .bool k.metaKey),
   ("repeat", .bool k.isRepeat), ("shiftKey", .bool k.shiftKey), ("type", .string k.type)]

/-- The record form; the modifiers may be left out. -/
def ofValue? (v : Value) : Option KeyPress := do
  match ← Record.slots? [["type"], ["key"], ["repeat"], ["altKey"], ["ctrlKey"], ["metaKey"], ["shiftKey"]] v with
  | [type, key, isRepeat, altKey, ctrlKey, metaKey, shiftKey] =>
    let flag := Record.withDefault? false Value.flag?
    pure {
      type := ← Record.required? Value.text? type
      key := ← Record.required? Value.text? key
      isRepeat := ← flag isRepeat
      altKey := ← flag altKey
      ctrlKey := ← flag ctrlKey
      metaKey := ← flag metaKey
      shiftKey := ← flag shiftKey }
  | _ => none

end KeyPress
end EditorLink.Host
