import EditorLink.Value

/-!
# EditorLink.Record -- records inside values

A **record** has declared fields. A value gives it either as an object or as an array of the field values in the declared order, whose
trailing fields may be absent. In an object, fields that are not declared are ignored, and a declared field may not be given twice,
also not once under each of two names.
-/

namespace EditorLink.Record

/-- The name of a field, followed by its other names. -/
abbrev Names := List String

/-- What an object gives for one declared field; the outer `none` means twice. -/
def slot? (fields : Fields) (names : Names) : Option (Option Value) :=
  match fields.filter fun f => names.contains f.1 with
  | [] => some none
  | [f] => some (some f.2)
  | _ => none

/-- What a value gives for each declared field, if it can be read as a record. -/
def slots? (declared : List Names) : Value → Option (List (Option Value))
  | .object fields => declared.mapM (slot? fields)
  | .array items =>
    if declared.length < items.length then none
    else some (items.map some ++ List.replicate (declared.length - items.length) none)
  | _ => none

/-! ## Reading one field -/

/-- A field that has to be given. -/
def required? {α : Type} (read : Value → Option α) (slot : Option Value) : Option α :=
  slot.bind read

/-- A field that is read as `fallback` when it is not given. -/
def withDefault? {α : Type} (fallback : α) (read : Value → Option α) : Option Value → Option α
  | none => some fallback
  | some v => read v

/-- A field that may be absent or null. -/
def optional? {α : Type} (read : Value → Option α) : Option Value → Option (Option α)
  | none => some none
  | some .null => some none
  | some v => (read v).map some

end EditorLink.Record
