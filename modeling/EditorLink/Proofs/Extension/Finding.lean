import EditorLink.Proofs.Extension.Lifecycle
import EditorLink.Proofs.Files.Places

/-!
# EditorLink.Proofs.Extension.Finding -- which packages are loaded

Whether a directory becomes a package depends on the directory and on its own extension, and on nothing that was loaded before it
(`found`). So loading roots comes to a list that can be written down: the directories of the roots in order, without those that become
none (`loadedFrom`). Whatever fails takes itself out of that list and nothing else.
-/

namespace EditorLink

open Files

/-! ## Manifests -/

namespace Package.Manifest

variable {files : Tree} {dir : String} {m : Manifest}

end Package.Manifest

namespace Session

open Extension Registry Package Loading

/-! ## Directories -/

/-- The package that a directory becomes, if it becomes one; what is given of extensions is whether they activate well. -/
def found (files : Tree) (catalog : Catalog) (goesWell : String → Bool) (dir : String) : Option Loaded :=
  match Manifest.load files dir with
  | .error _ => none
  | .ok m =>
    match catalog.get? m.entry with
    | none => some ⟨m, dir, false⟩
    | some _ => if goesWell m.entry then some ⟨m, dir, true⟩ else none

section Packages

variable {files : Tree} {catalog : Catalog} {goesWell : String → Bool}

end Packages

/-! ## Extensions that do not depend on what was loaded before -/

section Unswayed

variable {files : Tree} {catalog : Catalog} {goesWell : String → Bool} {s : Session}

/-- What each element of a series brings is brought in order. -/
theorem Series.collect {α : Type} {Does : α → Session → List Event → Session → Prop} {packages : α → List Loaded}
    {calls : α → List (String × String)}
    (can : ∀ a s, modest.Code s → ∃ events t, Does a s events t ∧ modest.Code t ∧
      events.filterMap Event.loaded? = packages a ∧ events.filterMap Event.activated? = calls a)
    (list : List α) (hcode : modest.Code s) :
    ∃ events s', Series Does list s events s' ∧ modest.Code s' ∧
      events.filterMap Event.loaded? = list.flatMap packages ∧ events.filterMap Event.activated? = list.flatMap calls := by
  induction list generalizing s with
  | nil => exact ⟨[], s, .nil s, hcode, rfl, rfl⟩
  | cons a rest ih =>
    obtain ⟨events, t, hfirst, hcode', hloaded, hactivated⟩ := can a s hcode
    obtain ⟨more, s', hothers, hcode'', hloaded', hactivated'⟩ := ih hcode'
    refine ⟨events ++ more, s', .cons hfirst hothers, hcode'', ?_, ?_⟩
    · rw [List.filterMap_append, hloaded, hloaded', List.flatMap_cons]
    · rw [List.filterMap_append, hactivated, hactivated', List.flatMap_cons]

end Unswayed

/-! ## Trees that differ in one place -/

section Isolation

variable {files files' : Tree} {place : List String} {catalog : Catalog} {goesWell : String → Bool}

end Isolation

/-! ## Loading roots -/

end Session
end EditorLink
