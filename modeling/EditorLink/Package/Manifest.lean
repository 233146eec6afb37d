import EditorLink.Registry.Setting
import EditorLink.Text.Quoted

/-!
# EditorLink.Package.Manifest -- what a package says about itself
-/

namespace EditorLink.Package

open Registry (Setting)

structure Manifest where
  name : String
  version : Option String := none
  description : Option String := none
  /-- The id of the package's extension; the name if there is none. -/
  main : Option String := none
  /-- A menu definition, relative to the package directory. -/
  menu : Option String := none
  /-- Declared settings in the order of their names. -/
  settings : Keyed Setting := []

namespace Manifest

/-- The id under which the package's extension is looked up. -/
def entry (m : Manifest) : String :=
  m.main.getD m.name

end Manifest

/-- A package that has been loaded. -/
structure Loaded where
  manifest : Manifest
  dir : String
  /-- It has an extension, which was activated. -/
  active : Bool

/-- A loaded package as reports show it. -/
def Loaded.text (p : Loaded) : String :=
  "LoadedPackage \x7b name: " ++ Text.quoted p.manifest.name ++ ", dir: " ++ Text.quoted p.dir ++
    ", active: " ++ (if p.active then "true" else "false") ++ " \x7d"

end EditorLink.Package
