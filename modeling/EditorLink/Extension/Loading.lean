import EditorLink.Extension.Facade
import EditorLink.Package.Source

/-!
# EditorLink.Extension.Loading -- loading packages and letting them go

A package root is a directory, and each directory in it is one package. Loading a package declares its settings, announces its menu and
activates its extension, if the catalog has one for it. A package that fails is reported and skipped. Deactivation runs through the
loaded packages backwards and forgets them.
-/

namespace EditorLink.Extension

open Registry Package Files

/-- The code behind a package. -/
structure Hooks where
  activate : Program
  deactivate : Program

/-- Extensions by entry id. -/
abbrev Catalog := Keyed Hooks

namespace Loading

/-! ## One package -/

def declareSettings (next : Program) : Keyed Setting → Program
  | [] => next
  | (name, s) :: rest => Facade.registerSetting name s (declareSettings next rest)

def announceMenu (dir : String) (menu : Option String) (next : Program) : Program :=
  match menu with
  | some path => Facade.loadMenu (Path.join dir path) next
  | none => next

/-- Whether an activation went well, and else why not. -/
def activation (name : String) : Exit → Except PackageError Unit
  | .ended (.value _) => .ok ()
  | .ended (.failed reasons) => .error (.activation name (Ending.reasonText reasons))
  | .panicked _ => .error (.activation name "extension panicked")

/-- Activates the extension of a manifest; the result says whether there is one. -/
def activateEntry (catalog : Catalog) (m : Manifest) : Op (Except PackageError Bool) :=
  fun k =>
    match catalog.get? m.entry with
    | none => .report (.noExtension m.name m.entry) (k (.ok false))
    | some e => e.activate.andThen fun exit => k ((activation m.name exit).map fun _ => true)

def loadPackage (files : Tree) (catalog : Catalog) (dir : String) : Op (Except PackageError Loaded) :=
  fun k =>
    match Manifest.load files dir with
    | .error e => k (.error e)
    | .ok m =>
      declareSettings (announceMenu dir m.menu
        (activateEntry catalog m fun active => k (active.map fun active => ⟨m, dir, active⟩))) m.settings

/-! ## Roots -/

/-- Loads the packages in some directories, `count` being loaded already. -/
def loadDirs (files : Tree) (catalog : Catalog) (k : Nat → Program) : (count : Nat) → List String → Program
  | count, [] => k count
  | count, dir :: rest =>
    loadPackage files catalog dir fun
      | .error e => .report (.skippedPackage dir e) (loadDirs files catalog k count rest)
      | .ok p =>
        .report (.loadedPackage p.manifest.name p.active)
          (.change (Workspace.addPackage p) (loadDirs files catalog k (count + 1) rest))

/-- The package directories in a root. -/
def packageDirs (files : Tree) (root : String) : Except PackageError (List String) :=
  match files.list root with
  | .error fault => .error (.unreadableRoot (root ++ ": " ++ fault.message))
  | .ok names => .ok ((names.map (Path.join root)).filter files.isDirectory)

/-- Loads one root; the result is the number of packages loaded. -/
def loadRoot (files : Tree) (catalog : Catalog) (root : String) : Op (Except PackageError Nat) :=
  fun k =>
    match packageDirs files root with
    | .error e => k (.error e)
    | .ok dirs => loadDirs files catalog (fun n => k (.ok n)) 0 dirs

/-- Loads roots in order; roots that cannot be read are reported and skipped. -/
def loadRootsFrom (files : Tree) (catalog : Catalog) (k : Nat → Program) : (count : Nat) → List String → Program
  | count, [] => k count
  | count, root :: rest =>
    loadRoot files catalog root fun
      | .error e => .report (.skippedRoot root e) (loadRootsFrom files catalog k count rest)
      | .ok n => .report (.loadedRoot root n) (loadRootsFrom files catalog k (count + n) rest)

def loadRoots (files : Tree) (catalog : Catalog) (roots : List String) : Op Nat :=
  fun k => loadRootsFrom files catalog k 0 roots

/-! ## Deactivation -/

/-- Deactivates the extensions of some packages, in this order. -/
def deactivateEach (catalog : Catalog) (next : Program) : List Loaded → Program
  | [] => next
  | p :: rest =>
    match if p.active then catalog.get? p.manifest.entry else none with
    | none => deactivateEach catalog next rest
    | some e => e.deactivate.andThen fun
      | .ended _ => deactivateEach catalog next rest
      | .panicked _ => .report (.deactivationPanicked p.manifest.name) (deactivateEach catalog next rest)

/-- Deactivates every package, most recently loaded first. -/
def deactivateAll (catalog : Catalog) (next : Program) : Program :=
  .access Workspace.dropPackages fun w => deactivateEach catalog next w.packages.reverse

end Loading
end EditorLink.Extension
