import EditorLink.Proofs.Extension.Loading
import EditorLink.Proofs.Extension.Rules

/-!
# EditorLink.Proofs.Extension.Lifecycle -- loading and letting go, on record

Loading goes through roots and through the directories of each, and letting go goes through packages; all three are `Series` of what is
done with one element after the other. What is done is put on record as **events**: calls of extensions with how they ended, and packages
that have been loaded. The loader's programs do what is described here, and come to where the description ends (`LoadsRoots.comes`,
`LetsGo.comes`); nothing in a program reads the record.

Extensions cannot reach the loader's list of packages, so code that extensions keep or run is confined to leave it alone.
-/

namespace EditorLink.Session

open Extension Registry Package Files Loading

/-! ## Events -/

inductive Event where
  /-- The extension of a package directory was activated, which ended in some way. -/
  | activated (dir entry : String) (exit : Exit)
  | loaded (p : Loaded)
  /-- All packages are let go from here on. -/
  | lettingGo
  | deactivated (dir entry : String) (exit : Exit)

namespace Event

def loaded? : Event → Option Loaded
  | loaded p => some p
  | _ => none

/-- The package directory of an extension that was activated, and the extension's entry, whatever came of it. -/
def activated? : Event → Option (String × String)
  | activated dir entry _ => some (dir, entry)
  | _ => none

/-- The same if the activation went well. -/
def begun? : Event → Option (String × String)
  | activated dir entry (.ended (.value _)) => some (dir, entry)
  | _ => none

/-- The package directory of an extension that was deactivated, and the extension's entry. -/
def deactivated? : Event → Option (String × String)
  | deactivated dir entry _ => some (dir, entry)
  | _ => none

end Event

/-- Something is done with one element after the other. -/
inductive Series {α : Type} (Does : α → Session → List Event → Session → Prop) : List α → Session → List Event → Session → Prop
  | nil (s : Session) : Series Does [] s [] s
  | cons {a : α} {rest : List α} {s t s' : Session} {events more : List Event} (first : Does a s events t)
      (others : Series Does rest t more s') : Series Does (a :: rest) s (events ++ more) s'

/-- What can be done with each element can be done with all. -/
theorem Series.total {α : Type} {Does : α → Session → List Event → Session → Prop} {Fit : Session → Prop}
    (can : ∀ a s, Fit s → ∃ events t, Does a s events t ∧ Fit t) (list : List α) {s : Session} (fit : Fit s) :
    ∃ events s', Series Does list s events s' ∧ Fit s' := by
  induction list generalizing s with
  | nil => exact ⟨[], s, .nil s, fit⟩
  | cons a rest ih =>
    obtain ⟨events, t, hfirst, hfit⟩ := can a s fit
    obtain ⟨more, s', hothers, hfit'⟩ := ih hfit
    exact ⟨events ++ more, s', .cons hfirst hothers, hfit'⟩

/-! ## Loading -/

/-- The number of packages that have been loaded. -/
def loadedCount (events : List Event) : Nat :=
  (events.filterMap Event.loaded?).length

theorem loadedCount_append (events more : List Event) : loadedCount (events ++ more) = loadedCount events + loadedCount more := by
  simp [loadedCount]

/-- What the loader does with the result for one directory. -/
def settleLoad (s : Session) (dir : String) : Except PackageError Loaded → Session
  | .error e => s.report (.skippedPackage dir e)
  | .ok p => { s.report (.loadedPackage p.manifest.name p.active) with workspace := s.workspace.addPackage p }

/-- A package that has been loaded is on record. -/
def loadEvents : Except PackageError Loaded → List Event
  | .error _ => []
  | .ok p => [.loaded p]

/-- The result for a package whose extension was activated. -/
def activeResult (m : Manifest) (dir : String) (exit : Exit) : Except PackageError Loaded :=
  (activation m.name exit).map fun _ => ⟨m, dir, true⟩

/-- One directory is loaded. -/
inductive LoadsDir (files : Tree) (catalog : Catalog) (dir : String) (s : Session) : List Event → Session → Prop
  | broken {e : PackageError} (fails : Manifest.load files dir = .error e) :
      LoadsDir files catalog dir s [] (s.settleLoad dir (.error e))
  | plain {m : Manifest} (loads : Manifest.load files dir = .ok m) (noCode : catalog.get? m.entry = none) :
      LoadsDir files catalog dir s [.loaded ⟨m, dir, false⟩]
        (((s.published dir m).report (.noExtension m.name m.entry)).settleLoad dir (.ok ⟨m, dir, false⟩))
  | active {m : Manifest} {hooks : Hooks} {exit : Exit} {t : Session} (loads : Manifest.load files dir = .ok m)
      (code : catalog.get? m.entry = some hooks) (activates : Comes (s.published dir m) hooks.activate t exit.program) :
      LoadsDir files catalog dir s (.activated dir m.entry exit :: loadEvents (activeResult m dir exit))
        (t.settleLoad dir (activeResult m dir exit))

/-- One root is loaded, with the number of packages as the result. -/
inductive LoadsRoot (files : Tree) (catalog : Catalog) (root : String) (s : Session) :
    List Event → Except PackageError Nat → Session → Prop
  | unreadable {e : PackageError} (fails : packageDirs files root = .error e) : LoadsRoot files catalog root s [] (.error e) s
  | reads {dirs : List String} {events : List Event} {s' : Session} (reads : packageDirs files root = .ok dirs)
      (loads : Series (LoadsDir files catalog) dirs s events s') : LoadsRoot files catalog root s events (.ok (loadedCount events)) s'

/-- What the loader says about the result for one of several roots. -/
def settleRoot (s : Session) (root : String) : Except PackageError Nat → Session
  | .error e => s.report (.skippedRoot root e)
  | .ok n => s.report (.loadedRoot root n)

/-- One of several roots is loaded. -/
def LoadsOneRoot (files : Tree) (catalog : Catalog) (root : String) (s : Session) (events : List Event) (s' : Session) : Prop :=
  ∃ result t, LoadsRoot files catalog root s events result t ∧ s' = t.settleRoot root result

/-- Roots are loaded in order. -/
abbrev LoadsRoots (files : Tree) (catalog : Catalog) : List String → Session → List Event → Session → Prop :=
  Series (LoadsOneRoot files catalog)

section Programs

variable {files : Tree} {catalog : Catalog} {s s' : Session} {events : List Event}

theorem comes_settled (dir : String) (result : Except PackageError Loaded) (k : Nat → Program) (count : Nat) (rest : List String) (s : Session) :
    Comes s (match result with
      | .error e => .report (.skippedPackage dir e) (loadDirs files catalog k count rest)
      | .ok p => .report (.loadedPackage p.manifest.name p.active)
          (.change (Workspace.addPackage p) (loadDirs files catalog k (count + 1) rest)))
      (s.settleLoad dir result) (loadDirs files catalog k (count + loadedCount (loadEvents result)) rest) := by
  cases result with
  | error e => exact .report (.here _ _)
  | ok p => exact .report (.access (.here _ _))

theorem LoadsDir.comes {dir : String} (h : LoadsDir files catalog dir s events s') (k : Nat → Program) (count : Nat) (rest : List String) :
    Comes s (loadDirs files catalog k count (dir :: rest)) s' (loadDirs files catalog k (count + loadedCount events) rest) := by
  cases h with
  | @broken e fails =>
    rw [loadDirs, loadPackage_of_error fails]
    exact comes_settled dir (.error e) k count rest s
  | @plain m loads noCode =>
    rw [loadDirs]
    exact (comes_loadPackage_inactive loads noCode s _).trans (comes_settled dir (.ok ⟨m, dir, false⟩) k count rest _)
  | @active m hooks exit t loads code activates =>
    rw [loadDirs]
    refine (comes_loadPackage loads code activates _).trans ?_
    exact comes_settled dir (activeResult m dir exit) k count rest t

theorem comes_loadDirs {dirs : List String} (h : Series (LoadsDir files catalog) dirs s events s') (k : Nat → Program) (count : Nat) :
    Comes s (loadDirs files catalog k count dirs) s' (k (count + loadedCount events)) := by
  induction h generalizing count with
  | nil s => exact .here s _
  | @cons dir rest s t s' events more first _ ih =>
    have hothers := ih (count + loadedCount events)
    rw [Nat.add_assoc, ← loadedCount_append] at hothers
    exact (first.comes k count rest).trans hothers

/-- **Loading one root** does what is described, and its result is the number of packages that it has loaded. -/
theorem LoadsRoot.comes {root : String} {result : Except PackageError Nat} (h : LoadsRoot files catalog root s events result s')
    (k : Except PackageError Nat → Program) : Comes s (loadRoot files catalog root k) s' (k result) := by
  cases h with
  | unreadable fails =>
    rw [loadRoot, fails]
    exact .here s _
  | reads reads loads =>
    rw [loadRoot, reads]
    have hall := comes_loadDirs loads (fun n => k (.ok n)) 0
    rwa [Nat.zero_add] at hall

theorem LoadsOneRoot.comes {root : String} (h : LoadsOneRoot files catalog root s events s') (k : Nat → Program) (count : Nat)
    (rest : List String) :
    Comes s (loadRootsFrom files catalog k count (root :: rest)) s'
      (loadRootsFrom files catalog k (count + loadedCount events) rest) := by
  obtain ⟨result, t, hroot, rfl⟩ := h
  rw [loadRootsFrom]
  refine (hroot.comes _).trans ?_
  cases hroot with
  | unreadable fails => exact .report (.here _ _)
  | reads reads loads => exact .report (.here _ _)

theorem comes_loadRootsFrom {roots : List String} (h : LoadsRoots files catalog roots s events s') (k : Nat → Program) (count : Nat) :
    Comes s (loadRootsFrom files catalog k count roots) s' (k (count + loadedCount events)) := by
  induction h generalizing count with
  | nil s => exact .here s _
  | @cons root rest s t s' events more first _ ih =>
    have hothers := ih (count + loadedCount events)
    rw [Nat.add_assoc, ← loadedCount_append] at hothers
    exact (first.comes k count rest).trans hothers

/-- **Loading roots** does what is described, and its result is the number of packages that it has loaded. -/
theorem LoadsRoots.comes {roots : List String} (h : LoadsRoots files catalog roots s events s') (k : Nat → Program) :
    Comes s (loadRoots files catalog roots k) s' (k (loadedCount events)) := by
  have hall := comes_loadRootsFrom h k 0
  rwa [Nat.zero_add] at hall

end Programs

/-! ## Letting go -/

/-- The extension of a package, if it was activated. -/
def codeOfPackage (catalog : Catalog) (p : Loaded) : Option Hooks :=
  if p.active then catalog.get? p.manifest.entry else none

/-- What the loader says about the end of a deactivation. -/
def settleDeactivation (s : Session) (p : Loaded) : Exit → Session
  | .ended _ => s
  | .panicked _ => s.report (.deactivationPanicked p.manifest.name)

/-- One package is let go. -/
inductive LetsGoOne (catalog : Catalog) (p : Loaded) (s : Session) : List Event → Session → Prop
  | quiet (noCode : codeOfPackage catalog p = none) : LetsGoOne catalog p s [] s
  | called {hooks : Hooks} {exit : Exit} {t : Session} (code : codeOfPackage catalog p = some hooks)
      (deactivates : Comes s hooks.deactivate t exit.program) :
      LetsGoOne catalog p s [.deactivated p.dir p.manifest.entry exit] (t.settleDeactivation p exit)

/-- A session that has forgotten its packages. -/
def emptied (s : Session) : Session :=
  { s with workspace := s.workspace.dropPackages }

/-- All packages are let go, last loaded first. -/
inductive LetsGo (catalog : Catalog) (s : Session) : List Event → Session → Prop
  | intro {events : List Event} {s' : Session} (each : Series (LetsGoOne catalog) s.workspace.packages.reverse s.emptied events s') :
      LetsGo catalog s (.lettingGo :: events) s'

section Programs

variable {catalog : Catalog} {s s' : Session} {events : List Event}

theorem LetsGoOne.comes {p : Loaded} (h : LetsGoOne catalog p s events s') (next : Program) (rest : List Loaded) :
    Comes s (deactivateEach catalog next (p :: rest)) s' (deactivateEach catalog next rest) := by
  cases h with
  | quiet noCode =>
    rw [deactivateEach, ← codeOfPackage, noCode]
    exact .here s _
  | @called hooks exit t code deactivates =>
    rw [deactivateEach, ← codeOfPackage, code]
    refine (deactivates.ended _).trans ?_
    cases exit with
    | ended e => exact .here t _
    | panicked text => exact .report (.here _ _)

theorem comes_deactivateEach {packages : List Loaded} (h : Series (LetsGoOne catalog) packages s events s') (next : Program) :
    Comes s (deactivateEach catalog next packages) s' next := by
  induction h with
  | nil s => exact .here s next
  | @cons p rest s t s' events more first _ ih => exact (first.comes next rest).trans ih

/-- **Letting go** does what is described. -/
theorem LetsGo.comes (h : LetsGo catalog s events s') (next : Program) : Comes s (deactivateAll catalog next) s' next := by
  obtain ⟨each⟩ := h
  exact .access (comes_deactivateEach each next)

end Programs

/-! ## What extensions leave alone -/

/-- The limits of extensions, which do not know the loader. -/
def besidePackages : Limits where
  changes := Leaves Workspace.packages
  methods := fun _ => True

theorem lenient_besidePackages : besidePackages.Lenient where
  look := fun _ => rfl
  newEvent := fun _ _ => rfl

/-- All code leaves the packages alone. -/
def modest : Rule :=
  besidePackages.rule lenient_besidePackages

/-- All extensions of a catalog leave the packages alone. -/
def Modest (catalog : Catalog) : Prop :=
  ∀ entry hooks, catalog.get? entry = some hooks →
    hooks.activate.Confined besidePackages ∧ hooks.deactivate.Confined besidePackages

section Packages

variable {files : Tree} {catalog : Catalog} {s s' : Session} {events : List Event}

theorem packages_of_comes {p q : Program} (hcode : modest.Code s) (hp : p.Confined besidePackages) (h : Comes s p s' q) :
    s'.workspace.packages = s.workspace.packages ∧ modest.Code s' :=
  ⟨Limits.leaves_comes (f := Workspace.packages) (fun _ h => h) hcode hp h, (hcode.comes hp h).1⟩

theorem packages_published (s : Session) (dir : String) (m : Manifest) :
    (s.published dir m).workspace.packages = s.workspace.packages := by
  rw [published, workspace_announced, workspace_declared]

theorem code_published (s : Session) (dir : String) (m : Manifest) : (s.published dir m).code = s.code := by
  rw [published]
  cases m.menu with
  | none => rfl
  | some path =>
    rw [announced, sending_eq]
    rfl

/-- The loader puts the package on its list if there is one. -/
theorem packages_settleLoad (s : Session) (dir : String) (result : Except PackageError Loaded) :
    (s.settleLoad dir result).workspace.packages = s.workspace.packages ++ (loadEvents result).filterMap Event.loaded? := by
  cases result with
  | error e => exact (List.append_nil _).symm
  | ok p => rfl

theorem code_settleLoad (s : Session) (dir : String) (result : Except PackageError Loaded) : (s.settleLoad dir result).code = s.code := by
  cases result <;> rfl

/-- What is loaded is appended to the packages, and code stays within its limits. -/
structure Appends (s : Session) (events : List Event) (s' : Session) : Prop where
  packages : s'.workspace.packages = s.workspace.packages ++ events.filterMap Event.loaded?
  code : modest.Code s'

theorem LoadsDir.appends {dir : String} (hmodest : Modest catalog) (hcode : modest.Code s) (h : LoadsDir files catalog dir s events s') :
    Appends s events s' := by
  cases h with
  | broken fails => exact ⟨packages_settleLoad .., hcode.congr (code_settleLoad ..)⟩
  | @plain m loads noCode =>
    refine ⟨?_, hcode.congr ?_⟩
    · rw [packages_settleLoad]
      exact congrArg (· ++ _) (packages_published s dir m)
    · rw [code_settleLoad]
      exact code_published s dir m
  | @active m hooks exit t loads code activates =>
    obtain ⟨hpackages, hcode'⟩ := packages_of_comes (hcode.congr (code_published s dir m)) (hmodest _ _ code).1 activates
    refine ⟨?_, hcode'.congr (code_settleLoad ..)⟩
    rw [packages_settleLoad, hpackages, packages_published]
    rfl

/-- What holds of each element of a series holds of all. -/
theorem Series.appends {α : Type} {Does : α → Session → List Event → Session → Prop}
    (each : ∀ {a s events s'}, modest.Code s → Does a s events s' → Appends s events s') {list : List α} (hcode : modest.Code s)
    (h : Series Does list s events s') : Appends s events s' := by
  induction h with
  | nil s => exact ⟨(List.append_nil _).symm, hcode⟩
  | cons first _ ih =>
    obtain ⟨hfirst, hcode'⟩ := each hcode first
    obtain ⟨hothers, hcode''⟩ := ih hcode'
    exact ⟨by rw [hothers, hfirst, List.filterMap_append, List.append_assoc], hcode''⟩

theorem LoadsRoot.appends {root : String} {result : Except PackageError Nat} (hmodest : Modest catalog) (hcode : modest.Code s)
    (h : LoadsRoot files catalog root s events result s') : Appends s events s' := by
  cases h with
  | unreadable fails => exact ⟨(List.append_nil _).symm, hcode⟩
  | reads reads loads => exact loads.appends (fun hcode h => h.appends hmodest hcode) hcode

theorem LoadsOneRoot.appends {root : String} (hmodest : Modest catalog) (hcode : modest.Code s)
    (h : LoadsOneRoot files catalog root s events s') : Appends s events s' := by
  obtain ⟨result, t, hroot, rfl⟩ := h
  obtain ⟨hpackages, hcode'⟩ := hroot.appends hmodest hcode
  cases result with
  | error e => exact ⟨hpackages, hcode'⟩
  | ok n => exact ⟨hpackages, hcode'⟩

theorem LoadsRoots.appends {roots : List String} (hmodest : Modest catalog) (hcode : modest.Code s)
    (h : LoadsRoots files catalog roots s events s') : Appends s events s' :=
  Series.appends (fun hcode h => h.appends hmodest hcode) hcode h

end Packages

end EditorLink.Session
