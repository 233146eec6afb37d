import Mathlib
import EditorLink.Proofs.Extension.Runs
import EditorLink.Proofs.Keyed
import EditorLink.Proofs.Text.Bytes
import EditorLink.Session.Control

/-!
# EditorLink.Proofs.Extension.Loading -- what loading a package does

The settings and the menu of a package are published before its extension is activated (`Session.published`), and nothing is ever taken
back. So a package that fails before that has done nothing, and one whose activation fails has done what it did until then; in both cases
the loader goes on with the next directory.
-/

namespace EditorLink.Session

open Extension Registry Package Files Loading

/-! ## What a package publishes -/

/-- A session in which some settings have been declared. -/
def declared (s : Session) (settings : Keyed Setting) : Session :=
  { s with workspace := settings.foldl (fun w (name, setting) => w.addSetting name setting) s.workspace }

/-- A session in which a menu has been announced, if there is one. -/
def announced (s : Session) (dir : String) : Option String → Session
  | some path =>
    (s.report (.notifying "loadMenu")).sending (s.link.notify "loadMenu" [.string (Path.join dir path)])
  | none => s

/-- A session in which a package has been published, but not activated. -/
def published (s : Session) (dir : String) (m : Manifest) : Session :=
  (s.declared m.settings).announced dir m.menu

/-- The last declaration of a name counts, and a name that is not declared keeps its setting. -/
theorem get?_declared (s : Session) (settings : Keyed Setting) (name : String) :
    (s.declared settings).workspace.settings.get? name =
      (Keyed.get? settings.reverse name).or (s.workspace.settings.get? name) := by
  induction settings using List.reverseRecOn with
  | nil => rfl
  | append_singleton settings entry ih =>
    obtain ⟨key, setting⟩ := entry
    have hlast : (s.declared (settings ++ [(key, setting)])).workspace.settings =
        Keyed.insert key setting (s.declared settings).workspace.settings := by
      rw [declared, List.foldl_append]
      rfl
    rw [hlast, Keyed.get?_insert, List.reverse_append, List.reverse_singleton, List.singleton_append, Keyed.get?_cons, ih]
    split <;> rfl

/-- Declaring settings changes nothing else. -/
theorem workspace_declared (s : Session) (settings : Keyed Setting) :
    (s.declared settings).workspace =
      { s.workspace with settings := (s.declared settings).workspace.settings } := by
  induction settings using List.reverseRecOn with
  | nil => rfl
  | append_singleton settings entry ih =>
    have hlast : (s.declared (settings ++ [entry])).workspace =
        (s.declared settings).workspace.addSetting entry.1 entry.2 := by
      rw [declared, List.foldl_append]
      rfl
    rw [hlast, ih]
    rfl

theorem workspace_announced (s : Session) (dir : String) (menu : Option String) :
    (s.announced dir menu).workspace = s.workspace := by
  cases menu with
  | none => rfl
  | some path =>
    rw [announced, sending_eq]
    rfl

theorem outbound_announced (s : Session) (dir : String) (menu : Option String) :
    (s.announced dir menu).link.outbound =
      s.link.outbound ++ (menu.map fun path => Message.notify "loadMenu" [.string (Path.join dir path)]).toList := by
  cases menu with
  | none => exact (List.append_nil _).symm
  | some path =>
    rw [announced, sending_eq]
    rfl

/-! ## Runs of the loader -/

theorem comes_declareSettings (next : Program) (settings : Keyed Setting) (s : Session) :
    Comes s (declareSettings next settings) (s.declared settings) next := by
  induction settings generalizing s with
  | nil => exact .here s next
  | cons entry rest ih => exact .access (ih _)

theorem comes_announceMenu (s : Session) (dir : String) (menu : Option String) (next : Program) :
    Comes s (announceMenu dir menu next) (s.announced dir menu) next := by
  cases menu with
  | none => exact .here s next
  | some path => exact .notify (.here _ next)

variable {files : Tree} {catalog : Catalog} {dir : String} {m : Manifest} {hooks : Hooks}

/-- Without a manifest nothing happens. -/
theorem loadPackage_of_error {e : PackageError} (hload : Manifest.load files dir = .error e)
    (k : Except PackageError Loaded → Program) : loadPackage files catalog dir k = k (.error e) := by
  rw [loadPackage, hload]

/-- A package is published first. -/
theorem comes_published (hload : Manifest.load files dir = .ok m) (s : Session)
    (k : Except PackageError Loaded → Program) :
    Comes s (loadPackage files catalog dir k) (s.published dir m)
      (activateEntry catalog m fun active => k (active.map fun active => ⟨m, dir, active⟩)) := by
  rw [loadPackage, hload]
  exact (comes_declareSettings _ m.settings s).trans (comes_announceMenu _ dir m.menu _)

/-- Then its extension is activated, and what comes of that is the result. -/
theorem comes_loadPackage {s s' : Session} {exit : Exit} (hload : Manifest.load files dir = .ok m)
    (hentry : catalog.get? m.entry = some hooks)
    (activates : Comes (s.published dir m) hooks.activate s' exit.program) (k : Except PackageError Loaded → Program) :
    Comes s (loadPackage files catalog dir k) s' (k ((activation m.name exit).map fun _ => ⟨m, dir, true⟩)) := by
  refine (comes_published hload s k).trans ?_
  rw [activateEntry, hentry]
  have hresult : ((activation m.name exit).map fun _ => true).map (fun active => (⟨m, dir, active⟩ : Loaded)) =
      (activation m.name exit).map fun _ => ⟨m, dir, true⟩ := by
    cases activation m.name exit <;> rfl
  rw [← hresult]
  exact activates.ended _

/-- A package without an extension is loaded once it is published. -/
theorem comes_loadPackage_inactive (hload : Manifest.load files dir = .ok m) (hentry : catalog.get? m.entry = none)
    (s : Session) (k : Except PackageError Loaded → Program) :
    Comes s (loadPackage files catalog dir k) ((s.published dir m).report (.noExtension m.name m.entry))
      (k (.ok ⟨m, dir, false⟩)) := by
  refine (comes_published hload s k).trans ?_
  rw [activateEntry, hentry]
  exact .report (.here _ _)

/-- The loader goes on behind a package that failed. -/
theorem comes_skipped {s s' : Session} {e : PackageError}
    (hfails : ∀ k, Comes s (loadPackage files catalog dir k) s' (k (.error e))) (k : Nat → Program) (count : Nat)
    (rest : List String) :
    Comes s (loadDirs files catalog k count (dir :: rest)) (s'.report (.skippedPackage dir e))
      (loadDirs files catalog k count rest) :=
  (hfails _).trans (.report (.here _ _))

/-! ## Packages that fail -/

/-- **A package that fails to load has done what it did until it failed, and no more.** Without a valid manifest nothing has changed.
Otherwise its settings have been declared, each in place of one of the same name, and its menu was announced if it has one, before its
extension was activated; a failure or a panic of the activation leaves the session as the activation left it, with every message still on
the queue. In both cases the loader reports the package and goes on with the next directory from there. -/
theorem failed_load_leaves_what_it_did (files : Tree) (catalog : Catalog) (dir : String) (s : Session) (t : TaskId)
    (role : Role) (outer : List (Exit → Program)) :
    (∀ e, Manifest.load files dir = .error e →
      (∀ k, Leads (s.during t role (loadPackage files catalog dir k) outer) (s.during t role (k (.error e)) outer)) ∧
      ∀ k count rest, Leads (s.during t role (loadDirs files catalog k count (dir :: rest)) outer)
        ((s.report (.skippedPackage dir e)).during t role (loadDirs files catalog k count rest) outer)) ∧
    ∀ m, Manifest.load files dir = .ok m →
      let p := s.published dir m
      (∀ name, p.workspace.settings.get? name =
        (Keyed.get? m.settings.reverse name).or (s.workspace.settings.get? name)) ∧
      p.workspace = { s.workspace with settings := p.workspace.settings } ∧
      p.link.outbound =
        s.link.outbound ++ (m.menu.map fun path => Message.notify "loadMenu" [.string (Path.join dir path)]).toList ∧
      (catalog.get? m.entry = none →
        ∀ k, Leads (s.during t role (loadPackage files catalog dir k) outer)
          ((p.report (.noExtension m.name m.entry)).during t role (k (.ok ⟨m, dir, false⟩)) outer)) ∧
      ∀ hooks exit s', catalog.get? m.entry = some hooks → Comes p hooks.activate s' exit.program →
        p.link.outbound <+: s'.link.outbound ∧
        (∀ k, Leads (s.during t role (loadPackage files catalog dir k) outer)
          (s'.during t role (k ((activation m.name exit).map fun _ => ⟨m, dir, true⟩)) outer)) ∧
        ∀ e, activation m.name exit = .error e →
          ∀ k count rest, Leads (s.during t role (loadDirs files catalog k count (dir :: rest)) outer)
            ((s'.report (.skippedPackage dir e)).during t role (loadDirs files catalog k count rest) outer) := by
  refine ⟨fun e hload => ?_, fun m hload => ?_⟩
  · have hfails : ∀ k, Comes s (loadPackage files catalog dir k) s (k (.error e)) := by
      intro k
      rw [loadPackage_of_error hload]
      exact .here s _
    exact ⟨fun k => (hfails k).steps t role outer, fun k count rest => (comes_skipped hfails k count rest).steps t role outer⟩
  · have hworkspace : (s.published dir m).workspace = (s.declared m.settings).workspace :=
      workspace_announced _ dir m.menu
    refine ⟨fun name => ?_, ?_, outbound_announced _ dir m.menu, fun hentry k => ?_, fun hooks exit s' hentry activates => ?_⟩
    · rw [hworkspace]
      exact get?_declared s m.settings name
    · rw [hworkspace]
      exact workspace_declared s m.settings
    · exact (comes_loadPackage_inactive hload hentry s k).steps t role outer
    · have hloads := fun k => comes_loadPackage hload hentry activates k
      refine ⟨activates.outbound, fun k => (hloads k).steps t role outer, fun e hfails k count rest => ?_⟩
      rw [hfails] at hloads
      exact (comes_skipped hloads k count rest).steps t role outer

/-! ### One package -/

/-- The text of a manifest that declares one setting and has a menu. -/
def manifestText : String :=
  "\x7b\"name\":\"b\",\"menu\":\"m\",\"config\":\x7b\"tab\":\x7b\"type\":\"int\",\"default\":4\x7d\x7d\x7d"

/-- What it says. -/
def manifest : Manifest where
  name := "b"
  menu := some "m"
  settings := [("tab", ⟨.int, some (.nat 4)⟩)]

/-- A root with this package in it. -/
def packageFiles : Tree where
  nodes := [(["p"], .directory), (["p", "b"], .directory),
    (["p", "b", "package.json"], .file (Bytes.ofText manifestText))]

theorem read_packageFiles : packageFiles.read? "/p/b/package.json" = some (Bytes.ofText manifestText) := by
  have hparts : Path.resolve packageFiles.cwd "/p/b/package.json" = ["p", "b", "package.json"] := by cbv
  have habove : (Tree.ancestors ["p", "b", "package.json"]).any packageFiles.isFileAt = false := by cbv
  have hopen : Path.endsInSlash "/p/b/package.json" = false := by cbv
  have hthere : packageFiles.at? ["p", "b", "package.json"] = some (.file (Bytes.ofText manifestText)) := rfl
  have hfind : packageFiles.find "/p/b/package.json" = .ok (.file (Bytes.ofText manifestText)) := by
    rw [Tree.find, if_neg (by decide)]
    simp only [hparts, habove, hthere, hopen, Bool.false_eq_true, if_false]
  rw [Tree.read?, hfind]

theorem load_packageFiles : Manifest.load packageFiles "/p/b" = .ok manifest := by
  have hfile : packageFiles.isFile "/p/b/package.json" = true := by
    rw [Tree.isFile, read_packageFiles]
    rfl
  have hjoin : Path.join "/p/b" "package.json" = "/p/b/package.json" := by
    have hrelative : Path.isAbsolute "package.json" = false := by cbv
    have hopen : Path.endsInSlash "/p/b" = false := by cbv
    rw [Path.join, hrelative, hopen]
    rfl
  have hread : Manifest.read? "/p/b/package.json" (Bytes.ofText manifestText) = some manifest := by
    have hextension : Path.extension? "/p/b/package.json" = some "json" := by cbv
    have hjson : Manifest.readJson? manifestText = some manifest := by cbv
    simp only [Manifest.read?, Bytes.text?_ofText, Option.bind_eq_bind, Option.bind_some, hextension, if_true, hjson]
  have hnamed : Text.isBlankText manifest.name = false := by cbv
  rw [Manifest.load, manifestFiles, List.map_cons, hjoin, List.find?_cons_of_pos hfile]
  simp only [read_packageFiles, Option.bind_some, hread, hnamed]
  rfl

/-- The root has one package directory. -/
theorem packageDirs_packageFiles : packageDirs packageFiles "/p" = .ok ["/p/b"] := by
  have hroot : Path.resolve packageFiles.cwd "/p" = ["p"] := by cbv
  have hpackage : Path.resolve packageFiles.cwd "/p/b" = ["p", "b"] := by cbv
  have hrootFind : packageFiles.find "/p" = .ok .directory := by
    rw [Tree.find, if_neg (by decide)]
    simp only [hroot]
    rfl
  have hpackageFind : packageFiles.find "/p/b" = .ok .directory := by
    rw [Tree.find, if_neg (by decide)]
    simp only [hpackage]
    rfl
  have hnames : packageFiles.names ["p"] = ["b"] := by
    rw [Tree.names]
    exact List.mergeSort_singleton "b"
  have hjoin : Path.join "/p" "b" = "/p/b" := by cbv
  have hdirectory : packageFiles.isDirectory "/p/b" = true := by rw [Tree.isDirectory, hpackageFind]
  rw [packageDirs, Tree.list, hrootFind]
  simp only [hroot, hnames, List.map_cons, List.map_nil, hjoin, List.filter_cons, hdirectory, if_true, List.filter_nil]

/-- An extension that registers a context and then ends in some way. -/
def endingBy (exit : Exit) : Catalog :=
  [("b", ⟨Facade.registerContext "x" (fun _ => .finish .done) exit.program, .finish .done⟩)]

theorem comes_registerContext (s : Session) (name : String) (code : Input → Program) (next : Program) :
    ∃ s', Comes s (Facade.registerContext name code next) s' next ∧
      s'.workspace = s.workspace.addContext name s.code.size ∧
      s'.link.outbound = s.link.outbound ++ [.notify "registerContext" [.string name]] := by
  refine ⟨_, .keep (.access (.notify (.here _ next))), ?_, ?_⟩
  · rw [sending_eq]
    rfl
  · rw [sending_eq]
    rfl

/-- A session in which somebody else has declared a setting of the package's name. -/
def occupied : Session :=
  { ofSetup {} with workspace := { settings := [("tab", ⟨.int, some (.nat 8)⟩)] } }

/-- A package whose activation fails has replaced a setting, announced its menu and registered a context. -/
theorem failed_load_is_not_undone :
    ∃ s' : Session, (∀ k, Leads
        (occupied.during 0 .direct (loadPackage packageFiles (endingBy (.ended (.failed ["no server"]))) "/p/b" k) [])
        (s'.during 0 .direct (k (.error (.activation "b" "no server"))) [])) ∧
      occupied.workspace.contexts = [] ∧ s'.workspace.contexts = [("x", 0)] ∧
      occupied.workspace.settings.get? "tab" = some ⟨.int, some (.nat 8)⟩ ∧
      s'.workspace.settings.get? "tab" = some ⟨.int, some (.nat 4)⟩ ∧
      occupied.link.outbound = [] ∧
      s'.link.outbound = [.notify "loadMenu" [.string (Path.join "/p/b" "m")], .notify "registerContext" [.string "x"]] := by
  let exit : Exit := .ended (.failed ["no server"])
  obtain ⟨s', hactivates, hworkspace, houtbound⟩ :=
    comes_registerContext (occupied.published "/p/b" manifest) "x" (fun _ => .finish .done) exit.program
  have hentry : (endingBy exit).get? manifest.entry =
      some ⟨Facade.registerContext "x" (fun _ => .finish .done) exit.program, .finish .done⟩ := rfl
  refine ⟨s', fun k => ?_, rfl, ?_, rfl, ?_, rfl, ?_⟩
  · exact (comes_loadPackage load_packageFiles hentry hactivates k).steps 0 .direct []
  · rw [hworkspace]
    rfl
  · rw [hworkspace]
    rfl
  · rw [houtbound]
    rfl

/-- The same package when its activation panics, and a directory that has no manifest. -/
theorem panicking_package_leaves_what_it_did :
    ∃ s' : Session, s'.workspace.contexts = [("x", 0)] ∧ s'.workspace.settings.get? "tab" = some ⟨.int, some (.nat 4)⟩ ∧
      [.notify "loadMenu" [.string (Path.join "/p/b" "m")]] <+: s'.link.outbound ∧
      (∀ k, Leads (occupied.during 0 .direct (loadDirs packageFiles (endingBy (.panicked "boom")) k 0 ["/p/b", "/q"]) [])
        ((s'.report (.skippedPackage "/p/b" (.activation "b" "extension panicked"))).during 0 .direct
          (loadDirs packageFiles (endingBy (.panicked "boom")) k 0 ["/q"]) [])) ∧
      ∀ k, Leads (s'.during 0 .direct (loadPackage {} [] "/q" k) [])
        (s'.during 0 .direct (k (.error (.missingManifest "/q"))) []) := by
  let exit : Exit := .panicked "boom"
  obtain ⟨s', hactivates, hworkspace, -⟩ :=
    comes_registerContext (occupied.published "/p/b" manifest) "x" (fun _ => .finish .done) exit.program
  have hentry : (endingBy exit).get? manifest.entry =
      some ⟨Facade.registerContext "x" (fun _ => .finish .done) exit.program, .finish .done⟩ := rfl
  obtain ⟨-, hpackage⟩ := failed_load_leaves_what_it_did packageFiles (endingBy exit) "/p/b" occupied 0 .direct []
  obtain ⟨hmissing, -⟩ := failed_load_leaves_what_it_did {} [] "/q" s' 0 .direct []
  obtain ⟨-, -, hmenu, -, hfails⟩ := hpackage manifest load_packageFiles
  obtain ⟨hqueue, -, hskips⟩ := hfails _ exit s' hentry hactivates
  have hnone : Manifest.load {} "/q" = .error (.missingManifest "/q") := by
    have hfile : ∀ path, ({} : Tree).isFile path = false := by
      intro path
      simp only [Tree.isFile, Tree.read?, Tree.find, Tree.at?, List.find?_nil, Option.map_none]
      split_ifs <;> rfl
    have hfind : (manifestFiles.map (Path.join "/q")).find? ({} : Tree).isFile = none :=
      List.find?_eq_none.mpr fun path _ => by simp [hfile path]
    rw [Manifest.load, hfind]
  refine ⟨s', ?_, ?_, ?_, fun k => hskips _ rfl k 0 ["/q"], (hmissing _ hnone).1⟩
  · rw [hworkspace]
    rfl
  · rw [hworkspace]
    rfl
  · rw [hmenu] at hqueue
    exact hqueue

end EditorLink.Session
