import EditorLink.Proofs.Extension.Lifecycle

/-!
# EditorLink.Proofs.Extension.Pairing -- activations and deactivations pair up

The life of a bridge is made of acts: roots are loaded, the session goes on, the run ends, packages are let go. In every life the active
packages are those of the activations that went well since packages were last let go (`Upkeep`). So letting go calls exactly their
extensions, last activated first.
-/

namespace EditorLink.Session

open Extension Registry Package Files Loading

/-! ## Lives -/

/-- What the embedding program can do with a bridge, or what can happen to it. -/
inductive Act where
  | loadRoot (files : Tree) (root : String)
  | loadRoots (files : Tree) (roots : List String)
  | letGo
  /-- The session goes on by a move that does not end its run. -/
  | meanwhile (m : Move)
  /-- A move ends the run, whose last part lets all packages go. -/
  | endRun (m : Move)

/-- All packages are let go. -/
def Act.LetsAllGo : Act → Prop
  | letGo => True
  | endRun _ => True
  | _ => False

/-- An act is performed, with events on record. Moves bring in no code but such as leaves the packages alone. -/
inductive Performs (catalog : Catalog) : Act → Session → List Event → Session → Prop
  | loadRoot {files : Tree} {root : String} {s s' : Session} {events : List Event} {result : Except PackageError Nat}
      (loads : LoadsRoot files catalog root s events result s') : Performs catalog (.loadRoot files root) s events s'
  | loadRoots {files : Tree} {roots : List String} {s s' : Session} {events : List Event}
      (loads : LoadsRoots files catalog roots s events s') : Performs catalog (.loadRoots files roots) s events s'
  | letGo {s s' : Session} {events : List Event} (lets : LetsGo catalog s events s') : Performs catalog .letGo s events s'
  | meanwhile {m : Move} {s : Session} (admitted : modest.Admits m) (ongoing : s.reader ≠ .ended)
      (goesOn : (s.move m).reader ≠ .ended) : Performs catalog (.meanwhile m) s [] (s.move m)
  | endRun {m : Move} {s s' : Session} {id : TaskId} {result : Except Failure Unit} {events : List Event}
      (ongoing : s.reader ≠ .ended) (ended : (s.move m).reader = .ended)
      (focus : (s.move m).focus = .running id (.farewell result) s.farewell []) (lets : LetsGo catalog (s.move m) events s') :
      Performs catalog (.endRun m) s events { s' with focus := .idle, runEnd := some result }

/-- Acts are performed one after the other. -/
abbrev Lives (catalog : Catalog) : List Act → Session → List Event → Session → Prop :=
  Series (Performs catalog)

/-- What sessions do step by step when an act is performed, in whatever task. -/
def Act.Steps (catalog : Catalog) (s : Session) (events : List Event) (s' : Session) : Act → Prop
  | loadRoot files root => ∃ result, (∀ n, result = .ok n → n = loadedCount events) ∧ ∀ k t role outer,
      Leads (s.during t role (Loading.loadRoot files catalog root k) outer) (s'.during t role (k result) outer)
  | loadRoots files roots => ∀ k t role outer,
      Leads (s.during t role (Loading.loadRoots files catalog roots k) outer) (s'.during t role (k (loadedCount events)) outer)
  | letGo => ∀ next t role outer, Leads (s.during t role (deactivateAll catalog next) outer) (s'.during t role next outer)
  | meanwhile m => s' = s.move m
  | endRun m => Leads (s.move m) s'

theorem Performs.steps {catalog : Catalog} {act : Act} {s s' : Session} {events : List Event} (h : Performs catalog act s events s')
    (hfarewell : s.farewell = deactivateAll catalog (.finish .done)) : act.Steps catalog s events s' := by
  cases h with
  | @loadRoot files root _ _ _ result loads =>
    refine ⟨result, ?_, fun k t role outer => (loads.comes k).steps t role outer⟩
    rintro n rfl
    cases loads
    rfl
  | loadRoots loads => exact fun k t role outer => (loads.comes k).steps t role outer
  | letGo lets => exact fun next t role outer => (lets.comes next).steps t role outer
  | meanwhile admitted ongoing goesOn => rfl
  | @endRun m s s' id result events ongoing ended focus lets =>
    have hsteps := (lets.comes (.finish .done)).steps id (.farewell result) []
    have hbegins : (s.move m).during id (.farewell result) (deactivateAll catalog (.finish .done)) [] = s.move m := by
      rw [during, ← hfarewell, ← focus]
    rw [hbegins] at hsteps
    exact hsteps.tail rfl

/-! ## Who stands -/

/-- The package directory of an active package and the entry of its extension. -/
def packageKey (p : Loaded) : String × String :=
  (p.dir, p.manifest.entry)

/-- The active packages of some. -/
def activeKeys (packages : List Loaded) : List (String × String) :=
  (packages.filter (·.active)).map packageKey

theorem activeKeys_append (packages more : List Loaded) : activeKeys (packages ++ more) = activeKeys packages ++ activeKeys more := by
  simp [activeKeys]

/-- Who stands after one more event. -/
def note (unpaired : List (String × String)) (e : Event) : List (String × String) :=
  match e with
  | .lettingGo => []
  | e => unpaired ++ e.begun?.toList

/-- The extensions that were activated, and well, since packages were last let go. -/
def unpaired (events : List Event) : List (String × String) :=
  events.foldl note []

theorem unpaired_append (events more : List Event) : unpaired (events ++ more) = more.foldl note (unpaired events) :=
  List.foldl_append

/-- Events of loading: nobody is let go, and the active packages among those that were loaded are those of the activations that went
well, whose extensions the catalog has. -/
structure OfLoading (catalog : Catalog) (events : List Event) : Prop where
  calls : ∀ e ∈ events, e ≠ .lettingGo ∧ e.deactivated? = none
  begun : activeKeys (events.filterMap Event.loaded?) = events.filterMap Event.begun?
  known : ∀ p ∈ events.filterMap Event.loaded?, p.active = true → (catalog.get? p.manifest.entry).isSome

section OfLoading

variable {files : Tree} {catalog : Catalog} {s s' : Session} {events more : List Event}

theorem OfLoading.nil : OfLoading catalog [] :=
  ⟨by simp, rfl, by simp⟩

theorem OfLoading.append (h : OfLoading catalog events) (hmore : OfLoading catalog more) : OfLoading catalog (events ++ more) where
  calls := fun e he => (List.mem_append.mp he).elim (h.calls e) (hmore.calls e)
  begun := by rw [List.filterMap_append, List.filterMap_append, activeKeys_append, h.begun, hmore.begun]
  known := by
    intro p hp
    rw [List.filterMap_append] at hp
    exact (List.mem_append.mp hp).elim (h.known p) (hmore.known p)

theorem OfLoading.note (h : OfLoading catalog events) (before : List (String × String)) :
    events.foldl Session.note before = before ++ events.filterMap Event.begun? := by
  have hcalls := h.calls
  clear h
  induction events generalizing before with
  | nil => exact (List.append_nil before).symm
  | cons e rest ih =>
    have hnote : Session.note before e = before ++ e.begun?.toList := by
      cases e with
      | lettingGo => exact absurd rfl (hcalls _ List.mem_cons_self).1
      | _ => rfl
    rw [List.foldl_cons, ih _ fun e he => hcalls e (List.mem_cons_of_mem _ he), hnote, List.append_assoc]
    cases hbegun : e.begun? <;> simp [hbegun]

theorem LoadsDir.ofLoading {dir : String} (h : LoadsDir files catalog dir s events s') : OfLoading catalog events := by
  cases h with
  | broken fails => exact .nil
  | plain loads noCode => exact ⟨by simp [Event.deactivated?], by simp [Event.loaded?, Event.begun?, activeKeys], by simp [Event.loaded?]⟩
  | @active m hooks exit t loads code activates =>
    -- the package is on the list exactly if its activation went well
    cases exit with
    | ended e =>
      cases e with
      | value v =>
        refine ⟨?_, rfl, ?_⟩
        · simp [loadEvents, activeResult, activation, Except.map, Event.deactivated?]
        · simp [loadEvents, activeResult, activation, Except.map, Event.loaded?, code]
      | failed reasons =>
        refine ⟨?_, rfl, ?_⟩
        · simp [loadEvents, activeResult, activation, Except.map, Event.deactivated?]
        · simp [loadEvents, activeResult, activation, Except.map, Event.loaded?]
    | panicked text =>
      refine ⟨?_, rfl, ?_⟩
      · simp [loadEvents, activeResult, activation, Except.map, Event.deactivated?]
      · simp [loadEvents, activeResult, activation, Except.map, Event.loaded?]

theorem Series.ofLoading {α : Type} {Does : α → Session → List Event → Session → Prop}
    (each : ∀ {a s events s'}, Does a s events s' → OfLoading catalog events) {list : List α} (h : Series Does list s events s') :
    OfLoading catalog events := by
  induction h with
  | nil s => exact .nil
  | cons first _ ih => exact (each first).append ih

theorem LoadsRoot.ofLoading {root : String} {result : Except PackageError Nat} (h : LoadsRoot files catalog root s events result s') :
    OfLoading catalog events := by
  cases h with
  | unreadable fails => exact .nil
  | reads reads loads => exact loads.ofLoading LoadsDir.ofLoading

theorem LoadsRoots.ofLoading {roots : List String} (h : LoadsRoots files catalog roots s events s') : OfLoading catalog events :=
  Series.ofLoading (fun ⟨_, _, hroot, _⟩ => hroot.ofLoading) h

end OfLoading

/-! ## Letting go -/

section LettingGo

variable {catalog : Catalog} {s s' : Session} {events : List Event}

/-- Every active package has an extension in the catalog. -/
def Known (catalog : Catalog) (packages : List Loaded) : Prop :=
  ∀ p ∈ packages, p.active = true → (catalog.get? p.manifest.entry).isSome

/-- What happens when some packages are let go: their extensions are deactivated in this order, and no package comes back. -/
structure Deactivates (packages : List Loaded) (s : Session) (events : List Event) (s' : Session) : Prop where
  calls : events.filterMap Event.deactivated? = activeKeys packages
  only : ∀ e ∈ events, e.deactivated?.isSome
  packages : s'.workspace.packages = s.workspace.packages
  code : modest.Code s'

theorem LetsGoOne.deactivates {p : Loaded} (hmodest : Modest catalog) (hcode : modest.Code s)
    (known : p.active = true → (catalog.get? p.manifest.entry).isSome) (h : LetsGoOne catalog p s events s') :
    Deactivates [p] s events s' := by
  cases h with
  | quiet noCode =>
    have hpassive : p.active = false := by
      by_contra hactive
      rw [Bool.not_eq_false] at hactive
      rw [codeOfPackage, if_pos hactive] at noCode
      have hsome := known hactive
      rw [noCode] at hsome
      cases hsome
    exact ⟨by simp [activeKeys, hpassive], by simp, rfl, hcode⟩
  | @called hooks exit t code deactivates =>
    obtain ⟨hactive, hentry⟩ : p.active = true ∧ catalog.get? p.manifest.entry = some hooks := by
      rw [codeOfPackage] at code
      split at code
      · next hactive => exact ⟨hactive, code⟩
      · cases code
    obtain ⟨hpackages, hcode'⟩ := packages_of_comes hcode (hmodest _ _ hentry).2 deactivates
    have hcalls : [Event.deactivated p.dir p.manifest.entry exit].filterMap Event.deactivated? = activeKeys [p] := by
      simp [Event.deactivated?, activeKeys, hactive, packageKey]
    have honly : ∀ e ∈ [Event.deactivated p.dir p.manifest.entry exit], e.deactivated?.isSome := by simp [Event.deactivated?]
    cases exit with
    | ended e => exact ⟨hcalls, honly, hpackages, hcode'⟩
    | panicked text => exact ⟨hcalls, honly, hpackages, hcode'⟩

theorem deactivates_series (hmodest : Modest catalog) {packages : List Loaded} (known : Known catalog packages) (hcode : modest.Code s)
    (h : Series (LetsGoOne catalog) packages s events s') : Deactivates packages s events s' := by
  induction h with
  | nil s => exact ⟨rfl, by simp, rfl, hcode⟩
  | @cons p rest s t s' events more first _ ih =>
    have hfirst := first.deactivates hmodest hcode (known p List.mem_cons_self)
    have hothers := ih (fun q hq => known q (List.mem_cons_of_mem p hq)) hfirst.code
    refine ⟨?_, fun e he => (List.mem_append.mp he).elim (hfirst.only e) (hothers.only e),
      hothers.packages.trans hfirst.packages, hothers.code⟩
    rw [List.filterMap_append, hfirst.calls, hothers.calls, ← activeKeys_append]
    rfl

/-- All active packages are deactivated, last loaded first, and none is left. -/
theorem LetsGo.deactivates (hmodest : Modest catalog) (known : Known catalog s.workspace.packages) (hcode : modest.Code s)
    (h : LetsGo catalog s events s') :
    ∃ calls, events = .lettingGo :: calls ∧ (∀ e ∈ calls, e.deactivated?.isSome) ∧
      calls.filterMap Event.deactivated? = (activeKeys s.workspace.packages).reverse ∧
      s'.workspace.packages = [] ∧ modest.Code s' := by
  obtain ⟨each⟩ := h
  have hemptied : modest.Code s.emptied := hcode.congr rfl
  have hall := deactivates_series hmodest (fun p hp => known p (List.mem_reverse.mp hp)) hemptied each
  refine ⟨_, rfl, hall.only, ?_, hall.packages, hall.code⟩
  rw [hall.calls, activeKeys, activeKeys, List.filter_reverse, List.map_reverse]

end LettingGo

/-! ## Whole lives -/

/-- The list of packages is in order: its active packages are those that stand, and code is within its limits. -/
structure Upkeep (catalog : Catalog) (history : List Event) (s : Session) : Prop where
  unpaired : activeKeys s.workspace.packages = unpaired history
  known : Known catalog s.workspace.packages
  code : modest.Code s
  abides : s.reader ≠ .ended → modest.Abides s
  farewell : s.farewell = deactivateAll catalog (.finish .done)

section Upkeep

variable {catalog : Catalog} {s s' : Session} {history events : List Event}

theorem upkeep_ofSetup {setup : Setup} (hfarewell : setup.farewell = deactivateAll catalog (.finish .done)) :
    Upkeep catalog [] (ofSetup setup) where
  unpaired := rfl
  known := by simp [Known, ofSetup]
  code := fun _ _ => .finish _
  abides := fun _ => ⟨fun _ _ => .finish _, by simp [ofSetup], by simp [ofSetup]⟩
  farewell := hfarewell

/-- Code of the loader leaves the rest of the session alone. -/
theorem abides_of_comes {r : Rule} {p q : Program} (h : r.Abides s) (hcode : r.Code s') (comes : Comes s p s' q) : r.Abides s' := by
  obtain ⟨htasks, hfocus, -, -⟩ := comes.frame
  exact ⟨hcode, htasks ▸ h.tasks, fun hrunning => h.works (hfocus ▸ hrunning)⟩

theorem Upkeep.loads (h : Upkeep catalog history s) (appends : Appends s events s') (loading : OfLoading catalog events) {p q : Program}
    (comes : Comes s p s' q) : Upkeep catalog (history ++ events) s' := by
  obtain ⟨-, -, hreader, hfarewell⟩ := comes.frame
  refine ⟨?_, ?_, appends.code, fun ongoing => ?_, hfarewell.trans h.farewell⟩
  · rw [appends.packages, activeKeys_append, h.unpaired, loading.begun, unpaired_append, loading.note]
  · intro p hp
    rw [appends.packages] at hp
    exact (List.mem_append.mp hp).elim (h.known p) (loading.known p)
  · exact abides_of_comes (h.abides (hreader ▸ ongoing)) appends.code comes

/-- Letting go leaves nobody standing. -/
theorem unpaired_lettingGo {calls : List Event} (only : ∀ e ∈ calls, e.deactivated?.isSome) (before : List (String × String)) :
    (Event.lettingGo :: calls).foldl note before = [] := by
  rw [List.foldl_cons]
  show calls.foldl note [] = []
  induction calls with
  | nil => rfl
  | cons e rest ih =>
    have hnote : note [] e = [] := by
      have he := only e List.mem_cons_self
      cases e with
      | deactivated dir entry exit => rfl
      | _ => cases he
    rw [List.foldl_cons, hnote]
    exact ih fun e he => only e (List.mem_cons_of_mem _ he)

/-- Who lets nobody go deactivates nobody. -/
theorem Performs.deactivates_nobody {act : Act} (h : Performs catalog act s events s') (stays : ¬ act.LetsAllGo) :
    events.filterMap Event.deactivated? = [] := by
  have hloading : OfLoading catalog events → events.filterMap Event.deactivated? = [] :=
    fun h => List.filterMap_eq_nil_iff.mpr fun e he => (h.calls e he).2
  cases h with
  | loadRoot loads => exact hloading loads.ofLoading
  | loadRoots loads => exact hloading loads.ofLoading
  | letGo lets => exact absurd trivial stays
  | meanwhile admitted ongoing goesOn => rfl
  | endRun ongoing ended focus lets => exact absurd trivial stays

theorem filterMap_activated {calls : List Event} (only : ∀ e ∈ calls, e.deactivated?.isSome) :
    (Event.lettingGo :: calls).filterMap Event.activated? = [] := by
  refine List.filterMap_eq_nil_iff.mpr fun e he => ?_
  rcases List.mem_cons.mp he with rfl | he
  · rfl
  · have honly := only e he
    cases e with
    | deactivated dir entry exit => rfl
    | _ => cases honly

/-- Whoever lets all packages go deactivates the active ones, last loaded first. -/
theorem Performs.lets_all_go (hmodest : Modest catalog) (hupkeep : Upkeep catalog history s) {act : Act}
    (h : Performs catalog act s events s') (lets : act.LetsAllGo) :
    ∃ calls, events = .lettingGo :: calls ∧ (∀ e ∈ calls, e.deactivated?.isSome) ∧
      calls.filterMap Event.deactivated? = (activeKeys s.workspace.packages).reverse ∧ s'.workspace.packages = [] := by
  cases h with
  | letGo lets =>
    obtain ⟨calls, hevents, honly, hcalls, hnone, -⟩ := lets.deactivates hmodest hupkeep.known hupkeep.code
    exact ⟨calls, hevents, honly, hcalls, hnone⟩
  | @endRun m s t id result events ongoing ended focus lets =>
    have hpackages := Limits.leaves_move (f := Workspace.packages) (fun _ h => h) (hupkeep.abides ongoing) m
    obtain ⟨calls, hevents, honly, hcalls, hnone, -⟩ :=
      lets.deactivates hmodest (by rw [hpackages]; exact hupkeep.known) ((hupkeep.abides ongoing).code_move m)
    rw [hpackages] at hcalls
    exact ⟨calls, hevents, honly, hcalls, hnone⟩
  | _ => exact lets.elim

/-- **Every act keeps the list of packages in order.** -/
theorem Upkeep.performs (hmodest : Modest catalog) (h : Upkeep catalog history s) {act : Act} (performs : Performs catalog act s events s') :
    Upkeep catalog (history ++ events) s' := by
  cases performs with
  | loadRoot loads => exact h.loads (loads.appends hmodest h.code) loads.ofLoading (loads.comes fun _ => .finish .done)
  | loadRoots loads => exact h.loads (loads.appends hmodest h.code) loads.ofLoading (loads.comes fun _ => .finish .done)
  | letGo lets =>
    obtain ⟨calls, rfl, honly, -, hpackages, hcode⟩ := lets.deactivates hmodest h.known h.code
    have hcomes := lets.comes (.finish .done)
    obtain ⟨-, -, hreader, hfarewell⟩ := hcomes.frame
    refine ⟨?_, ?_, hcode, fun ongoing => ?_, hfarewell.trans h.farewell⟩
    · rw [hpackages, unpaired_append, unpaired_lettingGo honly]
      rfl
    · rw [hpackages]
      exact fun _ hp => absurd hp List.not_mem_nil
    · exact abides_of_comes (h.abides (hreader ▸ ongoing)) hcode hcomes
  | @meanwhile m s admitted ongoing goesOn =>
    have hpackages := Limits.leaves_move (f := Workspace.packages) (fun _ h => h) (h.abides ongoing) m
    refine ⟨?_, ?_, (h.abides ongoing).code_move m, fun _ => ?_, (farewell_move s m).trans h.farewell⟩
    · rw [hpackages, List.append_nil]
      exact h.unpaired
    · rw [hpackages]
      exact h.known
    · exact (h.abides ongoing).move admitted fun hended => absurd hended goesOn
  | @endRun m s t id result events ongoing ended focus lets =>
    have hpackages := Limits.leaves_move (f := Workspace.packages) (fun _ h => h) (h.abides ongoing) m
    obtain ⟨calls, rfl, honly, -, hnone, hcode⟩ :=
      lets.deactivates hmodest (by rw [hpackages]; exact h.known) ((h.abides ongoing).code_move m)
    obtain ⟨-, -, hreader, hfarewell⟩ := (lets.comes (.finish .done)).frame
    refine ⟨?_, ?_, hcode.congr rfl, fun hopen => absurd (hreader.trans ended) hopen, ?_⟩
    · show activeKeys t.workspace.packages = _
      rw [hnone, unpaired_append, unpaired_lettingGo honly]
      rfl
    · show Known catalog t.workspace.packages
      rw [hnone]
      exact fun _ hp => absurd hp List.not_mem_nil
    · exact hfarewell.trans ((farewell_move s m).trans h.farewell)

theorem upkeep_lives (hmodest : Modest catalog) {life : List Act} {earlier : List Event} (h : Upkeep catalog earlier s)
    (lives : Lives catalog life s history s') : Upkeep catalog (earlier ++ history) s' := by
  induction lives generalizing earlier with
  | nil s =>
    rw [List.append_nil]
    exact h
  | cons first _ ih =>
    rw [← List.append_assoc]
    exact ih (h.performs hmodest first)

end Upkeep

/-! ## Acts that can be performed -/

/-- No extension waits or goes on for ever: whenever one is called, that ends. -/
def Prompt (catalog : Catalog) : Prop :=
  ∀ entry hooks, catalog.get? entry = some hooks → ∀ s, modest.Code s →
    (∃ exit : Exit, ∃ t, Comes s hooks.activate t exit.program) ∧ ∃ exit : Exit, ∃ t, Comes s hooks.deactivate t exit.program

section Prompt

variable {files : Tree} {catalog : Catalog} {s : Session}

theorem loadsDir_total (hmodest : Modest catalog) (prompt : Prompt catalog) (dir : String) (hcode : modest.Code s) :
    ∃ events s', LoadsDir files catalog dir s events s' ∧ modest.Code s' := by
  suffices hloads : ∃ events s', LoadsDir files catalog dir s events s' by
    obtain ⟨events, s', h⟩ := hloads
    exact ⟨events, s', h, (h.appends hmodest hcode).code⟩
  cases hload : Manifest.load files dir with
  | error e => exact ⟨_, _, .broken hload⟩
  | ok m =>
    cases hentry : catalog.get? m.entry with
    | none => exact ⟨_, _, .plain hload hentry⟩
    | some hooks =>
      obtain ⟨⟨exit, t, hactivates⟩, -⟩ := prompt _ _ hentry (s.published dir m) (hcode.congr (code_published s dir m))
      exact ⟨_, _, .active hload hentry hactivates⟩

theorem loadsRoot_total (files : Tree) (hmodest : Modest catalog) (prompt : Prompt catalog) (root : String) (hcode : modest.Code s) :
    ∃ events result s', LoadsRoot files catalog root s events result s' := by
  cases hdirs : packageDirs files root with
  | error e => exact ⟨_, _, _, .unreadable hdirs⟩
  | ok dirs =>
    obtain ⟨events, s', hloads, -⟩ := Series.total (fun dir _ hcode => loadsDir_total hmodest prompt dir hcode) dirs hcode
    exact ⟨_, _, _, .reads hdirs hloads⟩

theorem loadsRoots_total (files : Tree) (hmodest : Modest catalog) (prompt : Prompt catalog) (roots : List String) (hcode : modest.Code s) :
    ∃ events s', LoadsRoots files catalog roots s events s' := by
  have heach : ∀ root s, modest.Code s → ∃ events t, LoadsOneRoot files catalog root s events t ∧ modest.Code t := by
    intro root s hcode
    obtain ⟨events, result, t, hroot⟩ := loadsRoot_total files hmodest prompt root hcode
    have hone : LoadsOneRoot files catalog root s events (t.settleRoot root result) := ⟨result, t, hroot, rfl⟩
    exact ⟨events, _, hone, (hone.appends hmodest hcode).code⟩
  obtain ⟨events, s', hloads, -⟩ := Series.total heach roots hcode
  exact ⟨events, s', hloads⟩

theorem letsGo_total (hmodest : Modest catalog) (prompt : Prompt catalog) (hcode : modest.Code s) : ∃ events s', LetsGo catalog s events s' := by
  have heach : ∀ p s, modest.Code s → ∃ events t, LetsGoOne catalog p s events t ∧ modest.Code t := by
    intro p s hcode
    cases hhooks : codeOfPackage catalog p with
    | none => exact ⟨_, _, .quiet hhooks, hcode⟩
    | some hooks =>
      have hentry : catalog.get? p.manifest.entry = some hooks := by
        rw [codeOfPackage] at hhooks
        split at hhooks
        · exact hhooks
        · cases hhooks
      obtain ⟨-, exit, t, hdeactivates⟩ := prompt _ _ hentry s hcode
      have hcode' := (packages_of_comes hcode (hmodest _ _ hentry).2 hdeactivates).2
      refine ⟨_, _, .called hhooks hdeactivates, ?_⟩
      cases exit with
      | ended e => exact hcode'
      | panicked text => exact hcode'.congr rfl
  have hemptied : modest.Code s.emptied := hcode.congr rfl
  obtain ⟨events, s', hlets, -⟩ := Series.total heach s.workspace.packages.reverse hemptied
  exact ⟨_, s', ⟨hlets⟩⟩

end Prompt

/-- **Activations and deactivations pair up.** Whatever a bridge has been through, its active packages are those whose activations went
well since packages were last let go. Loading deactivates nobody. When packages are let go, also because the run ends in whatever way,
then exactly the extensions of those are deactivated, each once and the last activated first, whether they panic or not; afterwards there
are no packages, and letting go again calls nobody. All acts are steps of the session, and they can be performed as long as no extension
keeps the session for ever. -/
theorem deactivations_mirror_activations (catalog : Catalog) (hmodest : Modest catalog) (setup : Setup)
    (hfarewell : setup.farewell = deactivateAll catalog (.finish .done)) {life : List Act} {history : List Event} {s : Session}
    (lives : Lives catalog life (ofSetup setup) history s) :
    activeKeys s.workspace.packages = unpaired history ∧
    (∀ act now s', Performs catalog act s now s' →
      act.Steps catalog s now s' ∧
      (¬ act.LetsAllGo → now.filterMap Event.deactivated? = []) ∧
      (act.LetsAllGo →
        now.filterMap Event.deactivated? = (unpaired history).reverse ∧ now.filterMap Event.activated? = [] ∧
        s'.workspace.packages = [] ∧ ∀ again s'', Performs catalog .letGo s' again s'' → again = [.lettingGo])) ∧
    (Prompt catalog →
      (∀ files root, ∃ now s', Performs catalog (.loadRoot files root) s now s') ∧
      (∀ files roots, ∃ now s', Performs catalog (.loadRoots files roots) s now s') ∧
      (∃ now s', Performs catalog .letGo s now s') ∧
      ∀ m, modest.Admits m → s.reader ≠ .ended →
        ∃ now s', Performs catalog (if (s.move m).reader = .ended then .endRun m else .meanwhile m) s now s') := by
  have hupkeep : Upkeep catalog history s := upkeep_lives hmodest (upkeep_ofSetup hfarewell) lives
  refine ⟨hupkeep.unpaired, fun act now s' hperforms => ⟨hperforms.steps hupkeep.farewell, ?_, ?_⟩, fun prompt => ⟨?_, ?_, ?_, ?_⟩⟩
  · exact fun hstays => hperforms.deactivates_nobody hstays
  · intro hlets
    obtain ⟨calls, rfl, honly, hcalls, hnone⟩ := hperforms.lets_all_go hmodest hupkeep hlets
    refine ⟨?_, filterMap_activated honly, hnone, fun again s'' hagain => ?_⟩
    · rw [← hupkeep.unpaired]
      exact hcalls
    · obtain ⟨calls', rfl, honly', hcalls', -⟩ := hagain.lets_all_go hmodest (hupkeep.performs hmodest hperforms) trivial
      rw [hnone] at hcalls'
      cases calls' with
      | nil => rfl
      | cons e rest =>
        obtain ⟨key, hkey⟩ := Option.isSome_iff_exists.mp (honly' e List.mem_cons_self)
        rw [List.filterMap_cons_some hkey] at hcalls'
        cases hcalls'
  · intro files root
    obtain ⟨now, result, s', hloads⟩ := loadsRoot_total files hmodest prompt root hupkeep.code
    exact ⟨now, s', .loadRoot hloads⟩
  · intro files roots
    obtain ⟨now, s', hloads⟩ := loadsRoots_total files hmodest prompt roots hupkeep.code
    exact ⟨now, s', .loadRoots hloads⟩
  · obtain ⟨now, s', hlets⟩ := letsGo_total hmodest prompt hupkeep.code
    exact ⟨now, s', .letGo hlets⟩
  · intro m admitted ongoing
    split
    · next hended =>
      obtain ⟨now, s', hlets⟩ := letsGo_total hmodest prompt ((hupkeep.abides ongoing).code_move m)
      cases closes_move s m with
      | goesOn reader => exact absurd (reader hended) ongoing
      | ends reader focus => exact ⟨now, _, .endRun ongoing hended focus hlets⟩
    · next hopen => exact ⟨[], _, .meanwhile admitted ongoing hopen⟩

/-- An extension that does nothing and panics when it is deactivated. -/
def stubborn : Catalog :=
  [("b", ⟨.finish .done, .panic "no"⟩)]

theorem modest_stubborn : Modest stubborn := by
  intro entry hooks hentry
  rw [stubborn, Keyed.get?_cons] at hentry
  split at hentry
  · cases hentry
    exact ⟨.finish _, .panic _⟩
  · cases hentry

/-- A package that was loaded twice is deactivated twice, although its extension panics each time, and then not again. -/
theorem loaded_twice_deactivated_twice :
    ∃ history s, Lives stubborn [.loadRoots packageFiles ["/p"], .meanwhile .start, .loadRoot packageFiles "/p"]
        (ofSetup { farewell := deactivateAll stubborn (.finish .done) }) history s ∧
      unpaired history = [("/p/b", "b"), ("/p/b", "b")] ∧
      ∃ now s', Performs stubborn .letGo s now s' ∧ now.filterMap Event.deactivated? = [("/p/b", "b"), ("/p/b", "b")] ∧
        ∀ again s'', Performs stubborn .letGo s' again s'' → again = [.lettingGo] := by
  let done : Exit := .ended .done
  have hroot : ∀ s, ∃ s', LoadsRoot packageFiles stubborn "/p" s
      [.activated "/p/b" "b" done, .loaded ⟨manifest, "/p/b", true⟩] (.ok 1) s' ∧ s'.reader = s.reader := by
    intro s
    have hpackage : Comes (s.published "/p/b" manifest) (.finish .done) (s.published "/p/b" manifest) done.program := .here _ _
    have hloads : LoadsRoot packageFiles stubborn "/p" s _ _ _ :=
      .reads packageDirs_packageFiles (.cons (.active load_packageFiles rfl hpackage) (.nil _))
    obtain ⟨-, -, hreader, -⟩ := (hloads.comes fun _ => .finish .done).frame
    exact ⟨_, hloads, hreader⟩
  obtain ⟨s₁, hfirst, hreader₁⟩ := hroot (ofSetup { farewell := deactivateAll stubborn (.finish .done) })
  have hstart : (s₁.settleRoot "/p" (.ok 1)).move .start =
      { s₁.settleRoot "/p" (.ok 1) with reader := .due, ready := (s₁.settleRoot "/p" (.ok 1)).ready ++ [.reader] } :=
    if_pos hreader₁
  have hbefore : (s₁.settleRoot "/p" (.ok 1)).reader ≠ .ended := fun hended => by cases hreader₁.symm.trans hended
  have hafter : ((s₁.settleRoot "/p" (.ok 1)).move .start).reader ≠ .ended := by
    rw [hstart]
    exact nofun
  obtain ⟨s₂, hsecond, -⟩ := hroot ((s₁.settleRoot "/p" (.ok 1)).move .start)
  have hlives : Lives stubborn [.loadRoots packageFiles ["/p"], .meanwhile .start, .loadRoot packageFiles "/p"]
      (ofSetup { farewell := deactivateAll stubborn (.finish .done) }) _ s₂ :=
    .cons (.loadRoots (.cons ⟨_, _, hfirst, rfl⟩ (.nil _))) (.cons (.meanwhile trivial hbefore hafter) (.cons (.loadRoot hsecond) (.nil _)))
  obtain ⟨-, hacts, hcan⟩ := deactivations_mirror_activations stubborn modest_stubborn
    { farewell := deactivateAll stubborn (.finish .done) } rfl hlives
  have hprompt : Prompt stubborn := by
    intro entry hooks hentry s _
    rw [stubborn, Keyed.get?_cons] at hentry
    split at hentry
    · cases hentry
      exact ⟨⟨.ended .done, s, .here s _⟩, ⟨.panicked "no", s, .here s _⟩⟩
    · cases hentry
  obtain ⟨-, -, ⟨now, s', hletGo⟩, -⟩ := hcan hprompt
  obtain ⟨-, -, hletsGo⟩ := hacts .letGo now s' hletGo
  obtain ⟨hcalls, -, -, hagain⟩ := hletsGo trivial
  exact ⟨_, s₂, hlives, rfl, now, s', hletGo, hcalls, hagain⟩

end EditorLink.Session
