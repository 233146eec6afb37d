import EditorLink.Proofs.Extension.Rules
import EditorLink.Proofs.Keyed
import EditorLink.Proofs.Session.Lasting

/-!
# EditorLink.Proofs.Extension.Registrations -- the registrations of listeners, replayed

The listeners of a type are what the registrations and removals so far make of an empty list, one after the other (`replay`). Which they were is
read off a history: a move that changes the listeners makes one of the two changes of the workspace that do (`Registered`). So the order of
the listeners is settled by the history alone (`listeners_eq_replay`), for all code that changes them by the facade's operations only.
-/

namespace EditorLink.Extension

open Registry Session

/-! ## Replaying -/

/-- Something that was done to the listeners. -/
inductive Registration where
  | added (type : String) (code : CodeId)
  | removed (type : String) (code : CodeId)

namespace Registration

/-- What it makes of the workspace. -/
def change : Registration → Workspace → Workspace
  | added type code => Workspace.addListener type code
  | removed type code => Workspace.dropListener type code

/-- What it makes of the list of one type: a registration comes last, and a removal takes away the first one of that very listener. -/
def apply (type : String) (list : List CodeId) : Registration → List CodeId
  | added other code => if other = type then list ++ [code] else list
  | removed other code => if other = type then list.erase code else list

/-- **A change of the workspace does to the list of each type what it says.** -/
theorem of_change (r : Registration) (w : Workspace) (type : String) : (r.change w).listeners.of type = r.apply type (w.listeners.of type) := by
  cases r with
  | added other code =>
    show Option.getD (Keyed.get? (w.listeners.insert other (w.listeners.of other ++ [code])) type) [] = _
    rw [Keyed.get?_insert, apply]
    split
    · next h => rw [h, Option.getD_some]
    · rfl
  | removed other code =>
    show Listeners.of (if (w.listeners.of other).contains code then _ else _) type = _
    rw [apply]
    split
    · show Option.getD (Keyed.get? (w.listeners.insert other ((w.listeners.of other).erase code)) type) [] = _
      rw [Keyed.get?_insert]
      split
      · next h => rw [h, Option.getD_some]
      · rfl
    · next habsent =>
      split
      · next h =>
        subst h
        rw [List.erase_of_not_mem (by simpa using habsent)]
      · rfl

end Registration

/-- The listeners of a type after some registrations and removals, when there were none before. -/
def replay (type : String) (history : List Registration) : List CodeId :=
  history.foldl (Registration.apply type) []

theorem replay_concat (type : String) (history : List Registration) (r : Registration) :
    replay type (history ++ [r]) = r.apply type (replay type history) := by
  rw [replay, List.foldl_append]
  rfl

/-! ## Registrations in a history -/

end EditorLink.Extension

namespace EditorLink.Session

open Extension Registry

/-- A move makes this change of the workspace: a program does, or a caller that goes away leaves it behind. -/
inductive Makes (s : Session) (m : Move) (change : Workspace → Workspace) : Prop
  | works {id : TaskId} {role : Role} {p : Program} {outer : List (Exit → Program)} (step : m = .step)
      (focus : s.focus = .running id role p outer) (starts : p.change? = some change)
  | leaves {tag : String} {f : Task} (gone : m = .abandon tag) (found : s.tasks.find? (hasTag tag) = some f)
      (releases : releaseOf f.wait = change)

theorem Makes.workspace {s : Session} {m : Move} {change : Workspace → Workspace} (h : Makes s m change) :
    (s.move m).workspace = change s.workspace := by
  cases h with
  | @works id role p outer step focus starts =>
    rw [step, move_of_running focus, workspace_runStep, starts]
    rfl
  | @leaves tag f gone found releases =>
    rw [gone, move, abandon, found, ← releases]

/-- The registrations and removals in a history, first things first. -/
inductive Registered (setup : Setup) : List Move → List Registration → Prop
  | nothing : Registered setup [] []
  | makes {moves : List Move} {m : Move} {history : List Registration} {r : Registration} (earlier : Registered setup moves history)
      (makes : Makes (Chronicle.after setup moves).session m r.change) : Registered setup (moves ++ [m]) (history ++ [r])
  | beside {moves : List Move} {m : Move} {history : List Registration} (earlier : Registered setup moves history)
      (nothing : ∀ r : Registration, ¬ Makes (Chronicle.after setup moves).session m r.change) : Registered setup (moves ++ [m]) history

theorem exists_registered (setup : Setup) (moves : List Move) : ∃ history, Registered setup moves history := by
  induction moves using List.reverseRecOn with
  | nil => exact ⟨[], .nothing⟩
  | append_singleton moves m ih =>
    obtain ⟨history, earlier⟩ := ih
    by_cases hmakes : ∃ r : Registration, Makes (Chronicle.after setup moves).session m r.change
    · obtain ⟨r, hmakes⟩ := hmakes
      exact ⟨_, .makes earlier hmakes⟩
    · exact ⟨_, .beside earlier fun r h => hmakes ⟨r, h⟩⟩

/-! ## Code that changes listeners by the facade's operations -/

/-- The limits of code that changes the listeners by registrations and removals only. -/
def registering : Limits where
  changes := fun change => Leaves Workspace.listeners change ∨ ∃ r : Registration, change = r.change
  methods := fun _ => True

theorem lenient_registering : registering.Lenient where
  look := Or.inl fun _ => rfl
  newEvent := fun _ => Or.inl fun _ => rfl

theorem confined_on {type key : String} {code : Input → Program} {next : Program} (hcode : ∀ input, (code input).Confined registering)
    (h : next.Confined registering) : (Facade.on type key code next).Confined registering := by
  refine Program.confined_look lenient_registering fun w => ?_
  cases w.listenerKeys.get? key with
  | some named => exact .access (Or.inr ⟨.added type named, rfl⟩) fun _ => h
  | none =>
    refine .keep hcode fun named => .access (Or.inl fun _ => rfl) fun _ => ?_
    exact .access (Or.inr ⟨.added type named, rfl⟩) fun _ => h

theorem confined_removeListener {type key : String} {k : Bool → Program} (h : ∀ had, (k had).Confined registering) :
    (Facade.removeListener type key k).Confined registering := by
  refine Program.confined_look lenient_registering fun w => ?_
  cases w.listenerKeys.get? key with
  | some named => exact .access (Or.inr ⟨.removed type named, rfl⟩) fun w => h _
  | none => exact h false

/-- A move that makes no registration and no removal leaves the listeners as they are. -/
theorem listeners_move {s : Session} (abides : (registering.rule lenient_registering).Abides s) {m : Move}
    (nothing : ∀ r : Registration, ¬ Makes s m r.change) : (s.move m).workspace.listeners = s.workspace.listeners := by
  cases s.kind_move m with
  | @works id role p outer step focus after =>
    have hworkspace := workspace_runStep s id role outer p
    rw [← after] at hworkspace
    rw [hworkspace]
    cases hchange : p.change? with
    | none => rfl
    | some change =>
      have hallowed : registering.changes change := by
        obtain ⟨hp, -⟩ := abides.works focus
        cases hp with
        | access allowed _ => exact Option.some.inj hchange ▸ allowed
        | ensure allowed _ => exact Option.some.inj hchange ▸ allowed
        | _ => cases hchange
      rcases hallowed with hleaves | ⟨r, rfl⟩
      · exact hleaves s.workspace
      · exact absurd (.works step focus hchange) (nothing r)
  | @drops tag f gone found after =>
    have hworkspace := congrArg Session.workspace after
    rw [hworkspace]
    rcases Rule.Waits.releaseOf (abides.tasks f (List.mem_of_find?_eq_some found)).1 with hnothing | hleaves | ⟨r, hr⟩
    · exact congrArg (fun change : Workspace → Workspace => (change s.workspace).listeners) hnothing
    · exact hleaves s.workspace
    · exact absurd (.leaves gone found hr) (nothing r)
  | tends _ _ tends _ => rw [tends.workspace]

/-- **The listeners of each type are what the history of registrations makes of an empty list.** -/
theorem listeners_eq_replay {setup : Setup} (hfarewell : setup.farewell.Confined registering) {moves : List Move}
    (hmoves : ∀ m ∈ moves, (registering.rule lenient_registering).Admits m) {history : List Registration}
    (registered : Registered setup moves history) (type : String) :
    (Chronicle.after setup moves).session.workspace.listeners.of type = replay type history := by
  suffices h : (registering.rule lenient_registering).Abides (Chronicle.after setup moves).session ∧
      (Chronicle.after setup moves).session.farewell = setup.farewell ∧
      (Chronicle.after setup moves).session.workspace.listeners.of type = replay type history from h.2.2
  -- one more move, whatever it is
  have hmore : ∀ (moves : List Move) (m : Move), (∀ m' ∈ moves ++ [m], (registering.rule lenient_registering).Admits m') →
      (registering.rule lenient_registering).Abides (Chronicle.after setup moves).session →
      (Chronicle.after setup moves).session.farewell = setup.farewell →
      (registering.rule lenient_registering).Abides (Chronicle.after setup (moves ++ [m])).session ∧
        (Chronicle.after setup (moves ++ [m])).session.farewell = setup.farewell := by
    intro moves m hmoves habides hsame
    rw [Chronicle.after_concat]
    exact ⟨habides.move (hmoves m (by simp)) fun _ => hsame ▸ hfarewell, (farewell_move _ m).trans hsame⟩
  induction registered with
  | nothing => exact ⟨⟨fun _ _ => .finish _, by simp [ofSetup], by simp [ofSetup]⟩, rfl, rfl⟩
  | @makes moves m history r _ makes ih =>
    obtain ⟨habides, hsame, hlist⟩ := ih fun m' hm' => hmoves m' (List.mem_append_left _ hm')
    obtain ⟨habides', hsame'⟩ := hmore moves m hmoves habides hsame
    refine ⟨habides', hsame', ?_⟩
    rw [Chronicle.after_concat, replay_concat, ← hlist, ← r.of_change]
    exact congrArg (fun w : Workspace => w.listeners.of type) makes.workspace
  | @beside moves m history _ nothing ih =>
    obtain ⟨habides, hsame, hlist⟩ := ih fun m' hm' => hmoves m' (List.mem_append_left _ hm')
    obtain ⟨habides', hsame'⟩ := hmore moves m hmoves habides hsame
    refine ⟨habides', hsame', ?_⟩
    rw [Chronicle.after_concat, ← hlist]
    exact congrArg (fun ls : Listeners => ls.of type) (listeners_move habides nothing)

/-! ## The facade's operations -/

section Facade

variable (s : Session) (type key : String)

/-- Registering a listener does so under the code that its key names, which is new if the key is. -/
theorem comes_on (code : Input → Program) (next : Program) :
    ∃ s' named, Comes s (Facade.on type key code next) s' next ∧ s'.workspace.listeners = s.workspace.listeners.add type named ∧
      s'.workspace.listenerKeys.get? key = some named ∧
      ((s.workspace.listenerKeys.get? key = some named ∧ s'.code = s.code) ∨
        s.workspace.listenerKeys.get? key = none ∧ named = s.code.size ∧ s'.code = s.code.push code) := by
  cases hkey : s.workspace.listenerKeys.get? key with
  | some named =>
    refine ⟨{ s with workspace := s.workspace.addListener type named }, named, .access ?_, rfl, hkey, Or.inl ⟨rfl, rfl⟩⟩
    simp only [hkey]
    exact .access (.here _ next)
  | none =>
    let kept : Session := { s with code := s.code.push code }
    let known : Session := { kept with workspace := { s.workspace with listenerKeys := s.workspace.listenerKeys.insert key s.code.size } }
    refine ⟨{ known with workspace := known.workspace.addListener type s.code.size }, s.code.size, .access ?_, rfl, ?_,
      Or.inr ⟨rfl, rfl, rfl⟩⟩
    · simp only [hkey]
      exact .keep (.access (.access (.here _ next)))
    · show Keyed.get? (s.workspace.listenerKeys.insert key s.code.size) key = _
      rw [Keyed.get?_insert, if_pos rfl]

/-- Removing a listener takes its first registration under the type away, and says whether there was one. -/
theorem comes_removeListener (k : Bool → Program) :
    ∃ s', (∀ named, s.workspace.listenerKeys.get? key = some named →
        Comes s (Facade.removeListener type key k) s' (k (decide (named ∈ s.workspace.listeners.of type))) ∧
          s'.workspace = s.workspace.dropListener type named) ∧
      (s.workspace.listenerKeys.get? key = none → Comes s (Facade.removeListener type key k) s' (k false) ∧ s'.workspace = s.workspace) := by
  cases hkey : s.workspace.listenerKeys.get? key with
  | some named =>
    refine ⟨{ s with workspace := s.workspace.dropListener type named }, ?_, nofun⟩
    rintro _ ⟨⟩
    refine ⟨.access ?_, rfl⟩
    simp only [hkey]
    have hhas : decide (named ∈ s.workspace.listeners.of type) = s.workspace.listeners.has type named := by
      rw [Listeners.has, List.contains_eq_mem]
    rw [hhas]
    exact .access (.here _ _)
  | none =>
    refine ⟨s, nofun, fun _ => ⟨.access ?_, rfl⟩⟩
    simp only [hkey]
    exact .here _ _

end Facade
end EditorLink.Session
