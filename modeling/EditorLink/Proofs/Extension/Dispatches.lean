import EditorLink.Proofs.Extension.Registrations
import EditorLink.Proofs.Session.Verdict

/-!
# EditorLink.Proofs.Extension.Dispatches -- whom a dispatch calls

A dispatch walks along the listeners that are registered when it begins. It calls one after the other, in the task that it began in, and while a
listener runs or waits anything may happen: others work, listeners come and go, and the listener itself may begin dispatches of its own. What a
dispatch has done so far is noted from outside, at its place in the stack of calls (`notes`), and that is always an initial part of the walk
along the list that it began with (`Account`).
-/

namespace EditorLink.Extension

open Registry

/-! ## Walks -/

/-- A walk along listeners with an event: what stops it, and what goes on after it, which is told whether it was stopped. -/
structure Walk where
  event : EventId
  stops : Ending → Bool
  done : Bool → Program

namespace Walk

/-- The walk along these listeners. -/
def program (w : Walk) : List CodeId → Program
  | [] => w.done false
  | code :: rest => .call code (.event w.event) fun e => if w.stops e then w.done true else w.program rest

/-- What goes on with the ending of a listener, when these are still to be called. -/
def next (w : Walk) (rest : List CodeId) (e : Ending) : Program :=
  if w.stops e then w.done true else w.program rest

/-- The walk until a listener matches. -/
def any (event : EventId) (k : Bool → Program) : Walk :=
  ⟨event, Ending.isMatch, k⟩

/-- The walk past all listeners. -/
def emit (event : EventId) (next : Program) : Walk :=
  ⟨event, fun _ => false, fun _ => next⟩

theorem any_program (event : EventId) (k : Bool → Program) (list : List CodeId) :
    (any event k).program list = .firstMatch event k list := by
  induction list with
  | nil => rfl
  | cons code rest ih =>
    rw [program, Program.firstMatch, ih]
    rfl

theorem emit_program (event : EventId) (next : Program) (list : List CodeId) :
    (emit event next).program list = .callAll event next list := by
  induction list with
  | nil => rfl
  | cons code rest ih =>
    rw [program, Program.callAll, ih]
    rfl

/-! ## Where a walk stands -/

inductive Status where
  /-- This listener is about to be called. -/
  | before (code : CodeId) (rest : List CodeId)
  /-- This listener has been called and has not come back. -/
  | inside (code : CodeId) (rest : List CodeId)
  | ended (stopped : Bool)
  /-- A listener has panicked. -/
  | panicked (text : String)

namespace Status

/-- A walk with these listeners before it. -/
def along : List CodeId → Status
  | [] => ended false
  | code :: rest => before code rest

/-- The walk is not over. -/
def goesOn : Status → Bool
  | before _ _ => true
  | inside _ _ => true
  | _ => false

end Status

/-- What can be noted of a walk. -/
inductive Note where
  | called (code : CodeId) (input : Input)
  | returned (exit : Exit)

/-- The notes of listeners that were called and came back. -/
def rounds (w : Walk) (heard : List (CodeId × Ending)) : List Note :=
  heard.flatMap fun (code, e) => [.called code (.event w.event), .returned (.ended e)]

/-- **What a walk along a list has done when it stands somewhere.** The listeners were called in the order of the list and came back without
stopping the walk, but for the last one; a walk that was stopped was so by the last that was called; and one that was not stopped has
called all there are. -/
inductive Account (w : Walk) (list : List CodeId) : List Note → Status → Prop
  | before {heard : List (CodeId × Ending)} {code : CodeId} {rest : List CodeId} (on : ∀ h ∈ heard, w.stops h.2 = false)
      (order : list = heard.map (·.1) ++ code :: rest) : Account w list (w.rounds heard) (.before code rest)
  | inside {heard : List (CodeId × Ending)} {code : CodeId} {rest : List CodeId} (on : ∀ h ∈ heard, w.stops h.2 = false)
      (order : list = heard.map (·.1) ++ code :: rest) :
      Account w list (w.rounds heard ++ [.called code (.event w.event)]) (.inside code rest)
  | stopped {heard : List (CodeId × Ending)} {code : CodeId} {rest : List CodeId} {e : Ending} (on : ∀ h ∈ heard, w.stops h.2 = false)
      (order : list = heard.map (·.1) ++ code :: rest) (stops : w.stops e = true) :
      Account w list (w.rounds heard ++ [.called code (.event w.event), .returned (.ended e)]) (.ended true)
  | finished {heard : List (CodeId × Ending)} (on : ∀ h ∈ heard, w.stops h.2 = false) (order : list = heard.map (·.1)) :
      Account w list (w.rounds heard) (.ended false)
  | panicked {heard : List (CodeId × Ending)} {code : CodeId} {rest : List CodeId} {text : String} (on : ∀ h ∈ heard, w.stops h.2 = false)
      (order : list = heard.map (·.1) ++ code :: rest) :
      Account w list (w.rounds heard ++ [.called code (.event w.event), .returned (.panicked text)]) (.panicked text)

/-- What a walk does in a move. -/
inductive Goes (w : Walk) : Status → List Note → Status → Prop
  | rests (status : Status) : Goes w status [] status
  | calls (code : CodeId) (rest : List CodeId) : Goes w (.before code rest) [.called code (.event w.event)] (.inside code rest)
  | stops {code : CodeId} {rest : List CodeId} {e : Ending} (h : w.stops e = true) :
      Goes w (.inside code rest) [.returned (.ended e)] (.ended true)
  | passes {code : CodeId} {rest : List CodeId} {e : Ending} (h : w.stops e = false) :
      Goes w (.inside code rest) [.returned (.ended e)] (.along rest)
  | panics (code : CodeId) (rest : List CodeId) (text : String) :
      Goes w (.inside code rest) [.returned (.panicked text)] (.panicked text)

namespace Account

variable {w : Walk} {list left : List CodeId} {notes more : List Note} {status status' : Status}

/-- A walk that has come to some listeners. -/
theorem along {heard : List (CodeId × Ending)} (on : ∀ h ∈ heard, w.stops h.2 = false) (order : list = heard.map (·.1) ++ left) :
    Account w list (w.rounds heard) (.along left) := by
  cases left with
  | nil => exact .finished on (by rw [order, List.append_nil])
  | cons code rest => exact .before on order

/-- **Each move keeps the account.** -/
theorem goes (h : Account w list notes status) (goes : Goes w status more status') : Account w list (notes ++ more) status' := by
  cases goes with
  | rests =>
    rw [List.append_nil]
    exact h
  | calls code rest =>
    cases h with
    | before on order => exact .inside on order
  | stops hstops =>
    cases h with
    | inside on order =>
      rw [List.append_assoc]
      exact .stopped on order hstops
  | @passes code rest e hpasses =>
    cases h with
    | @inside heard _ _ on order =>
      have hrounds : (w.rounds heard ++ [.called code (.event w.event)]) ++ [.returned (.ended e)] = w.rounds (heard ++ [(code, e)]) := by
        simp [rounds]
      rw [hrounds]
      refine along (fun h hh => ?_) (by simp [order])
      rcases List.mem_append.mp hh with hh | hh
      · exact on h hh
      · rw [List.mem_singleton.mp hh]
        exact hpasses
  | panics code rest text =>
    cases h with
    | inside on order =>
      rw [List.append_assoc]
      exact .panicked on order

end Account
end Walk
end EditorLink.Extension

namespace EditorLink.Session

open Extension Registry Walk

/-! ## Dispatches in a session -/

/-- A walk in a task, and the code that has called it there. -/
structure Dispatch where
  task : TaskId
  role : Role
  outer : List (Exit → Program)
  walk : Walk

namespace Dispatch

/-- The code that waits for the ending of a listener, when these are still to be called. -/
def frame (d : Dispatch) (rest : List CodeId) : Exit → Program :=
  Program.unlessPanicked (d.walk.next rest)

/-- The dispatch stands so. -/
inductive Stands (d : Dispatch) (s : Session) : Status → Prop
  | before {code : CodeId} {rest : List CodeId} (focus : s.focus = .running d.task d.role (d.walk.program (code :: rest)) d.outer) :
      Stands d s (.before code rest)
  | inside {code : CodeId} {rest : List CodeId} {t : Task} (inner : List (Exit → Program)) (live : t ∈ s.live) (task : t.id = d.task)
      (role : t.role = d.role) (outer : t.outer = inner ++ d.frame rest :: d.outer) : Stands d s (.inside code rest)
  | ended {stopped : Bool} (focus : s.focus = .running d.task d.role (d.walk.done stopped) d.outer) : Stands d s (.ended stopped)
  | panicked {text : String} (focus : s.focus = .running d.task d.role (.panic text) d.outer) : Stands d s (.panicked text)

/-- The task of the dispatch is dropped, and the dispatch with it. -/
inductive Dropped (d : Dispatch) (s : Session) : Move → Prop
  | intro {tag : String} {f : Task} (found : s.tasks.find? (hasTag tag) = some f) (task : f.id = d.task) : Dropped d s (.abandon tag)

/-- What is noted of a program that so much code has called: calls that it makes, and code that comes back to it. -/
def programNotes (d : Dispatch) (p : Program) (outer : List (Exit → Program)) : List Note :=
  match p with
  | .run code input _ => if outer.length = d.outer.length then [.called code input] else []
  | .finish e => if outer.length = d.outer.length + 1 then [.returned (.ended e)] else []
  | .panic text => if outer.length = d.outer.length + 1 then [.returned (.panicked text)] else []
  | _ => []

/-- What is noted of a dispatch in a move: the calls made at its place in the stack of its task, and what comes back there. -/
def notes (d : Dispatch) (s : Session) : Move → List Note
  | .step =>
    match s.focus with
    | .running id _ p outer => if id = d.task then d.programNotes p outer else []
    | _ => []
  | _ => []

variable {d : Dispatch} {s : Session} {m : Move} {status : Status}

theorem notes_of_running {role : Role} {p : Program} {outer : List (Exit → Program)} (focus : s.focus = .running d.task role p outer) :
    d.notes s .step = d.programNotes p outer := by
  rw [notes, focus]
  exact if_pos rfl

theorem notes_of_aside (aside : m = .step → ∀ role p outer, s.focus ≠ .running d.task role p outer) : d.notes s m = [] := by
  cases m with
  | step =>
    rw [notes]
    split
    · next id role p outer hfocus =>
      refine if_neg fun heq => ?_
      subst heq
      exact aside rfl role p outer hfocus
    · rfl
  | _ => rfl

/-- The walk along some listeners stands at the first of them, or is over. -/
theorem stands_along {left : List CodeId} (focus : s.focus = .running d.task d.role (d.walk.program left) d.outer) :
    Stands d s (.along left) := by
  cases left with
  | nil => exact .ended focus
  | cons code rest => exact .before focus

/-- While a listener is under way, or what it has called, nothing is noted. -/
theorem programNotes_inside {rest : List CodeId} {p : Program} {inner : List (Exit → Program)}
    (h : (∀ exit : Exit, p ≠ exit.program) ∨ inner ≠ []) : d.programNotes p (inner ++ d.frame rest :: d.outer) = [] := by
  have hlonger : (inner ++ d.frame rest :: d.outer).length = inner.length + d.outer.length + 1 := by
    rw [List.length_append, List.length_cons]
    omega
  unfold programNotes
  split
  · exact if_neg (by omega)
  · next e =>
    rcases h with h | h
    · exact absurd rfl (h (.ended e))
    · have hinner := List.length_pos_of_ne_nil h
      exact if_neg (by omega)
  · next text =>
    rcases h with h | h
    · exact absurd rfl (h (.panicked text))
    · have hinner := List.length_pos_of_ne_nil h
      exact if_neg (by omega)
  · rfl

/-- A listener has come back to the walk. -/
theorem comes_back {s' : Session} {code : CodeId} {rest : List CodeId} {exit : Exit}
    (running : s'.focus = .running d.task d.role (d.frame rest exit) d.outer) :
    ∃ status', Stands d s' status' ∧ Goes d.walk (.inside code rest) (d.programNotes exit.program (d.frame rest :: d.outer)) status' := by
  cases exit with
  | panicked text =>
    have hnotes : d.programNotes (Exit.panicked text).program (d.frame rest :: d.outer) = [.returned (.panicked text)] := if_pos rfl
    rw [hnotes]
    exact ⟨_, .panicked running, .panics code rest text⟩
  | ended e =>
    have hnotes : d.programNotes (Exit.ended e).program (d.frame rest :: d.outer) = [.returned (.ended e)] := if_pos rfl
    have hframe : d.frame rest (.ended e) = if d.walk.stops e then d.walk.done true else d.walk.program rest := rfl
    rw [hnotes]
    rw [hframe] at running
    by_cases hstops : d.walk.stops e = true
    · rw [if_pos hstops] at running
      exact ⟨_, .ended running, .stops hstops⟩
    · rw [if_neg hstops] at running
      exact ⟨_, stands_along running, .passes (by simpa using hstops)⟩

/-- A listener does something, which may be its end. -/
theorem inside_step {code : CodeId} {rest : List CodeId} {role : Role} {p : Program} {inner : List (Exit → Program)} (same : role = d.role)
    (focus : s.focus = .running d.task role p (inner ++ d.frame rest :: d.outer)) :
    ∃ status', Stands d (s.runStep d.task role (inner ++ d.frame rest :: d.outer) p) status' ∧
      Goes d.walk (.inside code rest) (d.notes s .step) status' := by
  subst same
  rw [notes_of_running focus]
  have hworked := s.worked_runStep d.task d.role (inner ++ d.frame rest :: d.outer) p
  -- whatever the listener has become, it is still under way
  have hunder : ∀ {t : Task} (more : List (Exit → Program)), t ∈ (s.runStep d.task d.role (inner ++ d.frame rest :: d.outer) p).live →
      t.id = d.task → t.role = d.role → t.outer = more ++ d.frame rest :: d.outer → ((∀ exit : Exit, p ≠ exit.program) ∨ inner ≠ []) →
      ∃ status', Stands d (s.runStep d.task d.role (inner ++ d.frame rest :: d.outer) p) status' ∧
        Goes d.walk (.inside code rest) (d.programNotes p (inner ++ d.frame rest :: d.outer)) status' := by
    intro t more ht hid hrole houter hquiet
    rw [programNotes_inside hquiet]
    exact ⟨_, .inside more ht hid hrole houter, .rests _⟩
  cases hworked with
  | ended _ own _ _ => exact absurd own (by simp)
  | @waits wait outer' becomes other idle tasks =>
    rcases becomes.outer_cases with ⟨hgoes, more, rfl⟩ | ⟨exit, next, -, -, rfl⟩
    · refine hunder (t := ⟨d.task, d.role, wait, more ++ (inner ++ d.frame rest :: d.outer)⟩) (more ++ inner) ?_ rfl rfl ?_ (Or.inl hgoes)
      · rw [live, tasks]
        simp
      · exact (List.append_assoc ..).symm
    · exact absurd rfl (other _)
  | @on q outer' becomes running tasks =>
    rcases becomes.outer_cases with ⟨hgoes, more, rfl⟩ | ⟨exit, next, rfl, hback, hnext⟩
    · exact hunder (more ++ inner) (running_mem running) rfl rfl (List.append_assoc ..).symm (Or.inl hgoes)
    · obtain rfl := Wait.turn.inj hnext
      cases inner with
      | cons first inner =>
        obtain ⟨rfl, rfl⟩ := List.cons.inj hback
        exact hunder inner (running_mem running) rfl rfl rfl (Or.inr (by simp))
      | nil =>
        obtain ⟨rfl, rfl⟩ := List.cons.inj hback
        exact comes_back running

/-- **What one move does to a dispatch** that is under way, whatever move it is. -/
theorem Stands.move (h : Stands d s status) (going : status.goesOn = true) (sound : Sound s) (m : Move) :
    (∃ status', Stands d (s.move m) status' ∧ Goes d.walk status (d.notes s m) status') ∨
      Dropped d s m ∧ ∃ code rest, status = .inside code rest := by
  cases h with
  | @before code rest focus =>
    refine Or.inl ?_
    by_cases hm : m = .step
    · subst hm
      have hnotes : d.notes s .step = [.called code (.event d.walk.event)] := by
        rw [notes_of_running focus]
        exact if_pos rfl
      rw [move_of_running focus, hnotes]
      exact ⟨_, .inside [] (running_mem rfl) rfl rfl rfl, .calls code rest⟩
    · rw [notes_of_aside fun hstep => absurd hstep hm]
      exact ⟨_, .before ((focus_move hm).trans focus), .rests _⟩
  | @inside code rest t inner ht task role outer =>
    cases lot_move sound m ht with
    | @lasts u aside live goes =>
      refine Or.inl ?_
      rw [notes_of_aside (task ▸ aside)]
      exact ⟨_, .inside inner live (goes.id_eq.trans task) (goes.role_eq.trans role) (goes.outer_eq.trans outer), .rests _⟩
    | @works p step due focus after =>
      refine Or.inl ?_
      subst step
      rw [task, outer] at focus after
      rw [after]
      exact inside_step role focus
    | @dropped tag gone found =>
      subst gone
      exact Or.inr ⟨.intro found task, code, rest, rfl⟩
  | ended _ => cases going
  | panicked _ => cases going

/-- What has come of a dispatch to these listeners in some moves after it began. It is still under way after all of them; or it was over after
some of them, and its task went on with what comes after it, or with the panic of a listener; or its task was dropped while a
listener had not come back. In each case the notes up to then are accounted for by the list. -/
def CameTo (d : Dispatch) (list : List CodeId) (setup : Setup) (moves more : List Move) : Prop :=
  ∃ during later status, more = during ++ later ∧
    Account d.walk list ((Chronicle.after setup moves).along d.notes (.step :: during)) status ∧
    let s := (Chronicle.after setup (moves ++ .step :: during)).session
    ((Stands d s status ∧ (status.goesOn = true → later = [])) ∨
      ∃ m rest, later = m :: rest ∧ Dropped d s m ∧ ∃ code left, status = .inside code left)

/-- **A dispatch keeps to the list that it began with**, whatever happens meanwhile. -/
theorem cameTo {setup : Setup} {moves : List Move} {list : List CodeId}
    (begins : ((Chronicle.after setup moves).session.move .step).focus = .running d.task d.role (d.walk.program list) d.outer)
    (quiet : d.notes (Chronicle.after setup moves).session .step = []) (more : List Move) : d.CameTo list setup moves more := by
  induction more using List.reverseRecOn with
  | nil =>
    refine ⟨[], [], .along list, rfl, ?_, Or.inl ⟨?_, fun _ => rfl⟩⟩
    · have hnone : Account d.walk list (d.walk.rounds []) (.along list) := .along nofun rfl
      simpa [Chronicle.along, quiet, rounds] using hnone
    · rw [Chronicle.after_concat]
      exact stands_along begins
  | append_singleton more m ih =>
    obtain ⟨during, later, status, rfl, account, ⟨stands, hlater⟩ | ⟨m', rest, rfl, dropped, hinside⟩⟩ := ih
    · by_cases going : status.goesOn = true
      · obtain rfl := hlater going
        have hafter : moves ++ .step :: (during ++ [m]) = (moves ++ .step :: during) ++ [m] := by simp
        have halong : (Chronicle.after setup moves).along d.notes (.step :: (during ++ [m])) =
            (Chronicle.after setup moves).along d.notes (.step :: during) ++
              d.notes (Chronicle.after setup (moves ++ .step :: during)).session m := by
          rw [← List.cons_append, Chronicle.along_concat, Chronicle.after, Chronicle.after, List.foldl_append]
        rcases stands.move going (sound_after setup _) m with ⟨status', stands', goes⟩ | ⟨dropped, hinside⟩
        · refine ⟨during ++ [m], [], status', by simp, ?_, Or.inl ⟨?_, fun _ => rfl⟩⟩
          · rw [halong]
            exact account.goes goes
          · rw [hafter, Chronicle.after_concat]
            exact stands'
        · exact ⟨during, [m], status, by simp, account, Or.inr ⟨m, [], rfl, dropped, hinside⟩⟩
      · exact ⟨during, later ++ [m], status, List.append_assoc .., account, Or.inl ⟨stands, fun h => absurd h going⟩⟩
    · exact ⟨during, m' :: rest ++ [m], status, List.append_assoc .., account, Or.inr ⟨m', rest ++ [m], rfl, dropped, hinside⟩⟩

end Dispatch

/-- **Dispatch to listeners.** In every history, a dispatch that asks for a match calls the listeners that are registered under its type when
it begins, in their order, each registration once at most, stops right after the first that matches, and goes on with whether one did; one
that only shows an event calls all of them. Whatever happens meanwhile makes no difference to whom it calls. The panic of a listener ends
the dispatch and is passed on to the code that has begun it, with nothing done to other tasks, the workspace and the reader. Where
listeners are registered and removed by the facade's operations only, those of each type are what the registrations and removals so far
make of an empty list, in which a removal takes away the first registration of that very listener and is told whether there was one. -/
theorem dispatch_to_listeners (setup : Setup) (moves : List Move) :
    let s := (Chronicle.after setup moves).session
    (∀ id role outer type event k, s.focus = .running id role (.any type event k) outer →
      ∀ more, Dispatch.CameTo ⟨id, role, outer, .any event k⟩ (s.workspace.listeners.of type) setup moves more) ∧
    (∀ id role outer type event next, s.focus = .running id role (.emit type event next) outer →
      ∀ more, Dispatch.CameTo ⟨id, role, outer, .emit event next⟩ (s.workspace.listeners.of type) setup moves more) ∧
    (∀ id role text outer, s.focus = .running id role (.panic text) outer →
      (s.move .step).tasks = s.tasks ∧ (s.move .step).workspace = s.workspace ∧ (s.move .step).reader = s.reader) ∧
    (setup.farewell.Confined registering → (∀ m ∈ moves, (registering.rule lenient_registering).Admits m) →
      (∃ history, Registered setup moves history) ∧
      ∀ history, Registered setup moves history → ∀ type, s.workspace.listeners.of type = replay type history) ∧
    (∀ type key code next, ∃ s' named, Comes s (Facade.on type key code next) s' next ∧
      s'.workspace.listeners = s.workspace.listeners.add type named ∧ s'.workspace.listenerKeys.get? key = some named ∧
      ((s.workspace.listenerKeys.get? key = some named ∧ s'.code = s.code) ∨
        s.workspace.listenerKeys.get? key = none ∧ named = s.code.size ∧ s'.code = s.code.push code)) ∧
    ∀ type key k, ∃ s',
      (∀ named, s.workspace.listenerKeys.get? key = some named →
        Comes s (Facade.removeListener type key k) s' (k (decide (named ∈ s.workspace.listeners.of type))) ∧
          s'.workspace = s.workspace.dropListener type named) ∧
      (s.workspace.listenerKeys.get? key = none → Comes s (Facade.removeListener type key k) s' (k false) ∧ s'.workspace = s.workspace) := by
  intro s
  refine ⟨?_, ?_, ?_, ?_, fun type key code next => comes_on s type key code next, fun type key k => comes_removeListener s type key k⟩
  · intro id role outer type event k focus more
    have hbegins : (s.move .step).focus = .running id role ((Walk.any event k).program (s.workspace.listeners.of type)) outer := by
      rw [Walk.any_program, move_of_running focus]
      rfl
    refine Dispatch.cameTo hbegins ?_ more
    rw [Dispatch.notes_of_running focus]
    rfl
  · intro id role outer type event next focus more
    have hbegins : (s.move .step).focus = .running id role ((Walk.emit event next).program (s.workspace.listeners.of type)) outer := by
      rw [Walk.emit_program, move_of_running focus]
      rfl
    refine Dispatch.cameTo hbegins ?_ more
    rw [Dispatch.notes_of_running focus]
    rfl
  · intro id role text outer focus
    have hmove : s.move .step = s.leave id role (.panicked text) outer := move_of_running focus
    obtain ⟨hworkspace, -, hreader⟩ := leave_frame s id role (.panicked text) outer
    rw [hmove]
    refine ⟨?_, hworkspace, hreader⟩
    cases s.worked_leave id role (.panicked text) outer with
    | ended _ _ _ tasks => exact tasks
    | on _ _ tasks => exact tasks
    | waits becomes other _ _ =>
      cases becomes with
      | back _ => exact absurd rfl (other _)
  · intro hfarewell hmoves
    exact ⟨exists_registered setup moves, fun history registered type => listeners_eq_replay hfarewell hmoves registered type⟩

/-- A listener that waits, takes the one behind it off the list, registers another one and does not match. -/
def meddler : Input → Program := fun _ =>
  .await "g" <| Facade.removeListener "t" "b" fun _ => Facade.on "t" "c" (fun _ => .finish .done) (.finish (.value (.bool false)))

/-- Three registrations of two listeners, a dispatch that asks them for a match, one more registration, and a dispatch to all. -/
def filtering : Program :=
  Facade.on "t" "a" meddler <| Facade.on "t" "b" (fun _ => .finish (.value (.bool true))) <| Facade.on "t" "a" meddler <|
    .newEvent [] fun event => .any "t" event fun isMatch =>
      Facade.on "t" "d" (fun _ => .panic "no") <| .emit "t" event <| .finish (.value (.bool isMatch))

theorem confined_meddler (input : Input) : (meddler input).Confined registering :=
  .await <| confined_removeListener fun _ => confined_on (fun _ => .finish _) (.finish _)

theorem confined_filtering : filtering.Confined registering := by
  refine confined_on confined_meddler <| confined_on (fun _ => .finish _) <| confined_on confined_meddler ?_
  refine Program.confined_newEvent lenient_registering fun event => Program.confined_any lenient_registering fun isMatch => ?_
  exact confined_on (fun _ => .panic _) (Program.confined_emit lenient_registering (.finish _))

/-- The first dispatch begins after fifteen moves and the second after thirty-five; at the end the last listener's panic is about to end
the task. -/
def filtered : List Move :=
  .callFacade "x" filtering :: List.replicate 19 .step ++ .openGate "g" :: List.replicate 33 .step

theorem filtering_calls_whom_it_began_with :
    (∃ k, Dispatch.CameTo ⟨0, .caller "x", [], .any 0 k⟩ [0, 1, 0] {} (filtered.take 15) (filtered.drop 16)) ∧
    (∃ next, Dispatch.CameTo ⟨0, .caller "x", [], .emit 0 next⟩ [0, 0, 2, 3] {} (filtered.take 35) (filtered.drop 36)) ∧
    ((Chronicle.after {} filtered).session.move .step).tasks = (Chronicle.after {} filtered).session.tasks ∧
    (∃ history, Registered {} filtered history ∧ replay "t" history = [0, 0, 2, 3, 2, 2]) ∧
    ∃ s', Comes (Chronicle.after {} filtered).session (Facade.removeListener "t" "b" fun had => .finish (.value (.bool had))) s'
      (.finish (.value (.bool false))) := by
  obtain ⟨hany, -⟩ := dispatch_to_listeners {} (filtered.take 15)
  obtain ⟨-, hemit, -⟩ := dispatch_to_listeners {} (filtered.take 35)
  obtain ⟨-, -, hpanic, hreplay, -, hremove⟩ := dispatch_to_listeners {} filtered
  have hmoves : ∀ m ∈ filtered, (registering.rule lenient_registering).Admits m := by
    simpa [filtered, Rule.Admits, Limits.rule] using confined_filtering
  refine ⟨⟨_, hany _ _ _ _ _ _ rfl _⟩, ⟨_, hemit _ _ _ _ _ _ rfl _⟩, (hpanic _ _ _ _ rfl).1, ?_, ?_⟩
  · obtain ⟨⟨history, registered⟩, hlist⟩ := hreplay (.finish _) hmoves
    exact ⟨history, registered, (hlist history registered "t").symm.trans rfl⟩
  · obtain ⟨s', hknown, -⟩ := hremove "t" "b" fun had => .finish (.value (.bool had))
    exact ⟨s', (hknown 1 rfl).1⟩

end EditorLink.Session
