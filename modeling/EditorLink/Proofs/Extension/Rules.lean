import EditorLink.Proofs.Extension.Runs
import EditorLink.Proofs.Session.Tending

/-!
# EditorLink.Proofs.Extension.Rules -- rules that all code keeps to

A **rule** says what programs there may be: what code may be where it begins and where it goes on after a wait, and what it may have
become while it works. If all that is kept, all that waits and what works are as the rule has it, they stay so in every move that brings
in no other code (`Abides.move`), and in every run of a program (`Abides.comes`).

The simplest rules are those of `Program.Confined`, where only certain changes of the workspace are made and only certain methods are
notified.
-/

namespace EditorLink.Extension

open Registry Session

/-! ## Rules -/

structure Rule where
  /-- What code may be where it begins, and where it goes on after something it waited for. -/
  rest : Program → Prop
  /-- What a program may have become while it works. -/
  now : Program → Prop
  /-- What may still happen for a caller that goes away. -/
  releases : (Workspace → Workspace) → Prop
  now_of_rest : ∀ {p}, rest p → now p
  nothing : rest (.finish .done)
  notification : ∀ method args, rest (Handling.notification method args)
  request : ∀ method args, rest (Handling.request method args)
  record : ∀ {entry next}, now (.record entry next) → now next
  report : ∀ {notice next}, now (.report notice next) → now next
  access : ∀ {change next}, now (.access change next) → ∀ w, now (next w)
  ensure : ∀ {change next}, now (.ensure change next) → releases change ∧ now next
  keep : ∀ {code next}, now (.keep code next) → (∀ input, rest (code input)) ∧ ∀ id, now (next id)
  run : ∀ {code input next}, now (.run code input next) → ∀ exit, rest (next exit)
  notify : ∀ {method args next}, now (.notify method args next) → now next
  invoke : ∀ {method args release next}, now (.invoke method args release next) → releases release ∧ ∀ result, rest (next result)
  await : ∀ {gate next}, now (.await gate next) → rest next

namespace Rule

variable {r : Rule} {s s' : Session}

/-- What a task waits for brings it to code that keeps to the rule. -/
def Waits (r : Rule) : Wait → Prop
  | .turn p => r.rest p
  | .reply _ release next => r.releases release ∧ ∀ result, r.rest (next result)
  | .gate _ next => r.rest next

/-- Code that has called something goes on by the rule. -/
def Outer (r : Rule) (outer : List (Exit → Program)) : Prop :=
  ∀ next ∈ outer, ∀ exit, r.rest (next exit)

/-- All kept code is as the rule has it. -/
def Code (r : Rule) (s : Session) : Prop :=
  ∀ id input, r.rest (s.codeOf id input)

/-- All code in a session is as the rule has it. -/
structure Abides (r : Rule) (s : Session) : Prop where
  code : r.Code s
  tasks : ∀ t ∈ s.tasks, r.Waits t.wait ∧ r.Outer t.outer
  works : ∀ {id role p outer}, s.focus = .running id role p outer → r.now p ∧ r.Outer outer

theorem codeOf_eq (h : s'.code = s.code) (id : CodeId) : s'.codeOf id = s.codeOf id := by
  rw [codeOf, codeOf, h]

theorem Code.congr (h : r.Code s) (hcode : s'.code = s.code) : r.Code s' := by
  intro id input
  rw [codeOf_eq hcode]
  exact h id input

/-- More code is kept. -/
theorem Code.push (h : r.Code s) {code : Input → Program} (hcode : ∀ input, r.rest (code input)) (hpush : s'.code = s.code.push code) :
    r.Code s' := by
  intro id input
  have hold := h id input
  rw [codeOf, Array.getD_eq_getD_getElem?] at hold ⊢
  rw [hpush, Array.getElem?_push]
  split
  · exact hcode input
  · exact hold

theorem Waits.resumes {t u : Task} (h : r.Waits t.wait) (htu : t.Resumes u) : r.Waits u.wait := by
  cases htu with
  | same => exact h
  | reply result waits =>
    rw [waits] at h
    exact h.2 result
  | gate waits =>
    rw [waits] at h
    exact h

/-- What is left to do for a caller that goes away is nothing, or allowed. -/
theorem Waits.releaseOf {wait : Wait} (h : r.Waits wait) : Session.releaseOf wait = id ∨ r.releases (Session.releaseOf wait) := by
  cases wait with
  | reply id release next => exact Or.inr h.1
  | gate name next => exact Or.inl rfl
  | turn p =>
    cases p with
    | ensure change next => exact Or.inr (r.ensure (r.now_of_rest h)).1
    | _ => exact Or.inl rfl

theorem Outer.resumes {t u : Task} (h : r.Outer t.outer) (htu : t.Resumes u) : r.Outer u.outer := by
  cases htu <;> exact h

/-! ## Moves -/

namespace Abides

/-- What works now has worked before, or has just gone on or begun. -/
theorem works_of_tends {fresh : Program → Prop} (h : r.Abides s) (hfresh : ∀ p, fresh p → r.rest p) (tends : Tends fresh s s') {id : TaskId}
    {role : Role} {p : Program} {outer : List (Exit → Program)} (hfocus : s'.focus = .running id role p outer) :
    s.focus = .running id role p outer ∨ r.rest p ∧ r.Outer outer := by
  have hmem : (⟨id, role, .turn p, outer⟩ : Task) ∈ s'.focus.task? := by
    rw [hfocus]
    rfl
  rcases tends.focus _ hmem with hbefore | ⟨t, ht, htu⟩ | ⟨houter, q, hq, hwait⟩
  · cases hrun : s.focus with
    | running id' role' p' outer' =>
      rw [hrun] at hbefore
      cases hbefore
      exact Or.inl rfl
    | _ =>
      rw [hrun] at hbefore
      cases hbefore
  · obtain ⟨hwaits, houter⟩ := h.tasks t ht
    exact Or.inr ⟨hwaits.resumes htu, houter.resumes htu⟩
  · cases hwait
    obtain rfl : outer = [] := houter
    exact Or.inr ⟨hfresh _ hq, fun _ hnext => absurd hnext List.not_mem_nil⟩

/-- Code goes on and begins, if what begins is as the rule has it. -/
theorem tends {fresh : Program → Prop} (h : r.Abides s) (hfresh : ∀ p, fresh p → r.rest p) (tends : Tends fresh s s') : r.Abides s' where
  code := h.code.congr tends.code
  tasks := by
    intro u hu
    rcases tends.tasks u hu with ⟨t, ht, htu⟩ | ⟨houter, p, hp, hwait⟩
    · obtain ⟨hwaits, houter⟩ := h.tasks t ht
      exact ⟨hwaits.resumes htu, houter.resumes htu⟩
    · rw [hwait, houter]
      exact ⟨hfresh p hp, fun _ hnext => absurd hnext List.not_mem_nil⟩
  works := by
    intro id role p outer hfocus
    rcases h.works_of_tends hfresh tends hfocus with hbefore | ⟨hp, houter⟩
    · exact h.works hbefore
    · exact ⟨r.now_of_rest hp, houter⟩

/-- A program has done one thing and works on. -/
theorem goesOn (h : r.Abides s) {id : TaskId} {role : Role} {p : Program} {outer : List (Exit → Program)} (hcode : r.Code s')
    (htasks : s'.tasks = s.tasks) (hfocus : s'.focus = .running id role p outer) (hp : r.now p) (houter : r.Outer outer) :
    r.Abides s' where
  code := hcode
  tasks := htasks ▸ h.tasks
  works := by
    intro id' role' p' outer' hrunning
    cases hfocus.symm.trans hrunning
    exact ⟨hp, houter⟩

/-- A task waits. -/
theorem suspended (h : r.Abides s) {t : Task} (hcode : s'.code = s.code) (htasks : s'.tasks = s.tasks ++ [t]) (hfocus : s'.focus = .idle)
    (hwaits : r.Waits t.wait) (houter : r.Outer t.outer) : r.Abides s' where
  code := h.code.congr hcode
  tasks := by
    intro u hu
    rw [htasks] at hu
    rcases List.mem_append.mp hu with hu | hu
    · exact h.tasks u hu
    · rw [List.mem_singleton.mp hu]
      exact ⟨hwaits, houter⟩
  works := fun hrunning => by cases hfocus.symm.trans hrunning

/-- Code has ended. -/
theorem leave (h : r.Abides s) {id : TaskId} {role : Role} {outer : List (Exit → Program)} (houter : r.Outer outer) (exit : Exit) :
    r.Abides (s.leave id role exit outer) := by
  cases outer with
  | nil =>
    obtain ⟨due, journal, writerDue, inFlight, runEnd, hconclude⟩ := conclude_spec { s with focus := .idle } exit role
    rw [Session.leave, hconclude]
    exact ⟨h.code.congr rfl, h.tasks, fun hrunning => by cases hrunning⟩
  | cons next outer =>
    exact h.goesOn (h.code.congr rfl) rfl rfl (r.now_of_rest (houter next List.mem_cons_self exit))
      fun other hother => houter other (List.mem_cons_of_mem next hother)

/-- **A program that works keeps to the rule.** -/
theorem runStep (h : r.Abides s) {id : TaskId} {role : Role} {p : Program} {outer : List (Exit → Program)} (hp : r.now p)
    (houter : r.Outer outer) : r.Abides (s.runStep id role outer p) := by
  cases p with
  | finish e => exact h.leave houter _
  | panic text => exact h.leave houter _
  | record entry next => exact h.goesOn (h.code.congr rfl) rfl rfl (r.record hp) houter
  | report notice next => exact h.goesOn (h.code.congr rfl) rfl rfl (r.report hp) houter
  | access change next => exact h.goesOn (h.code.congr rfl) rfl rfl (r.access hp _) houter
  | ensure change next => exact h.goesOn (h.code.congr rfl) rfl rfl (r.ensure hp).2 houter
  | keep code next => exact h.goesOn (h.code.push (r.keep hp).1 rfl) rfl rfl ((r.keep hp).2 _) houter
  | run code input next =>
    refine h.goesOn (h.code.congr rfl) rfl rfl (r.now_of_rest (h.code code input)) fun other hother => ?_
    rcases List.mem_cons.mp hother with rfl | hother
    · exact r.run hp
    · exact houter other hother
  | notify method args next =>
    rw [Session.runStep, sending_eq]
    exact h.goesOn (h.code.congr rfl) rfl rfl (r.notify hp) houter
  | invoke method args release next =>
    rw [Session.runStep]
    cases s.link.invoke id method args with
    | none => exact h.goesOn (h.code.congr rfl) rfl rfl hp houter
    | some asked =>
      cases asked with
      | error reason => exact h.goesOn (h.code.congr rfl) rfl rfl (r.now_of_rest ((r.invoke hp).2 _)) houter
      | ok accepted =>
        obtain ⟨call, link⟩ := accepted
        simp only [sending_eq]
        exact h.suspended rfl rfl rfl (r.invoke hp) houter
  | await gate next =>
    rw [Session.runStep]
    split
    · exact h.goesOn (h.code.congr rfl) rfl rfl (r.now_of_rest (r.await hp)) houter
    · exact h.suspended rfl rfl rfl (r.await hp) houter

/-- A caller goes away. -/
theorem abandon (h : r.Abides s) (tag : String) : r.Abides (s.abandon tag) := by
  unfold Session.abandon
  split
  · exact ⟨h.code.congr rfl, fun u hu => h.tasks u (List.mem_of_mem_filter hu), h.works⟩
  · exact h

end Abides

/-- A move brings in only code as the rule has it. -/
def Admits (r : Rule) : Move → Prop
  | .callFacade _ p => r.rest p
  | .perform p => r.rest p
  | _ => True

/-- What a move begins is as the rule has it. -/
theorem Admits.starts {m : Move} (admitted : r.Admits m) (hfarewell : (s.move m).reader = .ended → r.rest s.farewell) :
    ∀ p, Starts s m p → r.rest p := by
  refine Starts.all r.notification r.request hfarewell ?_ ?_
  · rintro tag p rfl
    exact admitted
  · rintro p rfl
    exact admitted

/-- **All code keeps to the rule in every move**, if the move brings in no other and what a run says at its end keeps to it, in case the
run ends. -/
theorem Abides.move (h : r.Abides s) {m : Move} (admitted : r.Admits m) (hfarewell : (s.move m).reader = .ended → r.rest s.farewell) :
    r.Abides (s.move m) := by
  cases s.handles_move m with
  | works step focus after =>
    obtain ⟨hp, houter⟩ := h.works focus
    exact after ▸ h.runStep hp houter
  | @lets tag gone => exact gone ▸ h.abandon tag
  | tends htends => exact h.tends (admitted.starts hfarewell) htends

/-- What is kept is as the rule has it in any case. -/
theorem Abides.code_move (h : r.Abides s) (m : Move) : r.Code (s.move m) := by
  cases s.handles_move m with
  | works step focus after =>
    obtain ⟨hp, houter⟩ := h.works focus
    exact after ▸ (h.runStep hp houter).code
  | @lets tag gone => exact gone ▸ (h.abandon tag).code
  | tends htends => exact h.code.congr htends.code

/-! ## Runs -/

/-- A program that comes to something without waiting has kept to the rule, and so has all that it has kept. -/
theorem Code.comes {p q : Program} (h : r.Code s) (hp : r.now p) (comes : Comes s p s' q) : r.Code s' ∧ r.now q := by
  induction comes with
  | here s p => exact ⟨h, hp⟩
  | record _ ih => exact ih (h.congr rfl) (r.record hp)
  | report _ ih => exact ih (h.congr rfl) (r.report hp)
  | access _ ih => exact ih (h.congr rfl) (r.access hp _)
  | ensure _ ih => exact ih (h.congr rfl) (r.ensure hp).2
  | keep _ ih => exact ih (h.push (r.keep hp).1 rfl) ((r.keep hp).2 _)
  | @run s t s' code input next exit q _ _ ihcalled ih =>
    obtain ⟨hcalled, -⟩ := ihcalled h (r.now_of_rest (h code input))
    exact ih hcalled (r.now_of_rest (r.run hp exit))
  | notify _ ih =>
    refine ih (h.congr ?_) (r.notify hp)
    rw [sending_eq]
    rfl

end Rule

/-! ## Changes of the workspace -/

/-- The change of the workspace with which a program starts. -/
def Program.change? : Program → Option (Workspace → Workspace)
  | access change _ => some change
  | ensure change _ => some change
  | _ => none

/-- What a program makes of the workspace in one step. -/
theorem workspace_runStep (s : Session) (id : TaskId) (role : Role) (outer : List (Exit → Program)) (p : Program) :
    (s.runStep id role outer p).workspace = p.change?.elim s.workspace fun change => change s.workspace := by
  cases p with
  | finish e => exact (leave_frame ..).1
  | panic text => exact (leave_frame ..).1
  | notify method args next =>
    rw [runStep, sending_eq]
    rfl
  | invoke method args release next =>
    rw [runStep]
    split
    · rfl
    · rfl
    · rw [sending_eq]
      rfl
  | await gate next =>
    rw [runStep]
    split <;> rfl
  | _ => rfl

/-- **Who changes the workspace**: the program that works, or a caller that goes away, by what it leaves behind. -/
theorem workspace_move (s : Session) (m : Move) :
    (s.move m).workspace = s.workspace ∨
    (∃ id role p change outer, m = .step ∧ s.focus = .running id role p outer ∧ p.change? = some change ∧
      (s.move m).workspace = change s.workspace) ∨
    ∃ t ∈ s.tasks, (s.move m).workspace = releaseOf t.wait s.workspace := by
  cases s.handles_move m with
  | @works id role p outer step focus after =>
    rw [after, workspace_runStep]
    cases hstarts : p.change? with
    | none => exact Or.inl rfl
    | some change => exact Or.inr (Or.inl ⟨id, role, p, change, outer, step, focus, hstarts, rfl⟩)
  | @lets tag gone =>
    rw [gone, move, abandon]
    cases hfind : s.tasks.find? (hasTag tag) with
    | none => exact Or.inl rfl
    | some t => exact Or.inr (Or.inr ⟨t, List.mem_of_find?_eq_some hfind, rfl⟩)
  | tends h => exact Or.inl h.workspace

/-! ## Confined programs -/

/-- A change of the workspace leaves something about it alone. -/
def Leaves {α : Type} (f : Workspace → α) (change : Workspace → Workspace) : Prop :=
  ∀ w, f (change w) = f w

/-- What code may do to the workspace, and of what it may notify the host. -/
structure Limits where
  changes : (Workspace → Workspace) → Prop
  methods : String → Prop

/-- A program stays within limits, and so does all that it keeps. -/
inductive Program.Confined (limits : Limits) : Program → Prop
  | finish (e : Ending) : Confined limits (.finish e)
  | panic (text : String) : Confined limits (.panic text)
  | record {entry : Value} {next : Program} (h : Confined limits next) : Confined limits (.record entry next)
  | report {notice : Notice} {next : Program} (h : Confined limits next) : Confined limits (.report notice next)
  | access {change : Workspace → Workspace} {next : Workspace → Program} (allowed : limits.changes change)
      (h : ∀ w, Confined limits (next w)) : Confined limits (.access change next)
  | ensure {change : Workspace → Workspace} {next : Program} (allowed : limits.changes change) (h : Confined limits next) :
      Confined limits (.ensure change next)
  | keep {code : Input → Program} {next : CodeId → Program} (hcode : ∀ input, Confined limits (code input))
      (h : ∀ id, Confined limits (next id)) : Confined limits (.keep code next)
  | run {code : CodeId} {input : Input} {next : Exit → Program} (h : ∀ exit, Confined limits (next exit)) :
      Confined limits (.run code input next)
  | notify {method : String} {args : List Value} {next : Program} (allowed : limits.methods method) (h : Confined limits next) :
      Confined limits (.notify method args next)
  | invoke {method : String} {args : List Value} {release : Workspace → Workspace} {next : CallResult → Program}
      (allowed : limits.changes release) (h : ∀ result, Confined limits (next result)) :
      Confined limits (.invoke method args release next)
  | await {gate : String} {next : Program} (h : Confined limits next) : Confined limits (.await gate next)

/-- Limits within which the host can be answered. -/
structure Limits.Lenient (limits : Limits) : Prop where
  look : limits.changes id
  newEvent : ∀ fields, limits.changes (Workspace.addEvent fields)

namespace Program

variable {limits : Limits}

theorem confined_call {code : CodeId} {input : Input} {k : Ending → Program} (h : ∀ e, (k e).Confined limits) :
    (call code input k).Confined limits := by
  refine .run fun exit => ?_
  cases exit with
  | ended e => exact h e
  | panicked text => exact .panic text

theorem confined_look {next : Workspace → Program} (lenient : limits.Lenient) (h : ∀ w, (next w).Confined limits) :
    (look next).Confined limits :=
  .access lenient.look h

theorem confined_newEvent {fields : Fields} {k : EventId → Program} (lenient : limits.Lenient)
    (h : ∀ event, (k event).Confined limits) : (newEvent fields k).Confined limits :=
  .access (lenient.newEvent _) fun w => h w.nextEvent

theorem confined_any {type : String} {event : EventId} {k : Bool → Program} (lenient : limits.Lenient)
    (h : ∀ isMatch, (k isMatch).Confined limits) : (any type event k).Confined limits := by
  refine confined_look lenient fun w => ?_
  induction w.listeners.of type with
  | nil => exact h false
  | cons code rest ih =>
    refine confined_call fun e => ?_
    split
    · exact h true
    · exact ih

theorem confined_emit {type : String} {event : EventId} {next : Program} (lenient : limits.Lenient) (h : next.Confined limits) :
    (emit type event next).Confined limits := by
  refine confined_look lenient fun w => ?_
  induction w.listeners.of type with
  | nil => exact h
  | cons code rest ih => exact confined_call fun _ => ih

end Program

namespace Handling

open Program Host

variable {limits : Limits}

theorem confined_react (lenient : limits.Lenient) (n : Notification) : (react n).Confined limits := by
  cases n with
  | runCommand name args =>
    refine confined_look lenient fun w => ?_
    cases w.commands.get? name with
    | none => exact .report (.finish _)
    | some code =>
      refine confined_call fun e => ?_
      cases e with
      | value v => exact .finish _
      | failed reasons => exact .report (.finish _)
  | commandEvent name args =>
    rw [react]
    exact confined_newEvent lenient fun event => confined_emit lenient (.finish _)
  | focusChanged view =>
    rw [react]
    exact confined_newEvent lenient fun event => confined_emit lenient (.finish _)
  | textChanged dialog text =>
    refine confined_look lenient fun w => ?_
    cases w.dialogs.callback? dialog with
    | none => exact .report (.finish _)
    | some code => exact confined_call fun _ => .finish _

theorem confined_notification (lenient : limits.Lenient) (method : String) (args : List Value) :
    (notification method args).Confined limits := by
  unfold notification
  split
  · exact confined_react lenient _
  · exact .report (.finish _)
  · exact .report (.finish _)

theorem confined_respond (lenient : limits.Lenient) (r : Request) : (respond r).Confined limits := by
  cases r with
  | askContext name operator value =>
    refine confined_look lenient fun w => ?_
    cases w.contexts.get? name with
    | none => exact .finish _
    | some code => exact confined_call fun e => .finish _
  | eventFilter type fields =>
    rw [respond]
    exact confined_newEvent lenient fun event => confined_any lenient fun _ => .finish _
  | keyEventFilter key =>
    rw [respond]
    exact confined_newEvent lenient fun event => confined_any lenient fun _ => .finish _
  | cmdEventFilter name args =>
    rw [respond]
    exact confined_newEvent lenient fun event => confined_any lenient fun _ => confined_look lenient fun w => .finish _

theorem confined_request (lenient : limits.Lenient) (method : String) (args : List Value) :
    (request method args).Confined limits := by
  unfold request
  split
  · exact confined_respond lenient _
  · exact .report (.finish _)
  · exact .report (.finish _)

end Handling

/-- Staying within limits is a rule. -/
def Limits.rule (limits : Limits) (lenient : limits.Lenient) : Rule where
  rest := Program.Confined limits
  now := Program.Confined limits
  releases := limits.changes
  now_of_rest := id
  nothing := .finish _
  notification := Handling.confined_notification lenient
  request := Handling.confined_request lenient
  record | .record h => h
  report | .report h => h
  access | .access _ h => h
  ensure | .ensure allowed h => ⟨allowed, h⟩
  keep | .keep hcode h => ⟨hcode, h⟩
  run | .run h => h
  notify | .notify _ h => h
  invoke | .invoke allowed h => ⟨allowed, h⟩
  await | .await h => h

namespace Limits

variable {α : Type} {f : Workspace → α} {limits : Limits} {lenient : limits.Lenient} {s s' : Session}

/-- What no change within the limits touches stays the same in every move. -/
theorem leaves_move (leaves : ∀ change, limits.changes change → Leaves f change) (h : (limits.rule lenient).Abides s) (m : Move) :
    f (s.move m).workspace = f s.workspace := by
  rcases workspace_move s m with hsame | ⟨id, role, p, change, outer, -, hfocus, hstarts, hchange⟩ | ⟨t, ht, hrelease⟩
  · rw [hsame]
  · rw [hchange]
    obtain ⟨hprogram, -⟩ := h.works hfocus
    refine leaves change ?_ s.workspace
    cases hprogram with
    | access allowed _ => exact Option.some.inj hstarts ▸ allowed
    | ensure allowed _ => exact Option.some.inj hstarts ▸ allowed
    | _ => cases hstarts
  · rw [hrelease]
    rcases Rule.Waits.releaseOf (h.tasks t ht).1 with hnothing | hallowed
    · rw [hnothing]
      rfl
    · exact leaves _ hallowed s.workspace

/-- What no change within the limits touches stays the same in every run. -/
theorem leaves_comes (leaves : ∀ change, limits.changes change → Leaves f change) {p q : Program} (hcode : (limits.rule lenient).Code s)
    (hp : p.Confined limits) (comes : Comes s p s' q) : f s'.workspace = f s.workspace := by
  induction comes with
  | here s p => rfl
  | record _ ih =>
    cases hp with
    | record hnext => exact ih (hcode.congr rfl) hnext
  | report _ ih =>
    cases hp with
    | report hnext => exact ih (hcode.congr rfl) hnext
  | @access s s' change next p _ ih =>
    cases hp with
    | access allowed hnext => exact (ih (hcode.congr rfl) (hnext _)).trans (leaves change allowed s.workspace)
  | @ensure s s' change next p _ ih =>
    cases hp with
    | ensure allowed hnext => exact (ih (hcode.congr rfl) hnext).trans (leaves change allowed s.workspace)
  | keep _ ih =>
    cases hp with
    | keep hkept hnext => exact ih (hcode.push hkept rfl) (hnext _)
  | @run s t s' code input next exit q called _ ihcalled ih =>
    cases hp with
    | run hnext =>
      have hbody : (s.codeOf code input).Confined limits := hcode code input
      exact (ih (hcode.comes hbody called).1 (hnext exit)).trans (ihcalled hcode hbody)
  | @notify s s' method args next p _ ih =>
    cases hp with
    | notify _ hnext =>
      have hsame := sending_eq (s.report (.notifying method)) (s.link.notify method args)
      refine (ih (hcode.congr ?_) hnext).trans ?_
      · rw [hsame]
        rfl
      · rw [hsame]
        rfl

end Limits
end EditorLink.Extension
