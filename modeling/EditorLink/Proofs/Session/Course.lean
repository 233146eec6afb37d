import EditorLink.Proofs.Session.Chronicle

/-!
# EditorLink.Proofs.Session.Course -- all that a move can do

`Change` lists what can happen to the unfinished tasks and to the link at once, together with the deeds that tell of it. A `Course` is
some changes one after the other, and every move is a course. So what every change keeps is true of every chronicle.
-/

namespace EditorLink.Extension

/-- The program that does nothing but end. -/
def Exit.program : Exit → Program
  | .ended e => .finish e
  | .panicked text => .panic text

end EditorLink.Extension

namespace EditorLink.Session

open Extension

/-! ## The task that runs -/

/-- One step of the task that runs, unless it ends the task. -/
inductive Advance (t : Task) : Task → List Deed → Prop
  | record {entry : Value} {next : Program} (h : t.wait = .turn (.record entry next)) :
      Advance t { t with wait := .turn next } []
  | report {n : Notice} {next : Program} (h : t.wait = .turn (.report n next)) :
      Advance t { t with wait := .turn next } []
  | access {change : Workspace → Workspace} {next : Workspace → Program} (w : Workspace)
      (h : t.wait = .turn (.access change next)) :
      Advance t { t with wait := .turn (next w) } (if t.outer.isEmpty then [.saw t.id w] else [])
  | ensure {change : Workspace → Workspace} {next : Program} (h : t.wait = .turn (.ensure change next)) :
      Advance t { t with wait := .turn next } []
  | keep {code : Input → Program} {next : Registry.CodeId → Program} (id : Registry.CodeId)
      (h : t.wait = .turn (.keep code next)) : Advance t { t with wait := .turn (next id) } []
  | call {code : Registry.CodeId} {input : Input} {next : Exit → Program} (body : Program)
      (h : t.wait = .turn (.run code input next)) :
      Advance t { t with wait := .turn body, outer := next :: t.outer } []
  | notify {method : String} {args : List Value} {next : Program} (h : t.wait = .turn (.notify method args next)) :
      Advance t { t with wait := .turn next } []
  | refused {method : String} {args : List Value} {release : Workspace → Workspace} {next : CallResult → Program}
      (reason : TransportError) (h : t.wait = .turn (.invoke method args release next)) :
      Advance t { t with wait := .turn (next (.error (.transport reason))) } []
  | invoke {method : String} {args : List Value} {release : Workspace → Workspace} {next : CallResult → Program}
      (call : UInt32) (h : t.wait = .turn (.invoke method args release next)) :
      Advance t { t with wait := .reply call release next } []
  | pass {gate : String} {next : Program} (h : t.wait = .turn (.await gate next)) :
      Advance t { t with wait := .turn next } []
  | await {gate : String} {next : Program} (h : t.wait = .turn (.await gate next)) :
      Advance t { t with wait := .gate gate next } []
  | back {exit : Exit} {next : Exit → Program} {outer : List (Exit → Program)} (h : t.wait = .turn exit.program)
      (called : t.outer = next :: outer) :
      Advance t { t with wait := .turn (next exit), outer } (if outer.isEmpty then [.returned t.id exit] else [])

theorem Advance.id_eq {t u : Task} {deeds : List Deed} (h : Advance t u deeds) : u.id = t.id := by
  cases h <;> rfl

theorem Advance.role_eq {t u : Task} {deeds : List Deed} (h : Advance t u deeds) : u.role = t.role := by
  cases h <;> rfl

theorem Advance.acts_eq {t u : Task} {deeds : List Deed} (h : Advance t u deeds) : acts deeds = [] := by
  cases h with
  | access w _ => split <;> rfl
  | back _ _ => split <;> rfl
  | _ => rfl

/-! ## Changes -/

/-- The handler that a message of the host gets. -/
def Role.handler? : Role → Option (List Value → Program)
  | .notification method => some (Handling.notification method)
  | .request _ method => some (Handling.request method)
  | _ => none

inductive Change (s s' : Session) : List Deed → Prop
  /-- Something happens on the link, or nothing at all; tasks may fall due. -/
  | linked {as : List (Exchange.Act TaskId)} (follows : Follows s s' as) (tasks : Eased s.live s'.live)
      (next : s'.nextTask = s.nextTask) : Change s s' (as.map .link)
  | refused (role : Role) (args : List Value) (follows : Follows s s' []) (tasks : s'.live = s.live)
      (next : s'.nextTask = s.nextTask) : Change s s' [.refused role args]
  | accepted {role : Role} {handler : List Value → Program} (args : List Value)
      (handles : role.handler? = some handler) (follows : Follows s s' [])
      (tasks : s'.live.Perm (⟨s.nextTask, role, .turn (handler args), []⟩ :: s.live))
      (next : s'.nextTask = s.nextTask + 1) : Change s s' [.accepted s.nextTask role args]
  /-- A task begins that is no handler. -/
  | born {role : Role} {p : Program} (plain : role.handler? = none) (follows : Follows s s' [])
      (tasks : s'.live.Perm (⟨s.nextTask, role, .turn p, []⟩ :: s.live))
      (next : s'.nextTask = s.nextTask + 1) : Change s s' []
  | advanced {others : List Task} {t u : Task} {deeds : List Deed} (advance : Advance t u deeds)
      (follows : Follows s s' []) (old : s.live = others ++ [t]) (new : s'.live = others ++ [u])
      (next : s'.nextTask = s.nextTask) : Change s s' deeds
  | finished {t : Task} {exit : Exit} (ends : t.wait = .turn exit.program) (own : t.outer = [])
      (follows : Follows s s' []) (old : s.live = s'.live ++ [t])
      (next : s'.nextTask = s.nextTask) : Change s s' [.finished t.id t.role exit]
  /-- A task goes away that is no handler. -/
  | dropped {t : Task} (plain : t.role.handler? = none) (follows : Follows s s' [])
      (fewer : (s.live.map (·.id)).Nodup → s.live.Perm (t :: s'.live))
      (next : s'.nextTask = s.nextTask) : Change s s' []

theorem Change.follows {s s' : Session} {deeds : List Deed} (h : Change s s' deeds) : Follows s s' (acts deeds) := by
  cases h with
  | linked follows _ _ => rwa [acts_map_link]
  | advanced advance follows _ _ _ => rwa [advance.acts_eq]
  | refused _ _ follows _ _ => exact follows
  | accepted _ _ follows _ _ => exact follows
  | born _ follows _ _ => exact follows
  | finished _ _ follows _ _ => exact follows
  | dropped _ follows _ _ => exact follows

/-- Some changes, one after the other. -/
inductive Course : Session → Session → List Deed → Prop
  | nil (s : Session) : Course s s []
  | cons {s t u : Session} {deeds more : List Deed} (change : Change s t deeds) (course : Course t u more) :
      Course s u (deeds ++ more)

theorem Change.course {s s' : Session} {deeds : List Deed} (h : Change s s' deeds) : Course s s' deeds := by
  have hcourse := Course.cons h (.nil s')
  rwa [List.append_nil] at hcourse

theorem Course.trans {s t u : Session} {deeds more : List Deed} (hst : Course s t deeds) (htu : Course t u more) :
    Course s u (deeds ++ more) := by
  induction hst with
  | nil => exact htu
  | cons change _ ih =>
    rw [List.append_assoc]
    exact .cons change (ih htu)

/-- What each change keeps, a course keeps. -/
theorem Course.induct {P : Session → List Deed → Prop} {s s' : Session} {deeds log : List Deed}
    (course : Course s s' deeds) (hs : P s log)
    (hchange : ∀ {s t : Session} {deeds log : List Deed}, Change s t deeds → P s log → P t (log ++ deeds)) :
    P s' (log ++ deeds) := by
  induction course generalizing log with
  | nil => rwa [List.append_nil]
  | cons change _ ih =>
    rw [← List.append_assoc]
    exact ih (hchange change hs)

/-- Nothing that counts here has happened. -/
theorem course_nothing {s s' : Session} (hlink : s'.link = s.link) (hlive : Eased s.live s'.live)
    (hreader : s'.reader = .ended ↔ s.reader = .ended)
    (hreading : s'.focus = .reading → s.focus = .reading ∨ s.reader ≠ .ended)
    (hnext : s'.nextTask = s.nextTask) : Course s s' [] :=
  (Change.linked (follows_nil hlink hreader hreading) hlive hnext).course

/-- Neither the link nor the reader nor a task is touched. -/
theorem course_beside {s s' : Session} (hlink : s'.link = s.link) (htasks : s'.tasks = s.tasks)
    (hfocus : s'.focus = s.focus) (hreader : s'.reader = s.reader) (hnext : s'.nextTask = s.nextTask) :
    Course s s' [] := by
  refine course_nothing hlink ?_ (by rw [hreader]) (by rw [hfocus]; exact Or.inl) hnext
  rw [live, live, htasks, hfocus]
  exact .refl _

/-- One act on the link; tasks may fall due. -/
theorem course_link {s s' : Session} {a : Exchange.Act TaskId}
    (hact : ∀ x : Exchange TaskId, Mirrors s x →
      (x.act a).link = s'.link ∧ (x.act a).hand = none ∧ (x.act a).runEnd = x.runEnd)
    (hlive : Eased s.live s'.live) (hreader : s'.reader = s.reader)
    (hreading : s'.focus = .reading → s.focus = .reading) (hnext : s'.nextTask = s.nextTask) :
    Course s s' [.link a] := by
  have hlinked : Change s s' ([a].map .link) := .linked (follows_act hact hreader hreading) hlive hnext
  exact hlinked.course

end EditorLink.Session
