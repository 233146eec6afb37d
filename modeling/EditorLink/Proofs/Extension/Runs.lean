import EditorLink.Proofs.Session.Course
import Mathlib.Logic.Relation

/-!
# EditorLink.Proofs.Extension.Runs -- what a program comes to without waiting

Between two steps that wait, a program has the session for itself: nobody else takes a turn before it gives way. So what it does there is a
relation between the session and the program before and after (`Comes`), in which code that it calls is one part of its own run. What a
program comes to in this sense it comes to by steps of the session (`Comes.steps`), whatever task it runs in and whatever has called it.
-/

namespace EditorLink.Session

open Extension

/-! ## Runs of a program -/

/-- A program in a session comes to another one, without waiting. -/
inductive Comes : Session → Program → Session → Program → Prop
  | here (s : Session) (p : Program) : Comes s p s p
  | record {s s' : Session} {entry : Value} {next p : Program} (goes : Comes (s.record entry) next s' p) :
      Comes s (.record entry next) s' p
  | report {s s' : Session} {notice : Notice} {next p : Program} (goes : Comes (s.report notice) next s' p) :
      Comes s (.report notice next) s' p
  | access {s s' : Session} {change : Workspace → Workspace} {next : Workspace → Program} {p : Program}
      (goes : Comes { s with workspace := change s.workspace } (next s.workspace) s' p) :
      Comes s (.access change next) s' p
  | ensure {s s' : Session} {change : Workspace → Workspace} {next p : Program}
      (goes : Comes { s with workspace := change s.workspace } next s' p) : Comes s (.ensure change next) s' p
  | keep {s s' : Session} {code : Input → Program} {next : Registry.CodeId → Program} {p : Program}
      (goes : Comes { s with code := s.code.push code } (next s.code.size) s' p) : Comes s (.keep code next) s' p
  /-- Code is called and ends, and its caller goes on. -/
  | run {s t s' : Session} {code : Registry.CodeId} {input : Input} {next : Exit → Program} {exit : Exit} {p : Program}
      (called : Comes s (s.codeOf code input) t exit.program) (goes : Comes t (next exit) s' p) :
      Comes s (.run code input next) s' p
  | notify {s s' : Session} {method : String} {args : List Value} {next p : Program}
      (goes : Comes ((s.report (.notifying method)).sending (s.link.notify method args)) next s' p) :
      Comes s (.notify method args next) s' p

theorem Comes.trans {s t u : Session} {p q r : Program} (h : Comes s p t q) (hq : Comes t q u r) : Comes s p u r := by
  induction h with
  | here s p => exact hq
  | record _ ih => exact .record (ih hq)
  | report _ ih => exact .report (ih hq)
  | access _ ih => exact .access (ih hq)
  | ensure _ ih => exact .ensure (ih hq)
  | keep _ ih => exact .keep (ih hq)
  | run called _ _ ih => exact .run called (ih hq)
  | notify _ ih => exact .notify (ih hq)

/-- A program does the same with something that goes on after its end. -/
theorem Comes.andThen {s s' : Session} {p q : Program} (h : Comes s p s' q) (k : Exit → Program) :
    Comes s (p.andThen k) s' (q.andThen k) := by
  induction h with
  | here s p => exact .here s _
  | record _ ih => exact .record ih
  | report _ ih => exact .report ih
  | access _ ih => exact .access ih
  | ensure _ ih => exact .ensure ih
  | keep _ ih => exact .keep ih
  | run called _ _ ih => exact .run called ih
  | notify _ ih => exact .notify ih

/-- What goes on after the end of a program goes on where that has ended. -/
theorem Comes.ended {s s' : Session} {p : Program} {exit : Exit} (h : Comes s p s' exit.program) (k : Exit → Program) :
    Comes s (p.andThen k) s' (k exit) := by
  have hend : exit.program.andThen k = k exit := by cases exit <;> rfl
  exact hend ▸ h.andThen k

/-! ## Steps -/

/-- A session with a task in whose turn a program runs. -/
def during (s : Session) (t : TaskId) (role : Role) (p : Program) (outer : List (Exit → Program)) : Session :=
  { s with focus := .running t role p outer }

/-- Some steps lead from one session to the other. -/
abbrev Leads : Session → Session → Prop :=
  Relation.ReflTransGen fun s s' => s.step = some s'

/-- **A run is made of steps.** They lead from the program to what it comes to, in the same task and with the same callers. -/
theorem Comes.steps {s s' : Session} {p q : Program} (h : Comes s p s' q) (t : TaskId) (role : Role)
    (outer : List (Exit → Program)) : Leads (s.during t role p outer) (s'.during t role q outer) := by
  induction h generalizing outer with
  | here s p => exact .refl
  | record _ ih => exact .head rfl (ih outer)
  | report _ ih => exact .head rfl (ih outer)
  | access _ ih => exact .head rfl (ih outer)
  | ensure _ ih => exact .head rfl (ih outer)
  | keep _ ih => exact .head rfl (ih outer)
  | @run s u s' code input next exit p called _ ihcalled ih =>
    have hback : (u.during t role exit.program (next :: outer)).step = some (u.during t role (next exit) outer) := by
      cases exit <;> rfl
    exact .head rfl ((ihcalled (next :: outer)).trans (.head hback (ih outer)))
  | @notify s s' method args next p _ ih =>
    refine .head (congrArg some ?_) (ih outer)
    show sending _ _ = _
    rw [sending_eq, sending_eq]
    rfl

/-! ## What a run leaves alone -/

/-- A run puts messages on the queue and takes none away. -/
theorem Comes.outbound {s s' : Session} {p q : Program} (h : Comes s p s' q) : s.link.outbound <+: s'.link.outbound := by
  induction h with
  | here s p => exact List.prefix_rfl
  | record _ ih => exact ih
  | report _ ih => exact ih
  | access _ ih => exact ih
  | ensure _ ih => exact ih
  | keep _ ih => exact ih
  | run _ _ ihcalled ih => exact ihcalled.trans ih
  | @notify s s' method args next p _ ih =>
    refine List.IsPrefix.trans ?_ ih
    rw [sending_eq]
    exact List.prefix_append _ _

/-- A run has nothing to do with tasks, with whose turn it is, and with the reader. -/
theorem Comes.frame {s s' : Session} {p q : Program} (h : Comes s p s' q) :
    s'.tasks = s.tasks ∧ s'.focus = s.focus ∧ s'.reader = s.reader ∧ s'.farewell = s.farewell := by
  induction h with
  | here s p => exact ⟨rfl, rfl, rfl, rfl⟩
  | record _ ih => exact ih
  | report _ ih => exact ih
  | access _ ih => exact ih
  | ensure _ ih => exact ih
  | keep _ ih => exact ih
  | run _ _ ihcalled ih =>
    obtain ⟨htasks, hfocus, hreader, hfarewell⟩ := ihcalled
    exact ⟨ih.1.trans htasks, ih.2.1.trans hfocus, ih.2.2.1.trans hreader, ih.2.2.2.trans hfarewell⟩
  | @notify s s' method args next p _ ih =>
    rw [sending_eq] at ih
    exact ih

end EditorLink.Session
