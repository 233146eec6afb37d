import EditorLink.Proofs.Session.Tasks

/-!
# EditorLink.Proofs.Session.Handlers -- how the handlers of requests end

A handler does little itself: it looks at the workspace, reports, and calls registered code, whose panics it passes on. What the code
does that it calls is anybody's guess, and may take any time. So the handler of a request is always at one of three **stages**: it does
its own work, it waits inside code that it has called, or it is about to panic because that code did.
-/

namespace EditorLink.Extension

open Host Registry

/-! ## Contracts -/

/-- Terms for a program: whether it may call code, what it may see of the workspace, and what it may end with. -/
structure Contract where
  calls : Prop
  sees : Workspace → Prop
  ends : Ending → Prop

/-- The program keeps to the terms, whatever the code does that it calls. -/
inductive Answers (c : Contract) : Program → Prop
  | finish {e : Ending} (h : c.ends e) : Answers c (.finish e)
  | report (n : Notice) {next : Program} (h : Answers c next) : Answers c (.report n next)
  | access (change : Workspace → Workspace) {next : Workspace → Program} (h : ∀ w, c.sees w → Answers c (next w)) :
      Answers c (.access change next)
  | call (code : CodeId) (input : Input) {k : Ending → Program} (calls : c.calls) (h : ∀ e, Answers c (k e)) :
      Answers c (.run code input (Program.unlessPanicked k))

namespace Handling

/-- Nothing is registered under the name that the request asks for. -/
def Unserved : Request → Workspace → Prop
  | .askContext name _ _, w => w.contexts.get? name = none
  | .eventFilter type _, w => w.listeners.of type = []
  | .keyEventFilter key, w => w.listeners.of key.type = []
  | .cmdEventFilter _ _, w => w.listeners.of Listeners.runCommandType = []

/-- The answer says no. A command filter also says what the command is, which is not part of the answer. -/
def Negative : Request → Value → Prop
  | .cmdEventFilter _ _, v => ∃ name args, v = .array [.bool false, name, args]
  | _, v => v = .bool false

variable {c : Contract}

theorem answers_firstMatch {event : EventId} {k : Bool → Program} {codes : List CodeId} (hmiss : Answers c (k false))
    (hserved : codes ≠ [] → c.calls ∧ Answers c (k true)) : Answers c (Program.firstMatch event k codes) := by
  induction codes with
  | nil => exact hmiss
  | cons code rest ih =>
    obtain ⟨hcalls, hmatch⟩ := hserved (List.cons_ne_nil code rest)
    refine .call _ _ hcalls fun e => ?_
    split
    · exact hmatch
    · exact ih fun _ => ⟨hcalls, hmatch⟩

theorem answers_any {type : String} {event : EventId} {k : Bool → Program} (hmiss : Answers c (k false))
    (hserved : ∀ w, c.sees w → w.listeners.of type ≠ [] → c.calls ∧ Answers c (k true)) :
    Answers c (Program.any type event k) :=
  .access _ fun w hw => answers_firstMatch hmiss (hserved w hw)

/-- A request is answered in the negative if nothing is registered for it, and with a result in any case. -/
theorem answers_respond (r : Request) (hmiss : ∀ v, Negative r v → c.ends (.value v))
    (hserved : ∀ w, c.sees w → ¬ Unserved r w → c.calls ∧ ∀ v, c.ends (.value v)) : Answers c (respond r) := by
  cases r with
  | askContext name operator value =>
    refine .access _ fun w hw => ?_
    cases hfind : w.contexts.get? name with
    | none => exact .finish (hmiss _ rfl)
    | some code =>
      obtain ⟨hcalls, hends⟩ := hserved w hw (by simp [Unserved, hfind])
      exact .call _ _ hcalls fun e => .finish (hends _)
  | eventFilter type fields =>
    refine .access _ fun w _ => answers_any (.finish (hmiss _ rfl)) fun w hw hsome => ?_
    obtain ⟨hcalls, hends⟩ := hserved w hw hsome
    exact ⟨hcalls, .finish (hends _)⟩
  | keyEventFilter key =>
    refine .access _ fun w _ => answers_any (.finish (hmiss _ rfl)) fun w hw hsome => ?_
    obtain ⟨hcalls, hends⟩ := hserved w hw hsome
    exact ⟨hcalls, .finish (hends _)⟩
  | cmdEventFilter name args =>
    refine .access _ fun w _ => answers_any (.access _ fun w _ => ?_) fun w hw hsome => ?_
    · exact .finish (hmiss _ ⟨_, _, rfl⟩)
    · obtain ⟨hcalls, hends⟩ := hserved w hw hsome
      exact ⟨hcalls, .access _ fun w _ => .finish (hends _)⟩

/-- It ends with a failure and calls nothing. -/
def failing : Contract where
  calls := False
  sees := fun _ => True
  ends := fun e => ∃ reasons, e = .failed reasons

/-- It ends with a result. -/
def giving : Contract where
  calls := True
  sees := fun _ => True
  ends := fun e => ∃ v, e = .value v

/-- It ends with a negative answer and calls nothing, as nothing is registered. -/
def declining (r : Request) : Contract where
  calls := False
  sees := Unserved r
  ends := fun e => ∃ v, e = .value v ∧ Negative r v

theorem answers_failing {method : String} {args : List Value} (h : ∀ r, Request.read method args ≠ .ok (some r)) :
    Answers failing (request method args) := by
  unfold request
  split
  · rename_i r hread
    exact absurd hread (h r)
  · exact .report _ (.finish ⟨_, rfl⟩)
  · exact .report _ (.finish ⟨_, rfl⟩)

theorem answers_giving {method : String} {args : List Value} {r : Request} (h : Request.read method args = .ok (some r)) :
    Answers giving (request method args) := by
  rw [request, h]
  exact answers_respond r (fun v _ => ⟨v, rfl⟩) fun _ _ _ => ⟨trivial, fun v => ⟨v, rfl⟩⟩

theorem answers_declining {method : String} {args : List Value} {r : Request}
    (h : Request.read method args = .ok (some r)) : Answers (declining r) (request method args) := by
  rw [request, h]
  exact answers_respond r (fun v hv => ⟨v, rfl, hv⟩) fun _ hw hserved => absurd hw hserved

end Handling
end EditorLink.Extension

namespace EditorLink.Session

open Extension Program

/-! ## Stages -/

/-- Code that the handler itself had called came back with a panic. -/
def Panicked (log : List Deed) (t : TaskId) : Prop :=
  ∃ text, Deed.returned t (.panicked text) ∈ log

/-- What the handler saw of the workspace is what it may see. -/
def Saw (c : Contract) (log : List Deed) (t : TaskId) : Prop :=
  ∀ w, Deed.saw t w ∈ log → c.sees w

inductive Stage (c : Contract) (log : List Deed) (t : Task) : Prop
  | own {p : Program} (wait : t.wait = .turn p) (outer : t.outer = []) (answers : Answers c p)
      (calm : ¬ Panicked log t.id)
  | failing {text : String} (wait : t.wait = .turn (.panic text)) (outer : t.outer = []) (calls : c.calls)
      (panicked : Panicked log t.id)
  | inside {inner : List (Exit → Program)} {k : Ending → Program} (outer : t.outer = inner ++ [unlessPanicked k])
      (calls : c.calls) (answers : ∀ e, Answers c (k e)) (calm : ¬ Panicked log t.id)

/-- How a handler may have ended. -/
def Settled (c : Contract) (log : List Deed) (t : TaskId) (exit : Exit) : Prop :=
  (∃ e, exit = .ended e ∧ c.ends e ∧ ¬ Panicked log t) ∨ ∃ text, exit = .panicked text ∧ c.calls ∧ Panicked log t

variable {c : Contract} {log deeds : List Deed}

/-- Deeds that bring nothing back to a task are no panic of what it called. -/
theorem panicked_append {t : TaskId} (h : ∀ exit, Deed.returned t exit ∉ deeds) :
    Panicked (log ++ deeds) t ↔ Panicked log t := by
  constructor
  · rintro ⟨text, hmem⟩
    exact ⟨text, (List.mem_append.mp hmem).resolve_right (h _)⟩
  · rintro ⟨text, hmem⟩
    exact ⟨text, List.mem_append_left _ hmem⟩

theorem not_returned_of_task? {t : TaskId} (h : ∀ d ∈ deeds, d.task? ≠ some t) (exit : Exit) :
    Deed.returned t exit ∉ deeds :=
  fun hmem => h _ hmem rfl

theorem Stage.append {t : Task} (h : Stage c log t) (hreturned : ∀ exit, Deed.returned t.id exit ∉ deeds) :
    Stage c (log ++ deeds) t := by
  have hiff : Panicked (log ++ deeds) t.id ↔ Panicked log t.id := panicked_append hreturned
  cases h with
  | own wait outer answers calm => exact .own wait outer answers (hiff.not.mpr calm)
  | failing wait outer calls panicked => exact .failing wait outer calls (hiff.mpr panicked)
  | inside outer calls answers calm => exact .inside outer calls answers (hiff.not.mpr calm)

theorem Settled.append {t : TaskId} {exit : Exit} (h : Settled c log t exit)
    (hreturned : ∀ exit, Deed.returned t exit ∉ deeds) : Settled c (log ++ deeds) t exit := by
  unfold Settled
  rwa [panicked_append hreturned]

/-- Only inside code that it has called does a handler wait. -/
theorem Stage.eases {t u : Task} (h : Stage c log t) (htu : t.Eases u) : Stage c log u := by
  cases htu with
  | same => exact h
  | woken p waits =>
    cases h with
    | own wait _ _ _ => exact absurd wait (waits _)
    | failing wait _ _ _ => exact absurd wait (waits _)
    | inside outer calls answers calm => exact .inside outer calls answers calm

/-- A step of the code that a handler has called is no step of the handler, until that code comes back. -/
theorem Stage.advance_inside {t u : Task} {inner : List (Exit → Program)} {k : Ending → Program}
    (outer : t.outer = inner ++ [unlessPanicked k]) (calls : c.calls) (answers : ∀ e, Answers c (k e))
    (calm : ¬ Panicked log t.id) (advance : Advance t u deeds) : Stage c (log ++ deeds) u := by
  have hnone : deeds = [] → ¬ Panicked (log ++ deeds) t.id := by
    rintro rfl
    rwa [List.append_nil]
  cases advance with
  | access w _ => exact .inside outer calls answers (hnone (if_neg (by simp [outer])))
  | @call _ _ next _ _ =>
    have houter : next :: t.outer = (next :: inner) ++ [unlessPanicked k] := by rw [outer]; rfl
    exact .inside houter calls answers (hnone rfl)
  | @back exit next rest ends called =>
    rw [called] at outer
    cases inner with
    | cons first inner =>
      -- it comes back to other code that the handler has called
      obtain ⟨-, hrest⟩ := List.cons.inj outer
      exact .inside hrest calls answers (hnone (if_neg (by simp [hrest])))
    | nil =>
      obtain ⟨rfl, rfl⟩ := List.cons.inj outer
      cases exit with
      | ended e =>
        refine .own (p := k e) rfl rfl (answers e) ?_
        rintro ⟨text, hmem⟩
        simp only [List.isEmpty_nil, if_true, List.mem_append, List.mem_singleton, Deed.returned.injEq,
          reduceCtorEq, and_false, or_false] at hmem
        exact calm ⟨text, hmem⟩
      | panicked text => exact .failing rfl rfl calls ⟨text, by simp⟩
  | _ => exact .inside outer calls answers (hnone rfl)

/-- **A handler goes from stage to stage.** -/
theorem Stage.advance {t u : Task} (h : Stage c log t) (advance : Advance t u deeds)
    (saw : Saw c (log ++ deeds) t.id) : Stage c (log ++ deeds) u := by
  cases h with
  | inside outer calls answers calm => exact advance_inside outer calls answers calm advance
  | failing wait outer _ _ =>
    -- nothing has called the handler that it could come back to
    cases advance with
    | back _ called => simp [outer] at called
    | _ => simp_all
  | @own p wait outer answers calm =>
    cases advance with
    | report h =>
      obtain rfl := Wait.turn.inj (wait.symm.trans h)
      cases answers with
      | report _ hnext => exact .own rfl outer hnext (by rwa [List.append_nil])
    | access w h =>
      obtain rfl := Wait.turn.inj (wait.symm.trans h)
      cases answers with
      | access _ hnext =>
        rw [if_pos (by simp [outer])] at saw ⊢
        refine .own rfl outer (hnext w (saw w (by simp))) ?_
        rwa [panicked_append (by simp)]
    | call body h =>
      obtain rfl := Wait.turn.inj (wait.symm.trans h)
      cases answers with
      | @call _ _ k calls hnext =>
        have houter : unlessPanicked k :: t.outer = [] ++ [unlessPanicked k] := by rw [outer]; rfl
        exact .inside houter calls hnext (by rwa [List.append_nil])
    | back _ called => simp [outer] at called
    | record h | ensure h | keep _ h | notify h | refused _ h | invoke _ h | pass h | await h =>
      obtain rfl := Wait.turn.inj (wait.symm.trans h)
      cases answers

/-- A handler ends as it may. -/
theorem Stage.finish {t : Task} {exit : Exit} (h : Stage c log t) (ends : t.wait = .turn exit.program)
    (own : t.outer = []) : Settled c log t.id exit := by
  cases h with
  | own wait _ answers calm =>
    obtain rfl := Wait.turn.inj (wait.symm.trans ends)
    cases exit with
    | ended e =>
      cases answers with
      | finish he => exact Or.inl ⟨e, rfl, he, calm⟩
    | panicked text => cases answers
  | failing wait _ calls panicked =>
    have hpanic := Wait.turn.inj (wait.symm.trans ends)
    cases exit with
    | ended e => cases hpanic
    | panicked text => exact Or.inr ⟨text, rfl, calls, panicked⟩
  | inside outer _ _ _ => simp [own] at outer

/-! ## All handlers -/

/-- A handler has kept to its terms so far, as long as it saw only what they allow. -/
def Keeps (c : Contract) (t : TaskId) (s : Session) (log : List Deed) : Prop :=
  Saw c log t → (∀ u ∈ s.live, u.id = t → Stage c log u) ∧
    ∀ role exit, Deed.finished t role exit ∈ log → Settled c log t exit

/-- The handler does nothing, except that it may fall due. -/
theorem Keeps.goOn {t : TaskId} {s s' : Session} (h : Keeps c t s log)
    (hlive : ∀ u ∈ s'.live, u.id = t → ∃ v ∈ s.live, v.Eases u)
    (hreturned : ∀ exit, Deed.returned t exit ∉ deeds) (hfinished : ∀ role exit, Deed.finished t role exit ∉ deeds) :
    Keeps c t s' (log ++ deeds) := by
  intro saw
  obtain ⟨hstage, hsettled⟩ := h fun w hw => saw w (List.mem_append_left _ hw)
  refine ⟨fun u hu hid => ?_, fun role exit hmem => ?_⟩
  · obtain ⟨v, hv, hvu⟩ := hlive u hu hid
    have hvid : v.id = t := (congrArg Prod.fst hvu.key_eq).symm.trans hid
    exact ((hstage v hv hvid).append (hvid ▸ hreturned)).eases hvu
  · have hold := (List.mem_append.mp hmem).resolve_right (hfinished role exit)
    exact (hsettled role exit hold).append hreturned

/-- The handler itself goes on. -/
theorem Keeps.advanced {s s' : Session} (kept : Kept s log) {others : List Task} {v u : Task} (h : Keeps c v.id s log)
    (advance : Advance v u deeds) (old : s.live = others ++ [v]) (new : s'.live = others ++ [u]) :
    Keeps c v.id s' (log ++ deeds) := by
  have hv : v ∈ s.live := by simp [old]
  intro saw
  obtain ⟨hstage, -⟩ := h fun w hw => saw w (List.mem_append_left _ hw)
  refine ⟨fun w hw hid => ?_, fun role exit hmem => ?_⟩
  · rw [new] at hw
    rcases List.mem_append.mp hw with hw | hw
    · -- the others have other ids
      have hnodup := kept.live_nodup
      rw [old, List.map_append, List.nodup_append] at hnodup
      exact absurd hid (hnodup.2.2 w.id (List.mem_map.mpr ⟨w, hw, rfl⟩) v.id (by simp))
    · obtain rfl := List.mem_singleton.mp hw
      exact (hstage v hv rfl).advance advance saw
  · rcases List.mem_append.mp hmem with hmem | hmem
    · exact absurd rfl (kept.over hmem v hv)
    · have hnone := mem_finished.mpr hmem
      simp [advance.deeds.2.1] at hnone

/-- The handler itself ends. -/
theorem Keeps.finished {s s' : Session} (kept : Kept s log) {v : Task} {exit : Exit} (h : Keeps c v.id s log)
    (ends : v.wait = .turn exit.program) (own : v.outer = []) (old : s.live = s'.live ++ [v]) :
    Keeps c v.id s' (log ++ [.finished v.id v.role exit]) := by
  have hv : v ∈ s.live := by simp [old]
  intro saw
  obtain ⟨hstage, -⟩ := h fun w hw => saw w (List.mem_append_left _ hw)
  refine ⟨fun w hw hid => ?_, fun role exit' hmem => ?_⟩
  · have hnodup := kept.live_nodup
    rw [old, List.map_append, List.nodup_append] at hnodup
    exact absurd hid (hnodup.2.2 w.id (List.mem_map.mpr ⟨w, hw, rfl⟩) v.id (by simp))
  · rcases List.mem_append.mp hmem with hmem | hmem
    · exact absurd rfl (kept.over hmem v hv)
    · simp only [List.mem_singleton, Deed.finished.injEq] at hmem
      obtain ⟨-, -, rfl⟩ := hmem
      exact ((hstage v hv rfl).finish ends own).append (by simp)

theorem Keeps.change {t : TaskId} {s s' : Session} (kept : Kept s log) (h : Keeps c t s log) (known : t < s.nextTask)
    (change : Change s s' deeds) : Keeps c t s' (log ++ deeds) := by
  -- a task that begins is not the handler, whose id was given out before
  have hbegun : ∀ {new : Task}, new.id = s.nextTask → s'.live.Perm (new :: s.live) →
      ∀ u ∈ s'.live, u.id = t → ∃ v ∈ s.live, v.Eases u := by
    intro new hnew tasks u hu hid
    rcases List.mem_cons.mp (tasks.mem_iff.mp hu) with rfl | hu
    · exact absurd (hnew.symm.trans hid) (Nat.ne_of_gt known)
    · exact ⟨u, hu, .same⟩
  cases change with
  | linked _ tasks _ => exact h.goOn (fun u hu _ => tasks.eases u hu) (by simp) (by simp)
  | refused role args _ tasks _ => exact h.goOn (fun u hu _ => ⟨u, tasks ▸ hu, .same⟩) (by simp) (by simp)
  | accepted args _ _ tasks _ => exact h.goOn (hbegun rfl tasks) (by simp) (by simp)
  | born _ _ tasks _ => exact h.goOn (hbegun rfl tasks) (by simp) (by simp)
  | @advanced others v u _ advance _ old new _ =>
    by_cases hid : v.id = t
    · subst hid
      exact h.advanced kept advance old new
    · obtain ⟨-, hfinished, habout⟩ := advance.deeds
      have hother : ∀ d ∈ deeds, d.task? ≠ some t := fun d hd heq =>
        hid (Option.some.inj ((habout d hd).symm.trans heq))
      refine h.goOn (fun w hw hwid => ⟨w, ?_, .same⟩) (not_returned_of_task? hother) fun _ _ hmem => hother _ hmem rfl
      rw [new] at hw
      rcases List.mem_append.mp hw with hw | hw
      · exact old ▸ List.mem_append_left _ hw
      · rw [List.mem_singleton.mp hw] at hwid
        exact absurd (advance.id_eq.symm.trans hwid) hid
  | @finished v exit ends own _ old _ =>
    by_cases hid : v.id = t
    · subst hid
      exact h.finished kept ends own old
    · refine h.goOn (fun w hw _ => ⟨w, old ▸ List.mem_append_left _ hw, .same⟩) (by simp) fun role exit' hmem => ?_
      simp only [List.mem_singleton, Deed.finished.injEq] at hmem
      exact hid hmem.1.symm
  | dropped _ _ fewer _ =>
    refine h.goOn (fun w hw _ => ⟨w, ?_, .same⟩) (by simp) (by simp)
    exact (fewer kept.live_nodup).mem_iff.mpr (List.mem_cons_of_mem _ hw)

/-- A new handler begins with its own work. -/
theorem keeps_accepted {s s' : Session} (kept : Kept s log) {role : Role} {handler : List Value → Program}
    {args : List Value} (answers : Answers c (handler args))
    (tasks : s'.live.Perm (⟨s.nextTask, role, .turn (handler args), []⟩ :: s.live)) :
    Keeps c s.nextTask s' (log ++ [.accepted s.nextTask role args]) := by
  -- the record does not know its id yet
  have hnew : ∀ d ∈ log ++ [.accepted s.nextTask role args], d.task? = some s.nextTask →
      d = .accepted s.nextTask role args := by
    intro d hd htask
    rcases List.mem_append.mp hd with hd | hd
    · exact absurd (kept.named d hd _ htask) (Nat.lt_irrefl _)
    · exact List.mem_singleton.mp hd
  intro _
  refine ⟨fun u hu hid => ?_, fun role' exit hmem => ?_⟩
  · rcases List.mem_cons.mp (tasks.mem_iff.mp hu) with rfl | hu
    · refine .own rfl rfl answers ?_
      rintro ⟨text, hmem⟩
      cases hnew _ hmem rfl
    · exact absurd (kept.fresh u hu) (hid ▸ Nat.lt_irrefl _)
  · cases hnew _ hmem rfl

/-- **Every handler keeps to the terms that its program keeps to.** -/
theorem keeps_after (c : Contract) (setup : Setup) (moves : List Move) {t : TaskId} {role : Role}
    {handler : List Value → Program} {args : List Value}
    (haccepted : .accepted t role args ∈ (Chronicle.after setup moves).log) (handles : role.handler? = some handler)
    (answers : Answers c (handler args)) :
    Keeps c t (Chronicle.after setup moves).session (Chronicle.after setup moves).log := by
  -- for all handlers at once, since a change may begin another one
  let P : Session → List Deed → Prop := fun s log => ∀ t role args handler,
    .accepted t role args ∈ log → role.handler? = some handler → Answers c (handler args) → Keeps c t s log
  have hall : P (Chronicle.after setup moves).session (Chronicle.after setup moves).log := by
    refine Chronicle.induct_kept (P := P) setup (fun _ _ _ _ hmem => absurd hmem (by simp)) ?_ moves
    intro s s' deeds log kept change h t role args handler hmem handles answers
    by_cases hold : .accepted t role args ∈ log
    · exact Keeps.change kept (h t role args handler hold handles answers) (kept.named _ hold t rfl) change
    · have hnew := (List.mem_append.mp hmem).resolve_left hold
      cases change with
      | accepted args' handles' _ tasks _ =>
        simp only [List.mem_singleton, Deed.accepted.injEq] at hnew
        obtain ⟨rfl, rfl, rfl⟩ := hnew
        obtain rfl := Option.some.inj (handles.symm.trans handles')
        exact keeps_accepted kept answers tasks
      | advanced advance _ _ _ _ =>
        have hnone := mem_accepted.mpr ⟨args, hnew⟩
        simp [advance.deeds.1] at hnone
      | linked _ _ _ => simp at hnew
      | refused _ _ _ _ _ => simp at hnew
      | born _ _ _ _ => simp at hnew
      | finished _ _ _ _ _ => simp at hnew
      | dropped _ _ _ _ => simp at hnew
  exact hall t role args handler haccepted handles answers

end EditorLink.Session
