import EditorLink.Proofs.Session.Slots

/-!
# EditorLink.Proofs.Session.Turns -- whose turn it is, and who comes next

Tasks take turns in the order in which their turns fell due. The **agenda** of a session is that order: the task that runs, and behind it
those whose turns are to come. A move lets tasks fall due at its end, takes a task away from its front, or has a task begin; only the last
part of a run is let in at the front (`Turnover`).
-/

namespace EditorLink.Session

open Extension Wire

/-! ## Agendas -/

/-- The task whose turn it is. -/
def Turn.task? : Turn → Option TaskId
  | task id => some id
  | _ => none

/-- The task that runs. -/
def running? (s : Session) : Option TaskId :=
  s.focus.task?.map (·.id)

/-- The tasks whose turns have fallen due, in order. -/
def comingUp (s : Session) : List TaskId :=
  s.ready.filterMap Turn.task?

/-- The task that runs and those whose turns come after it. -/
def agenda (s : Session) : List TaskId :=
  s.running?.toList ++ s.comingUp

/-- The task waits for something else than its turn. -/
def Task.Waits (t : Task) : Prop :=
  ∀ p, t.wait ≠ .turn p

theorem Task.Eases.waits {t u : Task} (h : t.Eases u) (hwaits : u.Waits) : u = t := by
  cases h with
  | same => rfl
  | woken p _ => exact absurd rfl (hwaits p)

instance (t : Task) : Decidable t.Waits :=
  match h : t.wait with
  | .turn p => isFalse fun hwaits => hwaits p h
  | .reply _ _ _ => isTrue fun _ hp => Wait.noConfusion (h.symm.trans hp)
  | .gate _ _ => isTrue fun _ hp => Wait.noConfusion (h.symm.trans hp)

/-- The tasks that wait for something else than their turns. -/
def waiting (s : Session) : List TaskId :=
  (s.tasks.filter fun t => t.Waits).map (·.id)

theorem mem_waiting {s : Session} {id : TaskId} : id ∈ s.waiting ↔ ∃ t ∈ s.tasks, t.Waits ∧ t.id = id := by
  simp [waiting, and_assoc]

/-! ## Waking -/

/-- Tasks that waited may have fallen due, and nothing else has happened to the turns. -/
structure Wakes (s s' : Session) : Prop where
  tasks : ∀ u ∈ s'.tasks, ∃ t ∈ s.tasks, t.Eases u
  ready : ∃ due, s'.ready = s.ready ++ due ∧ ∀ id, .task id ∈ due → ∃ t ∈ s.tasks, t.id = id ∧ t.Waits
  focus : s'.focus = s.focus
  next : s'.nextTask = s.nextTask

namespace Wakes

/-- What does not touch tasks and lets nobody but the reader and the writer fall due. -/
theorem beside {s s' : Session} (htasks : s'.tasks = s.tasks) (hready : ∃ due, s'.ready = s.ready ++ due ∧ ∀ id, .task id ∉ due)
    (hfocus : s'.focus = s.focus) (hnext : s'.nextTask = s.nextTask) : Wakes s s' := by
  obtain ⟨due, hdue, hnobody⟩ := hready
  exact ⟨fun u hu => ⟨u, htasks ▸ hu, .same⟩, ⟨due, hdue, fun id hid => absurd hid (hnobody id)⟩, hfocus, hnext⟩

/-- What does not touch turns or tasks at all. -/
theorem apart {s s' : Session} (htasks : s'.tasks = s.tasks) (hready : s'.ready = s.ready) (hfocus : s'.focus = s.focus)
    (hnext : s'.nextTask = s.nextTask) : Wakes s s' :=
  beside htasks ⟨[], by rw [hready, List.append_nil], by simp⟩ hfocus hnext

theorem refl (s : Session) : Wakes s s :=
  apart rfl rfl rfl rfl

theorem trans {s t u : Session} (hst : Wakes s t) (htu : Wakes t u) : Wakes s u where
  tasks := by
    intro w hw
    obtain ⟨v, hv, hvw⟩ := htu.tasks w hw
    obtain ⟨x, hx, hxv⟩ := hst.tasks v hv
    exact ⟨x, hx, hxv.trans hvw⟩
  ready := by
    obtain ⟨due, hdue, hwaited⟩ := hst.ready
    obtain ⟨more, hmore, hwaited'⟩ := htu.ready
    refine ⟨due ++ more, by rw [hmore, hdue, List.append_assoc], ?_⟩
    intro id hid
    rcases List.mem_append.mp hid with hid | hid
    · exact hwaited id hid
    · -- what waits after the first part has waited before it
      obtain ⟨v, hv, hvid, hvwaits⟩ := hwaited' id hid
      obtain ⟨x, hx, hxv⟩ := hst.tasks v hv
      obtain rfl := hxv.waits hvwaits
      exact ⟨v, hx, hvid, hvwaits⟩
  focus := htu.focus.trans hst.focus
  next := htu.next.trans hst.next

/-- What does not touch turns or tasks at all may come first. -/
theorem behind {s t s' : Session} (h : Wakes t s') (htasks : t.tasks = s.tasks) (hready : t.ready = s.ready)
    (hfocus : t.focus = s.focus) (hnext : t.nextTask = s.nextTask) : Wakes s s' :=
  (apart htasks hready hfocus hnext).trans h

/-- One more task falls due, which waited to begin with. -/
theorem resume {s now : Session} (h : Wakes s now) {t : Task} (ht : t ∈ s.tasks) (waits : t.Waits) (p : Program) :
    Wakes s (now.resume t p) where
  tasks := by
    intro v hv
    obtain ⟨u, hu, rfl⟩ := List.mem_map.mp hv
    by_cases hid : u.id = t.id
    · rw [if_pos hid]
      exact ⟨t, ht, .woken p waits⟩
    · rw [if_neg hid]
      exact h.tasks u hu
  ready := by
    obtain ⟨due, hdue, hwaited⟩ := h.ready
    refine ⟨due ++ [.task t.id], ?_, ?_⟩
    · rw [← List.append_assoc, ← hdue]
      rfl
    · intro id hid
      rcases List.mem_append.mp hid with hid | hid
      · exact hwaited id hid
      · obtain rfl : id = t.id := by simpa using hid
        exact ⟨t, ht, rfl, waits⟩
  focus := h.focus
  next := h.next

theorem sending (s : Session) (l : Link TaskId) : Wakes s (s.sending l) := by
  rw [sending_eq]
  refine beside rfl ⟨_, rfl, ?_⟩ rfl rfl
  intro id
  split <;> simp

theorem complete (s : Session) (c : Completion TaskId) : Wakes s (s.complete c) := by
  unfold Session.complete
  split
  · next t hfind =>
    split
    · next id release next hwait =>
      split
      · exact (refl s).resume (mem_of_task? hfind).1 (by simp [Task.Waits, hwait]) _
      · exact refl s
    · exact refl s
  · exact refl s

theorem closeWith (s : Session) (reason : TransportError) : Wakes s (s.closeWith reason) := by
  -- over the calls that end
  have hended : ∀ (ended : List (Completion TaskId)) (now : Session), Wakes s now →
      Wakes s (ended.foldl (fun s c => (s.report (.rejectingCall c.call.method reason)).complete c) now) := by
    intro ended
    induction ended with
    | nil => exact fun _ h => h
    | cons c ended ih =>
      intro now h
      have hreport : Wakes now (now.report (.rejectingCall c.call.method reason)) := apart rfl rfl rfl rfl
      exact ih _ ((h.trans hreport).trans (complete _ c))
  unfold Session.closeWith
  have hclosed : Wakes s { s with link := (s.link.close reason).2 } := apart rfl rfl rfl rfl
  refine (hended (s.link.close reason).1 _ hclosed).trans ?_
  simp only
  split <;> exact apart rfl rfl rfl rfl

theorem lose (s : Session) (m : Message) (reason : TransportError) : Wakes s (s.lose m reason) := by
  unfold Session.lose
  split
  · next completion link _ =>
    have hlink : Wakes s { s with link } := apart rfl rfl rfl rfl
    exact hlink.trans (complete _ completion)
  · split <;> exact apart rfl rfl rfl rfl

theorem wakeReader (s : Session) : Wakes s s.wakeReader := by
  rw [wakeReader_eq]
  split
  · exact beside rfl ⟨[.reader], rfl, by simp⟩ rfl rfl
  · exact apart rfl rfl rfl rfl

theorem resumeGate (s : Session) (gate : String) : Wakes s (s.resumeGate gate) := by
  -- over the tasks still to be looked at
  have hlooked : ∀ (todo : List Task), (∀ t ∈ todo, t ∈ s.tasks) →
      ∀ now, Wakes s now → Wakes s (todo.foldl (wakeAt gate) now) := by
    intro todo
    induction todo with
    | nil => exact fun _ _ h => h
    | cons t todo ih =>
      intro hmem now h
      refine ih (fun u hu => hmem u (List.mem_cons_of_mem _ hu)) _ ?_
      unfold wakeAt
      split
      · next name next hwait =>
        split
        · exact h.resume (hmem t List.mem_cons_self) (by simp [Task.Waits, hwait]) next
        · exact h
      · exact h
  rw [resumeGate_eq]
  exact hlooked s.tasks (fun _ h => h) s (refl s)

theorem dropResponder (s : Session) (r : Responder) : Wakes s (s.dropResponder r) := by
  unfold Session.dropResponder
  split
  · exact refl s
  · have hreport : Wakes s (s.report (.unanswered r.id r.method)) := apart rfl rfl rfl rfl
    exact hreport.trans (sending _ _)

theorem conclude (s : Session) (exit : Exit) (role : Role) : Wakes s (s.conclude exit role) := by
  cases role with
  | notification method => cases exit <;> exact apart rfl rfl rfl rfl
  | request id method =>
    cases exit with
    | ended e =>
      have hanswer := sending s (s.link.answer id (Handling.outcome e))
      have hdrop := dropResponder (s.sending (s.link.answer id (Handling.outcome e))) { id, method, replied := true }
      exact (hanswer.trans hdrop).trans (apart rfl rfl rfl rfl)
    | panicked text =>
      exact (dropResponder s { id, method }).trans (apart rfl rfl rfl rfl)
  | _ => exact apart rfl rfl rfl rfl

end Wakes

/-! ## What a move does to the turns -/

/-- Some deeds with which no handler begins and no task ends. -/
structure Steady (deeds : List Deed) : Prop where
  accepted : accepted deeds = []
  finished : finished deeds = []

theorem steady_nil : Steady [] :=
  ⟨rfl, rfl⟩

theorem steady_link (a : Exchange.Act TaskId) : Steady [.link a] :=
  ⟨rfl, rfl⟩

theorem Plain.steady {deeds : List Deed} (h : Plain deeds) : Steady deeds :=
  ⟨h.accepted, h.finished⟩

/-- The task whose program does something in a move. -/
def worker? (s : Session) : Move → Option TaskId
  | .step => s.running?
  | _ => none

/-- All that a move can do to the turns: the task that does something in it, if one does, and the deeds. -/
inductive Turnover (s s' : Session) : Option TaskId → List Deed → Prop
  /-- Tasks fall due that waited. -/
  | goesOn {due : List TaskId} {worker : Option TaskId} {deeds : List Deed} (agenda : s'.agenda = s.agenda ++ due)
      (woken : ∀ id ∈ due, ∃ t ∈ s.tasks, t.id = id ∧ t.Waits) (tasks : ∀ u ∈ s'.tasks, ∃ t ∈ s.tasks, t.Eases u)
      (next : s'.nextTask = s.nextTask) (works : ∀ t ∈ worker, s.running? = some t) (steady : Steady deeds) :
      Turnover s s' worker deeds
  /-- A new task has its first turn behind all others. -/
  | born {deeds : List Deed} (agenda : s'.agenda = s.agenda ++ [s.nextTask])
      (tasks : ∀ u ∈ s'.tasks, (∃ t ∈ s.tasks, t.Eases u) ∨ u.id = s.nextTask ∧ ¬ u.Waits) (next : s'.nextTask = s.nextTask + 1)
      (accepts : ((accepted deeds).map (·.1)).Sublist [s.nextTask]) (finished : finished deeds = []) : Turnover s s' none deeds
  /-- The last part of a run begins, at once. -/
  | leads {due : List TaskId} {deeds : List Deed} (agenda : s'.agenda = s.nextTask :: (s.agenda ++ due))
      (woken : ∀ id ∈ due, ∃ t ∈ s.tasks, t.id = id ∧ t.Waits) (tasks : ∀ u ∈ s'.tasks, ∃ t ∈ s.tasks, t.Eases u)
      (next : s'.nextTask = s.nextTask + 1) (nobody : s.running? = none) (steady : Steady deeds) : Turnover s s' none deeds
  /-- The turn of a task that is gone, or that waits, is passed over. -/
  | skips {id : TaskId} (agenda : s.agenda = id :: s'.agenda) (idle : s.focus = .idle) (stale : ∀ t, s.task? id = some t → t.Waits)
      (tasks : s'.tasks = s.tasks) (next : s'.nextTask = s.nextTask) : Turnover s s' none []
  /-- The task that runs ends, or comes to wait. -/
  | givesWay {t : TaskId} {deeds : List Deed} (running : s.running? = some t) (agenda : s.agenda = t :: s'.agenda)
      (tasks : ∀ u ∈ s'.tasks, u ∈ s.tasks ∨ u.id = t ∧ u.Waits) (next : s'.nextTask = s.nextTask)
      (accepted : accepted deeds = []) (ends : ((finished deeds).map (·.1)).Sublist [t]) : Turnover s s' (some t) deeds

/-- Nothing falls due. -/
theorem Turnover.quiet {s s' : Session} {worker : Option TaskId} {deeds : List Deed} (agenda : s'.agenda = s.agenda)
    (tasks : ∀ u ∈ s'.tasks, ∃ t ∈ s.tasks, t.Eases u) (next : s'.nextTask = s.nextTask) (works : ∀ t ∈ worker, s.running? = some t)
    (steady : Steady deeds) : Turnover s s' worker deeds :=
  .goesOn (agenda.trans (List.append_nil _).symm) (by simp) tasks next works steady

/-- The tasks that fall due stand behind those that have already. -/
theorem Wakes.dueTasks {s s' : Session} (h : Wakes s s') :
    ∃ due, s'.comingUp = s.comingUp ++ due ∧ ∀ id ∈ due, ∃ t ∈ s.tasks, t.id = id ∧ t.Waits := by
  obtain ⟨due, hready, hwaited⟩ := h.ready
  refine ⟨due.filterMap Turn.task?, by rw [Session.comingUp, hready, List.filterMap_append]; rfl, ?_⟩
  intro id hid
  obtain ⟨turn, hturn, hid⟩ := List.mem_filterMap.mp hid
  cases turn with
  | task own => exact hwaited id (Option.some.inj hid ▸ hturn)
  | reader => cases hid
  | writer => cases hid

theorem Wakes.turnover {s s' : Session} {worker : Option TaskId} {deeds : List Deed} (h : Wakes s s')
    (works : ∀ t ∈ worker, s.running? = some t) (steady : Steady deeds) : Turnover s s' worker deeds := by
  obtain ⟨due, hagenda, hwaited⟩ := h.dueTasks
  refine .goesOn ?_ hwaited h.tasks h.next works steady
  rw [agenda, agenda, hagenda, running?, running?, h.focus, List.append_assoc]

/-- Something that is no task gets its turn or gives way, and tasks may fall due. -/
theorem Wakes.turnover_beside {s t s' : Session} {deeds : List Deed} (h : Wakes t s') (htasks : t.tasks = s.tasks)
    (hready : t.comingUp = s.comingUp) (hnext : t.nextTask = s.nextTask) (hnobody : s.running? = none)
    (hnobody' : t.running? = none) (steady : Steady deeds) : Turnover s s' none deeds := by
  obtain ⟨due, hagenda, hwaited⟩ := h.dueTasks
  rw [htasks] at hwaited
  have htasks' := h.tasks
  rw [htasks] at htasks'
  refine .goesOn ?_ hwaited htasks' (h.next.trans hnext) (by simp) steady
  have hnow : s'.running? = none := by rw [running?, h.focus]; exact hnobody'
  rw [agenda, agenda, hagenda, hready, hnow, hnobody]
  rfl

/-- A session in which a new task begins. -/
theorem turnover_spawn (s : Session) (inFlight : Nat) (role : Role) (p : Program) {deeds : List Deed}
    (accepts : ((accepted deeds).map (·.1)).Sublist [s.nextTask]) (finished : finished deeds = []) :
    Turnover s ({ s with inFlight }.spawn role p) none deeds := by
  refine .born ?_ ?_ rfl accepts finished
  · show s.running?.toList ++ (s.ready ++ [Turn.task s.nextTask]).filterMap Turn.task? = _
    rw [List.filterMap_append, agenda, List.append_assoc]
    rfl
  · intro u hu
    rcases List.mem_append.mp hu with hu | hu
    · exact Or.inl ⟨u, hu, .same⟩
    · obtain rfl := List.mem_singleton.mp hu
      exact Or.inr ⟨rfl, fun hwaits => hwaits p rfl⟩

/-- Reading ends, and the last part of the run begins. -/
theorem turnover_farewell {s t : Session} (h : Wakes s t) (hnobody : s.running? = none) (result : Except Failure Unit)
    {deeds : List Deed} (steady : Steady deeds) : Turnover s (t.farewellWith result) none deeds := by
  obtain ⟨due, hagenda, hwaited⟩ := h.dueTasks
  have hleads : (t.farewellWith result).agenda = s.nextTask :: (s.agenda ++ due) := by
    show t.nextTask :: t.comingUp = _
    rw [h.next, hagenda, agenda, hnobody]
    rfl
  exact .leads hleads hwaited h.tasks (congrArg (· + 1) h.next) hnobody steady

theorem Wakes.endReading {s t : Session} (h : Wakes s t) (hnobody : s.running? = none) (result : Except Failure Unit)
    {deeds : List Deed} (steady : Steady deeds) : Turnover s (t.endReading result) none deeds := by
  have hclose := h.trans (closeWith t (closeReason result))
  unfold Session.endReading
  cases result with
  | ok => exact turnover_farewell hclose hnobody _ steady
  | error e =>
    have hreport : Wakes (t.closeWith (closeReason (.error e))) ((t.closeWith (closeReason (.error e))).report (.readEnded e)) :=
      apart rfl rfl rfl rfl
    exact turnover_farewell (hclose.trans hreport) hnobody _ steady

/-- What does not change turns and tasks before a move makes no difference. -/
theorem Turnover.from_turns {s t s' : Session} {worker : Option TaskId} {deeds : List Deed} (h : Turnover t s' worker deeds)
    (htasks : t.tasks = s.tasks) (hcoming : t.comingUp = s.comingUp) (hfocus : t.focus = s.focus)
    (hnext : t.nextTask = s.nextTask) : Turnover s s' worker deeds := by
  have hrunning : t.running? = s.running? := by rw [running?, hfocus]; rfl
  have hagenda : t.agenda = s.agenda := by rw [agenda, hrunning, hcoming]; rfl
  have hfind : ∀ id, t.task? id = s.task? id := fun id => by rw [Session.task?, htasks]; rfl
  cases h with
  | goesOn agenda woken tasks next works steady =>
    rw [hagenda] at agenda
    rw [htasks] at woken tasks
    rw [hrunning] at works
    exact .goesOn agenda woken tasks (next.trans hnext) works steady
  | born agenda tasks next accepts finished =>
    rw [hagenda, hnext] at agenda
    rw [htasks, hnext] at tasks
    rw [hnext] at next accepts
    exact .born agenda tasks next accepts finished
  | leads agenda woken tasks next nobody steady =>
    rw [hagenda, hnext] at agenda
    rw [htasks] at woken tasks
    rw [hnext] at next
    exact .leads agenda woken tasks next (hrunning ▸ nobody) steady
  | @skips id agenda idle stale tasks next =>
    rw [hagenda] at agenda
    rw [hfind] at stale
    exact .skips agenda (hfocus ▸ idle) stale (tasks.trans htasks) (next.trans hnext)
  | givesWay running agenda tasks next accepted ends =>
    rw [hagenda] at agenda
    rw [htasks] at tasks
    exact .givesWay (hrunning ▸ running) agenda tasks (next.trans hnext) accepted ends

/-! ## Steps -/

theorem wakes_dispatchRequest (s : Session) (id : UInt32) (method : String) (args : List Value) :
    (s.limit ≤ s.inFlight ∧ ∃ s', s.dispatchRequest id method args = .error s' ∧ Wakes s s') ∨
    (¬ s.limit ≤ s.inFlight ∧ s.dispatchRequest id method args = .ok
      ({ s with inFlight := s.inFlight + 1 }.spawn (.request id method) (Handling.request method args))) := by
  unfold dispatchRequest dispatch
  by_cases hfull : s.limit ≤ s.inFlight
  · rw [if_pos hfull]
    have hreport : Wakes s (s.report (.limitReached method s.limit)) := .apart rfl rfl rfl rfl
    exact Or.inl ⟨hfull, _, rfl, hreport.trans (.dropResponder _ _)⟩
  · rw [if_neg hfull]
    exact Or.inr ⟨hfull, rfl⟩

theorem turnover_handOver (s : Session) (id : UInt32) (method : String) (args : List Value) :
    Turnover s (s.move (.handOver id method args)) none (s.requestDeeds id method args) := by
  unfold requestDeeds
  rw [move]
  rcases s.wakes_dispatchRequest id method args with ⟨hfull, s', herror, hwakes⟩ | ⟨hfree, hok⟩
  · rw [herror, if_pos hfull]
    exact hwakes.turnover (by simp) ⟨rfl, rfl⟩
  · rw [hok, if_neg hfree]
    exact turnover_spawn s _ _ _ (List.Sublist.refl _) rfl

theorem turnover_handle {s : Session} (nobody : s.running? = none) (m : Message) :
    Turnover s (s.handle m) none (s.readDeeds (.message m)) := by
  cases m with
  | reply id outcome =>
    have hreport : Wakes s (s.report (.replyReceived id outcome.isOk)) := .apart rfl rfl rfl rfl
    have hlink : (s.report (.replyReceived id outcome.isOk)).link = s.link := rfl
    simp only [handle, hlink]
    cases s.link.resolve id outcome with
    | error e => exact hreport.endReading nobody _ (steady_link _)
    | ok found =>
      obtain ⟨c, link⟩ := found
      refine Wakes.turnover ?_ (by simp) (steady_link _)
      -- whether the caller is gone shows in a notice only
      show Wakes s (complete (if _ then _ else _) c)
      split <;> exact (Wakes.complete _ c).behind rfl rfl rfl rfl
  | notify method args =>
    simp only [handle, dispatch, readDeeds]
    by_cases hfull : s.limit ≤ s.inFlight
    · simp only [if_pos hfull]
      have hreport : Wakes s (s.report (.limitReached method s.limit)) := .apart rfl rfl rfl rfl
      exact hreport.endReading nobody _ ⟨rfl, rfl⟩
    · simp only [if_neg hfull]
      exact turnover_spawn s _ _ _ (List.Sublist.refl _) rfl
  | request id method args =>
    simp only [handle, readDeeds]
    rcases s.wakes_dispatchRequest id method args with ⟨hfull, s', herror, hwakes⟩ | ⟨hfree, hok⟩
    · rw [herror, requestDeeds, if_pos hfull, if_pos hfull]
      exact hwakes.endReading nobody _ ⟨rfl, rfl⟩
    · rw [hok, requestDeeds, if_neg hfree, if_neg hfree, List.append_nil]
      exact turnover_spawn s _ _ _ (List.Sublist.refl _) rfl

theorem turnover_readStep {s : Session} (reading : s.focus = .reading) :
    Turnover s s.readStep none (s.readDeeds s.connection.receive.1) := by
  have hnobody : s.running? = none := by rw [running?, reading]; rfl
  unfold readStep
  generalize s.connection.receive = received
  obtain ⟨received, connection⟩ := received
  have hconnection : Wakes s { s with connection } := .apart rfl rfl rfl rfl
  cases received with
  | message m => exact (turnover_handle (s := { s with connection }) hnobody m).from_turns rfl rfl rfl rfl
  | again => exact hconnection.turnover (by simp) steady_nil
  | blocked =>
    exact (Wakes.refl { s with connection, focus := .idle, reader := .waiting }).turnover_beside rfl rfl rfl hnobody rfl steady_nil
  | finished =>
    have hreport : Wakes s ({ s with connection }.report .hostClosed) := .apart rfl rfl rfl rfl
    exact hreport.endReading hnobody _ (steady_link _)
  | failed e => exact hconnection.endReading hnobody _ (steady_link _)

theorem turnover_writeStep {s : Session} (writing : s.focus = .writing) : Turnover s s.writeStep none s.writeDeeds := by
  have hnobody : s.running? = none := by rw [running?, writing]; rfl
  have hsteady := s.plain_writeDeeds.steady
  unfold writeStep
  cases s.link.takeOutbound with
  | none => exact (Wakes.refl { s with focus := .idle, writerDue := false }).turnover_beside rfl rfl rfl hnobody rfl hsteady
  | some taken =>
    obtain ⟨m, link⟩ := taken
    have htaken : Wakes s { s with link } := .apart rfl rfl rfl rfl
    simp only
    cases s.connection.send m with
    | ok bytes =>
      have hwritten : Wakes s { s with link, host := { s.host with inlet := s.host.inlet.arrive bytes } } := .apart rfl rfl rfl rfl
      exact hwritten.turnover (by simp) hsteady
    | error reason => exact (htaken.trans (.lose _ m reason)).turnover (by simp) hsteady

theorem comingUp_sending (s : Session) (l : Link TaskId) : (s.sending l).comingUp = s.comingUp := by
  rw [sending_eq, comingUp, List.filterMap_append]
  split <;> exact List.append_nil _

theorem comingUp_conclude (s : Session) (exit : Exit) (role : Role) : (s.conclude exit role).comingUp = s.comingUp := by
  cases role with
  | notification method => cases exit <;> rfl
  | request id method =>
    cases exit with
    | ended e =>
      simp only [conclude, useResponder, dropResponder, if_true]
      exact comingUp_sending s _
    | panicked text => exact comingUp_sending (s.report (.unanswered id method)) _
  | _ => rfl

section Running

variable {s : Session} {t : TaskId} {role : Role} {p : Program} {outer : List (Exit → Program)}

/-- The task that runs goes on. -/
theorem Wakes.turnover_running {next : Program} {outer' : List (Exit → Program)} {s' : Session} {deeds : List Deed}
    (h : Wakes { s with focus := .running t role next outer' } s') (running : s.focus = .running t role p outer)
    (steady : Steady deeds) : Turnover s s' (some t) deeds := by
  obtain ⟨due, hcoming, hwaited⟩ := h.dueTasks
  have hrunning : s.running? = some t := by rw [running?, running]; rfl
  have hrunning' : s'.running? = some t := by rw [running?, h.focus]; rfl
  refine .goesOn ?_ hwaited h.tasks h.next (by simp [hrunning]) steady
  rw [agenda, agenda, hcoming, hrunning, hrunning', List.append_assoc]
  rfl

/-- The task that runs comes to wait. -/
theorem turnover_waits (running : s.focus = .running t role p outer) (wait : Wait) (waits : ∀ q, wait ≠ .turn q) {s' : Session}
    {deeds : List Deed} (htasks : s'.tasks = s.tasks ++ [⟨t, role, wait, outer⟩]) (hfocus : s'.focus = .idle)
    (hcoming : s'.comingUp = s.comingUp) (hnext : s'.nextTask = s.nextTask) (steady : Steady deeds) :
    Turnover s s' (some t) deeds := by
  have hrunning : s.running? = some t := by rw [running?, running]; rfl
  refine .givesWay hrunning ?_ ?_ hnext steady.accepted (by simp [steady.finished])
  · rw [agenda, agenda, hrunning, hcoming, running?, hfocus]
    rfl
  · intro u hu
    rw [htasks] at hu
    rcases List.mem_append.mp hu with hu | hu
    · exact Or.inl hu
    · obtain rfl := List.mem_singleton.mp hu
      exact Or.inr ⟨rfl, waits⟩

/-- Code ends, and with it the task if nothing has called it. -/
theorem turnover_leave (running : s.focus = .running t role p outer) (exit : Exit) :
    Turnover s (s.leave t role exit outer) (some t) (leaveDeeds t role exit outer) := by
  cases outer with
  | cons next outer =>
    have hsteady : Steady (leaveDeeds t role exit (next :: outer)) := by cases outer <;> exact ⟨rfl, rfl⟩
    exact (Wakes.refl _).turnover_running running hsteady
  | nil =>
    obtain ⟨due, journal, writerDue, inFlight, runEnd, hconclude⟩ := conclude_spec { s with focus := .idle } exit role
    have hcoming := comingUp_conclude { s with focus := .idle } exit role
    have hrunning : s.running? = some t := by rw [running?, running]; rfl
    refine .givesWay hrunning ?_ ?_ ?_ ?_ ?_
    · show s.agenda = t :: (Session.conclude { s with focus := .idle } exit role).agenda
      rw [agenda, agenda, hrunning, hcoming, running?, hconclude]
      rfl
    · intro u hu
      rw [leave, hconclude] at hu
      exact Or.inl hu
    · rw [leave, hconclude]
    · rw [leaveDeeds]
      cases role.reply? exit <;> rfl
    · rw [leaveDeeds]
      cases role.reply? exit <;> exact List.Sublist.refl _

theorem turnover_runStep (running : s.focus = .running t role p outer) :
    Turnover s (s.runStep t role outer p) (some t) (s.runDeeds t role outer p) := by
  cases p with
  | finish e => exact turnover_leave running _
  | panic text => exact turnover_leave running _
  | record entry next =>
    have hgoes : Wakes { s with focus := .running t role next outer } (s.runStep t role outer (.record entry next)) :=
      .apart rfl rfl rfl rfl
    exact hgoes.turnover_running running steady_nil
  | report notice next =>
    have hgoes : Wakes { s with focus := .running t role next outer } (s.runStep t role outer (.report notice next)) :=
      .apart rfl rfl rfl rfl
    exact hgoes.turnover_running running steady_nil
  | access change next =>
    have hgoes : Wakes { s with focus := .running t role (next s.workspace) outer } (s.runStep t role outer (.access change next)) :=
      .apart rfl rfl rfl rfl
    have hsteady : Steady (s.runDeeds t role outer (.access change next)) := by
      rw [runDeeds]
      split <;> exact ⟨rfl, rfl⟩
    exact hgoes.turnover_running running hsteady
  | ensure change next =>
    have hgoes : Wakes { s with focus := .running t role next outer } (s.runStep t role outer (.ensure change next)) :=
      .apart rfl rfl rfl rfl
    exact hgoes.turnover_running running steady_nil
  | keep code next =>
    have hgoes : Wakes { s with focus := .running t role (next s.code.size) outer } (s.runStep t role outer (.keep code next)) :=
      .apart rfl rfl rfl rfl
    exact hgoes.turnover_running running steady_nil
  | run code input next => exact (Wakes.refl _).turnover_running running steady_nil
  | notify method args next =>
    have hreport : Wakes { s with focus := .running t role next outer }
        (report { s with focus := .running t role next outer } (.notifying method)) := .apart rfl rfl rfl rfl
    exact (hreport.trans (.sending _ _)).turnover_running running (steady_link _)
  | invoke method args release next =>
    rw [runStep]
    cases s.link.invoke t method args with
    | none => exact (Wakes.refl _).turnover_running running (steady_link _)
    | some answer =>
      cases answer with
      | error reason => exact (Wakes.refl _).turnover_running running (steady_link _)
      | ok accepted =>
        obtain ⟨call, link⟩ := accepted
        have hcoming := comingUp_sending
          (({ s with focus := .idle }.suspend ⟨t, role, .reply call release next, outer⟩).report (.invoking call method)) link
        refine turnover_waits running (.reply call release next) (by simp) ?_ ?_ hcoming ?_ (steady_link _)
        · simp only [sending_eq]
          rfl
        · simp only [sending_eq]
          rfl
        · simp only [sending_eq]
          rfl
  | await gate next =>
    rw [runStep]
    split
    · exact (Wakes.refl _).turnover_running running steady_nil
    · exact turnover_waits running (.gate gate next) (by simp) rfl rfl rfl rfl steady_nil

end Running

theorem turnover_begin {s : Session} {turn : Turn} {rest : List Turn} (idle : s.focus = .idle) (hready : s.ready = turn :: rest) :
    Turnover s ({ s with ready := rest }.begin turn) none ({ s with ready := rest }.beginDeeds turn) := by
  have hnobody : s.running? = none := by rw [running?, idle]; rfl
  cases turn with
  | writer =>
    have hcoming : s.comingUp = rest.filterMap Turn.task? := by rw [comingUp, hready]; rfl
    exact (Wakes.refl { s with ready := rest, focus := .writing }).turnover_beside rfl hcoming.symm rfl hnobody rfl steady_nil
  | reader =>
    have hcoming : comingUp { s with ready := rest } = s.comingUp := by rw [comingUp, comingUp, hready]; rfl
    rw [begin, beginDeeds]
    split
    · next hdue =>
      rw [if_neg (fun h => hdue h.1)]
      exact (Wakes.refl { s with ready := rest }).turnover_beside rfl hcoming rfl hnobody hnobody steady_nil
    · next hdue =>
      split
      · next hstop =>
        rw [if_pos ⟨not_not.mp hdue, hstop⟩]
        have hclose : Wakes { s with ready := rest } ((report { s with ready := rest } .stopRequested).closeWith .closed) :=
          (Wakes.closeWith _ .closed).behind rfl rfl rfl rfl
        exact (turnover_farewell hclose hnobody _ (steady_link _)).from_turns rfl hcoming rfl rfl
      · next hstop =>
        rw [if_neg (fun h => hstop h.2)]
        exact (Wakes.refl { s with ready := rest, focus := .reading }).turnover_beside rfl hcoming rfl hnobody rfl steady_nil
  | task id =>
    have hagenda : s.agenda = id :: rest.filterMap Turn.task? := by rw [agenda, hnobody, comingUp, hready]; rfl
    have hskips : (∀ t, s.task? id = some t → t.Waits) → Turnover s { s with ready := rest } none [] := by
      intro hstale
      have hskipped : s.agenda = id :: agenda { s with ready := rest } := by
        rw [hagenda, agenda]
        show _ = id :: (s.running?.toList ++ _)
        rw [hnobody]
        rfl
      exact .skips hskipped idle hstale rfl rfl
    have hfound : task? { s with ready := rest } id = s.task? id := rfl
    rw [begin, beginDeeds, hfound]
    cases hfind : s.task? id with
    | none => exact hskips (by simp [hfind])
    | some found =>
      obtain ⟨own, role, wait, outer⟩ := found
      cases wait with
      | reply call release next => exact hskips (by simp [hfind, Task.Waits])
      | gate name next => exact hskips (by simp [hfind, Task.Waits])
      | turn p =>
        refine .quiet (by rw [hagenda]; rfl) ?_ rfl (by simp) steady_nil
        intro u hu
        exact ⟨u, List.mem_of_mem_filter hu, .same⟩

theorem turnover_step {s s' : Session} (h : s.step = some s') : Turnover s s' s.running? s.stepDeeds := by
  unfold step at h
  split at h
  · next hfocus =>
    have hdeeds : s.stepDeeds = s.readDeeds s.connection.receive.1 := by rw [stepDeeds, hfocus]
    have hnobody : s.running? = none := by rw [running?, hfocus]; rfl
    rw [hdeeds, hnobody, ← Option.some.inj h]
    exact turnover_readStep hfocus
  · next hfocus =>
    have hdeeds : s.stepDeeds = s.writeDeeds := by rw [stepDeeds, hfocus]
    have hnobody : s.running? = none := by rw [running?, hfocus]; rfl
    rw [hdeeds, hnobody, ← Option.some.inj h]
    exact turnover_writeStep hfocus
  · next t role p outer hfocus =>
    have hdeeds : s.stepDeeds = s.runDeeds t role outer p := by rw [stepDeeds, hfocus]
    have hrunning : s.running? = some t := by rw [running?, hfocus]; rfl
    rw [hdeeds, hrunning, ← Option.some.inj h]
    exact turnover_runStep hfocus
  · next hfocus =>
    have hnobody : s.running? = none := by rw [running?, hfocus]; rfl
    rw [hnobody]
    split at h
    · cases h
    · next turn rest hready =>
      have hdeeds : s.stepDeeds = s.beginDeeds turn := by rw [stepDeeds, hfocus, hready]
      rw [hdeeds, ← Option.some.inj h]
      exact turnover_begin hfocus hready

/-! ## Moves -/

/-- **Turns are kept in order by every move** that does not change their order on purpose. -/
theorem turnover_move (s : Session) {m : Move} (inOrder : ∀ turns, m ≠ .reorder turns) :
    Turnover s (s.move m) (s.worker? m) (s.moveDeeds m) := by
  have hquiet : ∀ {t : Session}, Wakes s t → Turnover s t none [] := fun h => h.turnover (by simp) steady_nil
  have hwake : ∀ t : Session, t.tasks = s.tasks → t.ready = s.ready → t.focus = s.focus → t.nextTask = s.nextTask →
      Turnover s t.wakeReader none [] :=
    fun t htasks hready hfocus hnext => hquiet ((Wakes.wakeReader t).behind htasks hready hfocus hnext)
  cases m with
  | step =>
    rw [move, moveDeeds, worker?]
    cases hstep : s.step with
    | none =>
      rw [stepDeeds_of_none hstep]
      exact (Wakes.refl s).turnover (by simp) steady_nil
    | some s' => exact turnover_step hstep
  | start =>
    show Turnover s (if s.reader = .notStarted then _ else s) none []
    split
    · exact hquiet (.beside rfl ⟨[.reader], rfl, by simp⟩ rfl rfl)
    · exact hquiet (.refl s)
  | shutdown => exact (Wakes.closeWith s .closed).turnover (by simp [worker?]) (steady_link _)
  | requestStop => exact hwake _ rfl rfl rfl rfl
  | callFacade tag p => exact turnover_spawn s s.inFlight _ p (List.nil_sublist _) rfl
  | perform p => exact turnover_spawn s s.inFlight _ p (List.nil_sublist _) rfl
  | abandon tag =>
    rw [move, abandon, moveDeeds]
    cases s.tasks.find? (hasTag tag) with
    | none => exact hquiet (.refl s)
    | some t =>
      refine .quiet rfl ?_ rfl (by simp [worker?]) (steady_link _)
      intro u hu
      exact ⟨u, List.mem_of_mem_filter hu, .same⟩
  | openGate gate => exact hquiet ((Wakes.resumeGate { s with openGates := gate :: s.openGates } gate).behind rfl rfl rfl rfl)
  | handOver id method args => exact s.turnover_handOver id method args
  | hostSend m =>
    rw [move, hostSend]
    by_cases hclosed : s.host.closed = true
    · rw [if_pos hclosed]
      exact hquiet (.refl s)
    · rw [if_neg hclosed]
      exact hwake _ rfl rfl rfl rfl
  | hostWrite bytes => exact hwake _ rfl rfl rfl rfl
  | hostHangUp => exact hwake _ rfl rfl rfl rfl
  | hostLeave => exact hwake _ rfl rfl rfl rfl
  | reorder turns => exact absurd rfl (inOrder turns)
  | _ => exact hquiet (.apart rfl rfl rfl rfl)

end EditorLink.Session
