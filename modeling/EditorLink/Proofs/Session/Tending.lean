import EditorLink.Proofs.Session.Chronicle

/-!
# EditorLink.Proofs.Session.Tending -- code that waits, and code that begins

A session does things with code beside running it: a task goes on with what it waited for, another one takes its turn, and code begins in
a task of its own. In all that the workspace and the registered code stay as they are, and no code comes from anywhere else (`Tends`).
Every move is of that kind, unless a program works or a caller goes away (`tends_move`).
-/

namespace EditorLink.Session

open Extension

/-! ## Going on and beginning -/

/-- A task is the same, or goes on with what it waited for. -/
inductive Task.Resumes (t : Task) : Task → Prop
  | same : t.Resumes t
  | reply {id : UInt32} {release : Workspace → Workspace} {next : CallResult → Program} (result : CallResult)
      (waits : t.wait = .reply id release next) : t.Resumes { t with wait := .turn (next result) }
  | gate {name : String} {next : Program} (waits : t.wait = .gate name next) : t.Resumes { t with wait := .turn next }

theorem Task.Resumes.id_eq {t u : Task} (h : t.Resumes u) : u.id = t.id := by
  cases h <;> rfl

theorem Task.Resumes.role_eq {t u : Task} (h : t.Resumes u) : u.role = t.role := by
  cases h <;> rfl

theorem Task.Resumes.outer_eq {t u : Task} (h : t.Resumes u) : u.outer = t.outer := by
  cases h <;> rfl

theorem Task.Resumes.of_turn {t u : Task} (h : t.Resumes u) {p : Program} (due : t.wait = .turn p) : u = t := by
  cases h with
  | same => rfl
  | reply _ waits => cases due.symm.trans waits
  | gate waits => cases due.symm.trans waits

theorem Task.Resumes.trans {t u v : Task} (htu : t.Resumes u) (huv : u.Resumes v) : t.Resumes v := by
  cases htu with
  | same => exact huv
  | reply result waits =>
    obtain rfl := huv.of_turn rfl
    exact .reply result waits
  | gate waits =>
    obtain rfl := huv.of_turn rfl
    exact .gate waits

/-- A task has just been made for one of some programs. -/
def Task.Begins (fresh : Program → Prop) (t : Task) : Prop :=
  t.outer = [] ∧ ∃ p, fresh p ∧ t.wait = .turn p

theorem Task.Begins.resumes {fresh : Program → Prop} {t u : Task} (h : t.Begins fresh) (hu : t.Resumes u) : u.Begins fresh := by
  obtain ⟨p, -, hwait⟩ := h.2
  obtain rfl := hu.of_turn hwait
  exact h

/-! ## Tending -/

/-- No code has run. Tasks may have gone on, taken their turns, or begun with one of the fresh programs. -/
structure Tends (fresh : Program → Prop) (s s' : Session) : Prop where
  workspace : s'.workspace = s.workspace
  code : s'.code = s.code
  farewell : s'.farewell = s.farewell
  tasks : ∀ u ∈ s'.tasks, (∃ t ∈ s.tasks, t.Resumes u) ∨ u.Begins fresh
  focus : ∀ u ∈ s'.focus.task?, u ∈ s.focus.task? ∨ (∃ t ∈ s.tasks, t.Resumes u) ∨ u.Begins fresh

namespace Tends

variable {fresh more : Program → Prop} {s t s' : Session}

/-- Neither tasks nor code are touched; whose turn it was may be over. -/
theorem beside (hworkspace : s'.workspace = s.workspace) (hcode : s'.code = s.code) (hfarewell : s'.farewell = s.farewell)
    (htasks : s'.tasks = s.tasks) (hfocus : s'.focus = s.focus ∨ s'.focus.task? = none) : Tends fresh s s' where
  workspace := hworkspace
  code := hcode
  farewell := hfarewell
  tasks := fun u hu => Or.inl ⟨u, htasks ▸ hu, .same⟩
  focus := by
    intro u hu
    rcases hfocus with hfocus | hfocus
    · exact Or.inl (hfocus ▸ hu)
    · rw [hfocus] at hu
      cases hu

theorem refl (s : Session) : Tends fresh s s :=
  beside rfl rfl rfl rfl (Or.inl rfl)

theorem trans (hst : Tends fresh s t) (htu : Tends fresh t s') : Tends fresh s s' where
  workspace := htu.workspace.trans hst.workspace
  code := htu.code.trans hst.code
  farewell := htu.farewell.trans hst.farewell
  tasks := by
    intro v hv
    rcases htu.tasks v hv with ⟨u, hu, huv⟩ | hbegins
    · rcases hst.tasks u hu with ⟨w, hw, hwu⟩ | hbegins
      · exact Or.inl ⟨w, hw, hwu.trans huv⟩
      · exact Or.inr (hbegins.resumes huv)
    · exact Or.inr hbegins
  focus := by
    intro v hv
    rcases htu.focus v hv with hv | ⟨u, hu, huv⟩ | hbegins
    · exact hst.focus v hv
    · rcases hst.tasks u hu with ⟨w, hw, hwu⟩ | hbegins
      · exact Or.inr (Or.inl ⟨w, hw, hwu.trans huv⟩)
      · exact Or.inr (Or.inr (hbegins.resumes huv))
    · exact Or.inr (Or.inr hbegins)

theorem mono (h : Tends fresh s s') (hmore : ∀ p, fresh p → more p) : Tends more s s' where
  workspace := h.workspace
  code := h.code
  farewell := h.farewell
  tasks := fun u hu => (h.tasks u hu).imp_right fun ⟨houter, p, hp, hwait⟩ => ⟨houter, p, hmore p hp, hwait⟩
  focus := fun u hu => (h.focus u hu).imp_right (Or.imp_right fun ⟨houter, p, hp, hwait⟩ => ⟨houter, p, hmore p hp, hwait⟩)

/-! ### Tasks -/

/-- One more task goes on, which waited to begin with. -/
theorem resume {now : Session} (h : Tends fresh s now) {t : Task} (ht : t ∈ s.tasks) {p : Program}
    (goes : t.Resumes { t with wait := .turn p }) : Tends fresh s (now.resume t p) where
  workspace := h.workspace
  code := h.code
  farewell := h.farewell
  tasks := by
    intro v hv
    obtain ⟨u, hu, rfl⟩ := List.mem_map.mp hv
    split
    · exact Or.inl ⟨t, ht, goes⟩
    · exact h.tasks u hu
  focus := h.focus

theorem complete (s : Session) (c : Completion TaskId) : Tends fresh s (s.complete c) := by
  unfold Session.complete
  split
  · next t hfind =>
    split
    · next id release next hwait =>
      split
      · exact (refl s).resume (mem_of_task? hfind).1 (.reply c.result hwait)
      · exact refl s
    · exact refl s
  · exact refl s

theorem resumeGate (s : Session) (gate : String) : Tends fresh s (s.resumeGate gate) := by
  -- over the tasks that are still to be looked at
  have hfold : ∀ (todo : List Task) (now : Session), (∀ t ∈ todo, t ∈ s.tasks) → Tends fresh s now →
      Tends fresh s (todo.foldl (wakeAt gate) now) := by
    intro todo
    induction todo with
    | nil => exact fun now _ h => h
    | cons t todo ih =>
      intro now hmem h
      rw [List.foldl_cons]
      refine ih _ (fun u hu => hmem u (List.mem_cons_of_mem t hu)) ?_
      rw [wakeAt]
      split
      · next name next hwait =>
        split
        · exact h.resume (hmem t List.mem_cons_self) (.gate hwait)
        · exact h
      · exact h
  rw [resumeGate_eq]
  exact hfold s.tasks s (fun _ h => h) (refl s)

theorem spawn (s : Session) (role : Role) {p : Program} (hp : fresh p) : Tends fresh s (s.spawn role p) where
  workspace := rfl
  code := rfl
  farewell := rfl
  tasks := by
    intro u hu
    rcases List.mem_append.mp hu with hu | hu
    · exact Or.inl ⟨u, hu, .same⟩
    · rw [List.mem_singleton.mp hu]
      exact Or.inr ⟨rfl, p, hp, rfl⟩
  focus := fun _ hu => Or.inl hu

/-! ### The end of a run -/

theorem closeWith (s : Session) (reason : TransportError) : Tends fresh s (s.closeWith reason) := by
  have hfold : ∀ (ended : List (Completion TaskId)) (now : Session), Tends fresh s now →
      Tends fresh s (ended.foldl (fun s c => (s.report (.rejectingCall c.call.method reason)).complete c) now) := by
    intro ended
    induction ended with
    | nil => exact fun now h => h
    | cons c ended ih =>
      intro now h
      have hreport : Tends fresh now (now.report (.rejectingCall c.call.method reason)) := beside rfl rfl rfl rfl (Or.inl rfl)
      exact ih _ (h.trans (hreport.trans (complete _ c)))
  have hclosed : Tends fresh s { s with link := (s.link.close reason).2 } := beside rfl rfl rfl rfl (Or.inl rfl)
  refine (hfold (s.link.close reason).1 _ hclosed).trans ?_
  unfold Session.closeWith
  simp only
  split
  · exact beside rfl rfl rfl rfl (Or.inl rfl)
  · exact beside rfl rfl rfl rfl (Or.inl rfl)

theorem farewellWith (s : Session) (result : Except Failure Unit) : Tends (· = s.farewell) s (s.farewellWith result) where
  workspace := rfl
  code := rfl
  farewell := rfl
  tasks := fun u hu => Or.inl ⟨u, hu, .same⟩
  focus := by
    intro u hu
    obtain rfl := Option.mem_some.mp hu
    exact Or.inr (Or.inr ⟨rfl, s.farewell, rfl, rfl⟩)

/-- What comes before the end of a run may come first. -/
theorem thenFarewell (h : Tends (· = s.farewell) s t) (result : Except Failure Unit) :
    Tends (· = s.farewell) s (t.farewellWith result) := by
  have hlast := farewellWith t result
  rw [h.farewell] at hlast
  exact h.trans hlast

theorem endReading (s : Session) (result : Except Failure Unit) : Tends (· = s.farewell) s (s.endReading result) := by
  have hclose : Tends (· = s.farewell) s (s.closeWith (closeReason result)) := closeWith s _
  unfold Session.endReading
  cases result with
  | ok => exact hclose.thenFarewell _
  | error e =>
    have hreport : Tends (· = s.farewell) s ((s.closeWith (closeReason (.error e))).report (.readEnded e)) :=
      hclose.trans (beside rfl rfl rfl rfl (Or.inl rfl))
    exact hreport.thenFarewell _

theorem stopRun (s : Session) : Tends (· = s.farewell) s s.stopRun := by
  have hreport : Tends (· = s.farewell) s (s.report .stopRequested) := beside rfl rfl rfl rfl (Or.inl rfl)
  exact (hreport.trans (closeWith _ .closed)).thenFarewell _

/-! ### The reader and the writer -/

/-- The programs that a message of the host may begin, and what a run says at its end, if it does end. -/
inductive OfHost (farewell : Program) (ends : Prop) : Program → Prop
  | notification (method : String) (args : List Value) : OfHost farewell ends (Handling.notification method args)
  | request (method : String) (args : List Value) : OfHost farewell ends (Handling.request method args)
  | farewell (ended : ends) : OfHost farewell ends farewell

theorem dispatchRequest (s : Session) (id : UInt32) (method : String) (args : List Value) :
    ∃ t, (s.dispatchRequest id method args = .ok t ∨ s.dispatchRequest id method args = .error t) ∧
      ∀ ends, Tends (OfHost s.farewell ends) s t := by
  rcases s.dispatchRequest_spec id method args with ⟨-, due, journal, writerDue, herror⟩ | ⟨-, hok⟩
  · exact ⟨_, Or.inr herror, fun _ => beside rfl rfl rfl rfl (Or.inl rfl)⟩
  · refine ⟨_, Or.inl hok, fun ends => ?_⟩
    have htaken : Tends (OfHost s.farewell ends) s { s with inFlight := s.inFlight + 1 } := beside rfl rfl rfl rfl (Or.inl rfl)
    exact htaken.trans (spawn _ _ (.request method args))

/-- A run ends after what has been done so far. -/
theorem thenEnds {ends : Prop} (h : Tends (OfHost s.farewell ends) s t) (ended : ends) (result : Except Failure Unit) :
    Tends (OfHost s.farewell ends) s (t.endReading result) :=
  h.trans ((endReading t result).mono fun _ hp => hp ▸ h.farewell ▸ .farewell ended)

theorem handle (s : Session) (m : Message) : Tends (OfHost s.farewell ((s.handle m).reader = .ended)) s (s.handle m) := by
  cases m with
  | reply id outcome =>
    have hreport : ∀ {ends : Prop}, Tends (OfHost s.farewell ends) s (s.report (.replyReceived id outcome.isOk)) :=
      beside rfl rfl rfl rfl (Or.inl rfl)
    simp only [Session.handle, Link.resolve]
    cases (s.report (.replyReceived id outcome.isOk)).link.find? id with
    | none => exact hreport.thenEnds rfl _
    | some call =>
      simp only
      split
      · refine trans ?_ (complete _ _)
        exact beside rfl rfl rfl rfl (Or.inl rfl)
      · refine trans ?_ (complete _ _)
        exact beside rfl rfl rfl rfl (Or.inl rfl)
  | notify method args =>
    simp only [Session.handle, dispatch]
    by_cases hfull : s.limit ≤ s.inFlight
    · have hreport : ∀ {ends : Prop}, Tends (OfHost s.farewell ends) s (s.report (.limitReached method s.limit)) :=
        beside rfl rfl rfl rfl (Or.inl rfl)
      simp only [if_pos hfull]
      exact hreport.thenEnds rfl _
    · have htaken : ∀ {ends : Prop}, Tends (OfHost s.farewell ends) s { s with inFlight := s.inFlight + 1 } :=
        beside rfl rfl rfl rfl (Or.inl rfl)
      simp only [if_neg hfull]
      exact htaken.trans (spawn _ _ (.notification method args))
  | request id method args =>
    rw [Session.handle]
    obtain ⟨t, ht | ht, htends⟩ := dispatchRequest s id method args
    · rw [ht]
      exact htends _
    · rw [ht]
      exact (htends _).thenEnds rfl _

theorem readStep (s : Session) : Tends (OfHost s.farewell (s.readStep.reader = .ended)) s s.readStep := by
  unfold Session.readStep
  generalize s.connection.receive = received
  obtain ⟨received, connection⟩ := received
  have hconnection : ∀ {fresh : Program → Prop}, Tends fresh s { s with connection } := beside rfl rfl rfl rfl (Or.inl rfl)
  cases received with
  | message m => exact hconnection.trans (handle { s with connection } m)
  | again => exact hconnection
  | blocked => exact beside rfl rfl rfl rfl (Or.inr rfl)
  | finished =>
    have hreport : ∀ {ends : Prop}, Tends (OfHost s.farewell ends) s (report { s with connection } .hostClosed) :=
      beside rfl rfl rfl rfl (Or.inl rfl)
    exact hreport.thenEnds rfl _
  | failed e => exact hconnection.thenEnds rfl _

theorem lose (s : Session) (m : Message) (reason : TransportError) : Tends fresh s (s.lose m reason) := by
  unfold Session.lose
  split
  · next completion link _ =>
    have hlink : Tends fresh s { s with link } := beside rfl rfl rfl rfl (Or.inl rfl)
    exact hlink.trans (complete _ completion)
  · split
    · exact beside rfl rfl rfl rfl (Or.inl rfl)
    · exact beside rfl rfl rfl rfl (Or.inl rfl)

theorem writeStep (s : Session) : Tends fresh s s.writeStep := by
  unfold Session.writeStep
  split
  · exact beside rfl rfl rfl rfl (Or.inr rfl)
  · next m link _ =>
    have htaken : Tends fresh s { s with link } := beside rfl rfl rfl rfl (Or.inl rfl)
    simp only
    split
    · exact htaken.trans (beside rfl rfl rfl rfl (Or.inl rfl))
    · exact htaken.trans (lose _ m _)

/-! ### Turns and moves -/

theorem begin (s : Session) (turn : Turn) : Tends (OfHost s.farewell ((s.begin turn).reader = .ended)) s (s.begin turn) := by
  cases turn with
  | writer => exact beside rfl rfl rfl rfl (Or.inr rfl)
  | reader =>
    rw [Session.begin]
    split
    · exact refl s
    · split
      · exact (stopRun s).mono fun _ hp => hp ▸ .farewell rfl
      · exact beside rfl rfl rfl rfl (Or.inr rfl)
  | task id =>
    rw [Session.begin]
    split
    · next own role p outer hfind =>
      obtain ⟨hmem, hid⟩ := mem_of_task? hfind
      obtain rfl : own = id := hid
      refine ⟨rfl, rfl, rfl, fun u hu => Or.inl ⟨u, List.mem_of_mem_filter hu, .same⟩, ?_⟩
      intro u hu
      obtain rfl := Option.mem_some.mp hu
      exact Or.inr (Or.inl ⟨_, hmem, .same⟩)
    · exact refl s

theorem step {s s' : Session} (h : s.step = some s') (nobody : s.focus.task? = none) :
    Tends (OfHost s.farewell (s'.reader = .ended)) s s' := by
  unfold Session.step at h
  split at h
  · exact Option.some.inj h ▸ readStep s
  · exact Option.some.inj h ▸ writeStep s
  · next hfocus =>
    rw [hfocus] at nobody
    cases nobody
  · split at h
    · cases h
    · next turn rest _ =>
      have htaken : ∀ {fresh : Program → Prop}, Tends fresh s { s with ready := rest } := beside rfl rfl rfl rfl (Or.inl rfl)
      exact Option.some.inj h ▸ htaken.trans (begin { s with ready := rest } turn)

theorem wakeReader (s : Session) : Tends fresh s s.wakeReader := by
  rw [wakeReader_eq]
  exact beside rfl rfl rfl rfl (Or.inl rfl)

/-- Something arrives from the host, or the host goes away. -/
theorem arrive (s : Session) (connection : LocalEnd) (host : HostEnd) :
    Tends fresh s (Session.wakeReader { s with connection, host }) := by
  have harrived : Tends fresh s { s with connection, host } := beside rfl rfl rfl rfl (Or.inl rfl)
  exact harrived.trans (wakeReader _)

end Tends

/-- The programs that a move may begin. -/
inductive Starts (s : Session) (m : Move) : Program → Prop
  | ofHost {p : Program} (begins : Tends.OfHost s.farewell ((s.move m).reader = .ended) p) : Starts s m p
  | callFacade {tag : String} {p : Program} (called : m = .callFacade tag p) : Starts s m p
  | perform {p : Program} (performed : m = .perform p) : Starts s m p

/-- **Only working programs do anything.** In a move in which none works and no caller goes away, tasks go on and begin, and all else
that code could see or change stays as it is. -/
theorem tends_move {s : Session} {m : Move} (nobody : m = .step → s.focus.task? = none) (keeps : ∀ tag, m ≠ .abandon tag) :
    Tends (Starts s m) s (s.move m) := by
  cases m with
  | step =>
    cases hstep : s.step with
    | none =>
      rw [move, hstep]
      exact Tends.refl s
    | some s' =>
      have hmove : s.move .step = s' := by
        rw [move, hstep]
        rfl
      rw [hmove]
      exact (Tends.step hstep (nobody rfl)).mono fun p hp => .ofHost (hmove ▸ hp)
  | start =>
    show Tends _ s (if s.reader = .notStarted then _ else _)
    split <;> exact Tends.beside rfl rfl rfl rfl (Or.inl rfl)
  | shutdown => exact Tends.closeWith s .closed
  | requestStop =>
    have hstopping : Tends (Starts s .requestStop) s { s with stopping := true } := Tends.beside rfl rfl rfl rfl (Or.inl rfl)
    exact hstopping.trans (Tends.wakeReader _)
  | callFacade tag p => exact Tends.spawn s _ (.callFacade rfl)
  | perform p => exact Tends.spawn s _ (.perform rfl)
  | abandon tag => exact absurd rfl (keeps tag)
  | openGate gate =>
    have hopened : Tends (Starts s (.openGate gate)) s { s with openGates := gate :: s.openGates } :=
      Tends.beside rfl rfl rfl rfl (Or.inl rfl)
    exact hopened.trans (Tends.resumeGate _ gate)
  | handOver id method args =>
    obtain ⟨t, ht, htends⟩ := Tends.dispatchRequest s id method args
    have hmove : s.move (.handOver id method args) = t := by
      rw [move]
      rcases ht with ht | ht <;> rw [ht]
    rw [hmove]
    exact (htends _).mono fun _ hp => .ofHost (hmove ▸ hp)
  | hostSend m =>
    rw [move, hostSend]
    by_cases hclosed : s.host.closed = true
    · rw [if_pos hclosed]
      exact Tends.refl s
    · rw [if_neg hclosed]
      exact Tends.arrive s _ s.host
  | hostWrite bytes => exact Tends.arrive s _ s.host
  | hostHangUp => exact Tends.arrive s _ _
  | hostLeave => exact Tends.arrive s _ _
  | _ => exact Tends.beside rfl rfl rfl rfl (Or.inl rfl)

/-- What all handlers are, and what is brought in and said at the end, is all that a move begins. -/
theorem Starts.all {P : Program → Prop} {s : Session} {m : Move} (notification : ∀ method args, P (Handling.notification method args))
    (request : ∀ method args, P (Handling.request method args)) (farewell : (s.move m).reader = .ended → P s.farewell)
    (callFacade : ∀ tag p, m = .callFacade tag p → P p) (perform : ∀ p, m = .perform p → P p) : ∀ p, Starts s m p → P p := by
  intro p hp
  cases hp with
  | ofHost begins =>
    cases begins with
    | notification method args => exact notification method args
    | request method args => exact request method args
    | farewell ended => exact farewell ended
  | callFacade called => exact callFacade _ p called
  | perform performed => exact perform p performed

/-- In a step the program at work does one thing. -/
theorem move_of_running {s : Session} {id : TaskId} {role : Role} {p : Program} {outer : List (Exit → Program)}
    (focus : s.focus = .running id role p outer) : s.move .step = s.runStep id role outer p := by
  rw [move, step, focus]
  rfl

/-- What a move does with code: a program works, a caller goes away, or code is only tended. -/
inductive Handles (s : Session) (m : Move) : Prop
  | works {id : TaskId} {role : Role} {p : Program} {outer : List (Exit → Program)} (step : m = .step) (focus : s.focus = .running id role p outer)
      (after : s.move m = s.runStep id role outer p)
  | lets {tag : String} (gone : m = .abandon tag)
  | tends (h : Tends (Starts s m) s (s.move m))

/-- **The three kinds of moves.** -/
theorem handles_move (s : Session) (m : Move) : Handles s m := by
  cases m with
  | step =>
    cases hfocus : s.focus with
    | running id role p outer => exact .works rfl hfocus (move_of_running hfocus)
    | _ => exact .tends (tends_move (fun _ => by rw [hfocus]; rfl) fun tag h => by cases h)
  | abandon tag => exact .lets rfl
  | _ => exact .tends (tends_move (fun h => by cases h) fun tag h => by cases h)

/-! ## The end of a run -/

/-- The run goes on as it did, or it has just come to its last part. -/
inductive Closes (s s' : Session) : Prop
  | goesOn (reader : s'.reader = .ended → s.reader = .ended)
  | ends {id : TaskId} {result : Except Failure Unit} (reader : s'.reader = .ended)
      (focus : s'.focus = .running id (.farewell result) s.farewell [])

namespace Closes

variable {s t s' : Session}

theorem same (h : s'.reader = s.reader) : Closes s s' :=
  .goesOn fun hended => h ▸ hended

/-- What comes first leaves the reader alone. -/
theorem after (h : Closes t s') (hreader : t.reader = s.reader) (hfarewell : t.farewell = s.farewell) : Closes s s' := by
  cases h with
  | goesOn reader => exact .goesOn fun hended => hreader ▸ reader hended
  | ends reader focus => exact .ends reader (hfarewell ▸ focus)

theorem reader_complete (s : Session) (c : Completion TaskId) : (s.complete c).reader = s.reader := by
  obtain ⟨tasks, due, hcomplete, -⟩ := s.complete_spec c
  rw [hcomplete]

theorem farewellWith {result : Except Failure Unit} (hfarewell : t.farewell = s.farewell) : Closes s (t.farewellWith result) :=
  .ends rfl (congrArg (Focus.running t.nextTask (.farewell result) · []) hfarewell)

theorem endReading (result : Except Failure Unit) (hfarewell : t.farewell = s.farewell) : Closes s (t.endReading result) := by
  have hclose : (t.closeWith (closeReason result)).farewell = t.farewell := by
    have htends : Tends (fun _ => False) t (t.closeWith (closeReason result)) := .closeWith t _
    exact htends.farewell
  unfold Session.endReading
  cases result with
  | ok => exact farewellWith (hclose.trans hfarewell)
  | error e => exact farewellWith (t := (t.closeWith (closeReason (.error e))).report (.readEnded e)) (hclose.trans hfarewell)

theorem handle (s : Session) (m : Message) : Closes s (s.handle m) := by
  cases m with
  | reply id outcome =>
    simp only [Session.handle, Link.resolve]
    cases (s.report (.replyReceived id outcome.isOk)).link.find? id with
    | none => exact endReading _ rfl
    | some call =>
      simp only
      split
      · exact same (reader_complete _ _)
      · exact same (reader_complete _ _)
  | notify method args =>
    simp only [Session.handle, dispatch]
    by_cases hfull : s.limit ≤ s.inFlight
    · simp only [if_pos hfull]
      exact endReading _ rfl
    · simp only [if_neg hfull]
      exact same rfl
  | request id method args =>
    rw [Session.handle]
    rcases s.dispatchRequest_spec id method args with ⟨-, due, journal, writerDue, herror⟩ | ⟨-, hok⟩
    · rw [herror]
      exact endReading _ rfl
    · rw [hok]
      exact same rfl

theorem readStep (s : Session) : Closes s s.readStep := by
  unfold Session.readStep
  generalize s.connection.receive = received
  obtain ⟨received, connection⟩ := received
  cases received with
  | message m => exact (handle { s with connection } m).after rfl rfl
  | again => exact same rfl
  | blocked => exact .goesOn nofun
  | finished => exact endReading _ rfl
  | failed e => exact endReading _ rfl

theorem begin (s : Session) (turn : Turn) : Closes s (s.begin turn) := by
  cases turn with
  | writer => exact same rfl
  | reader =>
    rw [Session.begin]
    split
    · exact same rfl
    · split
      · have htends : Tends (fun _ => False) (s.report .stopRequested) ((s.report .stopRequested).closeWith .closed) := .closeWith _ _
        exact farewellWith htends.farewell
      · exact same rfl
  | task id =>
    rw [Session.begin]
    split
    · exact same rfl
    · exact same rfl

end Closes

theorem leave_frame (s : Session) (id : TaskId) (role : Role) (exit : Exit) (outer : List (Exit → Program)) :
    (s.leave id role exit outer).workspace = s.workspace ∧ (s.leave id role exit outer).farewell = s.farewell ∧
      (s.leave id role exit outer).reader = s.reader := by
  cases outer with
  | nil =>
    obtain ⟨due, journal, writerDue, inFlight, runEnd, hconclude⟩ := conclude_spec { s with focus := .idle } exit role
    rw [leave, hconclude]
    exact ⟨rfl, rfl, rfl⟩
  | cons next outer => exact ⟨rfl, rfl, rfl⟩

/-- Programs have nothing to do with the run. -/
theorem runStep_frame (s : Session) (id : TaskId) (role : Role) (outer : List (Exit → Program)) (p : Program) :
    (s.runStep id role outer p).farewell = s.farewell ∧ (s.runStep id role outer p).reader = s.reader := by
  cases p with
  | finish e => exact (leave_frame ..).2
  | panic text => exact (leave_frame ..).2
  | notify method args next =>
    rw [runStep, sending_eq]
    exact ⟨rfl, rfl⟩
  | invoke method args release next =>
    rw [runStep]
    split
    · exact ⟨rfl, rfl⟩
    · exact ⟨rfl, rfl⟩
    · rw [sending_eq]
      exact ⟨rfl, rfl⟩
  | await gate next =>
    rw [runStep]
    split <;> exact ⟨rfl, rfl⟩
  | _ => exact ⟨rfl, rfl⟩

theorem writeStep_reader (s : Session) : s.writeStep.reader = s.reader := by
  unfold writeStep
  split
  · rfl
  · next m link _ =>
    simp only
    split
    · rfl
    · next reason _ =>
      obtain ⟨tasks, due, journal, hlose, -⟩ := lose_spec { s with link } m reason
      rw [hlose]

/-- What a run says at its end is settled from the start. -/
theorem farewell_move (s : Session) (m : Move) : (s.move m).farewell = s.farewell := by
  cases s.handles_move m with
  | works step focus after =>
    rw [after]
    exact (runStep_frame ..).1
  | @lets tag gone =>
    rw [gone, move, abandon]
    cases s.tasks.find? (hasTag tag) <;> rfl
  | tends h => exact h.farewell

theorem wakeReader_closes {s t : Session} (h : t.reader = s.reader) : Closes s t.wakeReader := by
  unfold wakeReader
  split
  · exact .goesOn nofun
  · exact .same h

/-- **However a run ends, its last part begins at once.** -/
theorem closes_move (s : Session) (m : Move) : Closes s (s.move m) := by
  cases m with
  | step =>
    cases hfocus : s.focus with
    | running id role p outer =>
      rw [move_of_running hfocus]
      exact .same (runStep_frame ..).2
    | reading =>
      have hstep : s.move .step = s.readStep := by
        rw [move, step, hfocus]
        rfl
      exact hstep ▸ .readStep s
    | writing =>
      have hstep : s.move .step = s.writeStep := by
        rw [move, step, hfocus]
        rfl
      exact hstep ▸ .same (writeStep_reader s)
    | idle =>
      cases hready : s.ready with
      | nil => exact .same (by simp [move, step, hfocus, hready])
      | cons turn rest =>
        have hstep : s.move .step = { s with ready := rest }.begin turn := by simp [move, step, hfocus, hready]
        exact hstep ▸ (Closes.begin { s with ready := rest } turn).after rfl rfl
  | start =>
    show Closes s (if s.reader = .notStarted then _ else _)
    split
    · exact .goesOn nofun
    · exact .same rfl
  | shutdown =>
    obtain ⟨tasks, due, journal, hclose, -⟩ := s.closeWith_spec .closed
    exact .same (by rw [move, shutdown, hclose])
  | requestStop => exact wakeReader_closes rfl
  | abandon tag =>
    rw [move, abandon]
    cases s.tasks.find? (hasTag tag) <;> exact .same rfl
  | openGate gate =>
    obtain ⟨tasks, due, hresume, -⟩ := resumeGate_spec { s with openGates := gate :: s.openGates } gate
    exact .same (by rw [move, openGate, hresume])
  | handOver id method args =>
    rw [move]
    rcases s.dispatchRequest_spec id method args with ⟨-, due, journal, writerDue, herror⟩ | ⟨-, hok⟩
    · rw [herror]
      exact .same rfl
    · rw [hok]
      exact .same rfl
  | hostSend m =>
    rw [move, hostSend]
    by_cases hclosed : s.host.closed = true
    · rw [if_pos hclosed]
      exact .same rfl
    · rw [if_neg hclosed]
      exact wakeReader_closes rfl
  | hostWrite bytes => exact wakeReader_closes rfl
  | hostHangUp => exact wakeReader_closes rfl
  | hostLeave => exact wakeReader_closes rfl
  | _ => exact .same rfl

end EditorLink.Session
