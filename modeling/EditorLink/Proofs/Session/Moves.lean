import EditorLink.Proofs.Session.Course

/-!
# EditorLink.Proofs.Session.Moves -- every move is a course

One lemma for each part of a step, in the order of the step itself, and from them that a session goes on as its record says.
-/

namespace EditorLink.Session

open Extension

/-! ## Tasks -/

theorem live_spawn (s : Session) (role : Role) (p : Program) :
    (s.spawn role p).live.Perm (⟨s.nextTask, role, .turn p, []⟩ :: s.live) := by
  show ((s.tasks ++ [_]) ++ s.focus.task?.toList).Perm (_ :: (s.tasks ++ s.focus.task?.toList))
  rw [List.append_assoc]
  exact List.perm_middle

/-- A task begins that is no handler. -/
theorem course_spawn (s : Session) {role : Role} (plain : role.handler? = none) (p : Program) :
    Course s (s.spawn role p) [] := by
  have hborn : Change s (s.spawn role p) [] :=
    .born plain (follows_nil rfl Iff.rfl Or.inl) (s.live_spawn role p) rfl
  exact hborn.course

/-- The handler of a message begins. -/
theorem course_accept (s : Session) {role : Role} {handler : List Value → Program} (args : List Value)
    (handles : role.handler? = some handler) :
    Course s ({ s with inFlight := s.inFlight + 1 }.spawn role (handler args))
      [.accepted s.nextTask role args] := by
  have haccepted : Change s ({ s with inFlight := s.inFlight + 1 }.spawn role (handler args))
      [.accepted s.nextTask role args] :=
    .accepted args handles (follows_nil rfl Iff.rfl Or.inl) (live_spawn _ role _) rfl
  exact haccepted.course

theorem change_refuse (s : Session) (role : Role) (args : List Value) : Change s s [.refused role args] :=
  .refused role args (follows_nil rfl Iff.rfl Or.inl) rfl rfl

/-- A request that is handed over is accepted, or refused and answered. -/
theorem course_dispatchRequest (s : Session) (id : UInt32) (method : String) (args : List Value) :
    (s.limit ≤ s.inFlight ∧ ∃ s', s.dispatchRequest id method args = .error s' ∧
      s'.focus = s.focus ∧ s'.limit = s.limit ∧ Course s s' (s.requestDeeds id method args)) ∨
    (¬ s.limit ≤ s.inFlight ∧ ∃ s', s.dispatchRequest id method args = .ok s' ∧
      Course s s' (s.requestDeeds id method args)) := by
  unfold requestDeeds
  rcases s.dispatchRequest_spec id method args with ⟨hfull, due, journal, writerDue, herror⟩ | ⟨hfree, hok⟩
  · refine Or.inl ⟨hfull, _, herror, rfl, rfl, ?_⟩
    rw [if_pos hfull]
    refine .cons (s.change_refuse _ args) (course_link (fun x hx => ⟨?_, hx.hand, rfl⟩) (.refl _) rfl (fun h => h) rfl)
    rw [← hx.link]
    rfl
  · refine Or.inr ⟨hfree, _, hok, ?_⟩
    rw [if_neg hfree]
    exact course_accept s args rfl

/-! ## The end of a run -/

/-- An act that ends the run closes the link for a reason. -/
def Ends (s : Session) (a : Exchange.Act TaskId) (reason : TransportError) : Prop :=
  ∀ x : Exchange TaskId, Mirrors s x →
    (x.act a).link = (s.link.close reason).2 ∧ (x.act a).hand = none ∧ (x.act a).runEnd ≠ none

theorem ends_stop {s : Session} (reading : s.focus = .reading ∨ s.reader ≠ .ended) (cause : Exchange.Halt) :
    Ends s (.stop cause) (closeReason cause.result) := by
  intro x hx
  have hopen : x.runEnd = none := hx.runEnd.mpr (reading.elim hx.reading id)
  simp [Exchange.act, hopen, Exchange.endRun, Exchange.note, hx.link, hx.hand]

theorem ends_read {s : Session} (reading : s.focus = .reading) {id : UInt32} {outcome : Outcome} {e : Failure}
    (unmatched : s.link.resolve id outcome = .error e) : Ends s (.read id outcome) (closeReason (.error e)) := by
  intro x hx
  have hopen : x.runEnd = none := hx.runEnd.mpr (hx.reading reading)
  simp [Exchange.act, hopen, hx.link, unmatched, Exchange.endRun, Exchange.note, hx.hand]

/-- The end of a run, where `t` is the session with its link closed. -/
theorem course_farewell {s t : Session} {a : Exchange.Act TaskId} {reason : TransportError}
    (result : Except Failure Unit) (hends : Ends s a reason) (hidle : s.focus.task? = none)
    (hlink : t.link = (s.link.close reason).2) (htasks : Eased s.tasks t.tasks)
    (hnext : t.nextTask = s.nextTask) : Course s (t.farewellWith result) [.link a] := by
  -- first nothing runs, and then the last task of the run begins
  have hclosed : Change s { t with reader := .ended, focus := .idle } ([a].map .link) := by
    refine .linked ?_ ?_ hnext
    · intro x hx
      obtain ⟨hl, hhand, hend⟩ := hends x hx
      exact ⟨hl.trans hlink.symm, hhand, by simpa using hend, by simp⟩
    · rw [live, hidle]
      simpa [live, Focus.task?] using htasks
  have hfarewell : Change { t with reader := .ended, focus := .idle } (t.farewellWith result) [] := by
    have hplain : (Role.farewell result).handler? = none := rfl
    refine .born (p := t.farewell) hplain (follows_nil rfl Iff.rfl (by simp [farewellWith])) ?_ rfl
    simp [live, farewellWith, Focus.task?]
  exact .cons hclosed hfarewell.course

theorem course_endReading {s : Session} {a : Exchange.Act TaskId} (result : Except Failure Unit)
    (hends : Ends s a (closeReason result)) (reading : s.focus = .reading) :
    Course s (s.endReading result) [.link a] := by
  obtain ⟨tasks, due, journal, hclose, heased⟩ := s.closeWith_spec (closeReason result)
  unfold endReading
  rw [hclose]
  have hidle : s.focus.task? = none := by rw [reading]; rfl
  cases result with
  | ok _ => exact course_farewell _ hends hidle rfl heased rfl
  | error e => exact course_farewell _ hends hidle rfl heased rfl

theorem course_stopRun {s : Session} (hidle : s.focus = .idle) (hdue : s.reader = .due) :
    Course s s.stopRun [.link (.stop .stopped)] := by
  obtain ⟨tasks, due, journal, hclose, heased⟩ := (s.report .stopRequested).closeWith_spec .closed
  unfold stopRun
  rw [hclose]
  refine course_farewell _ (ends_stop (Or.inr (by simp [hdue])) .stopped) ?_ rfl heased rfl
  rw [hidle]
  rfl

/-! ## The reader -/

/-- A reply goes to its call, and one without a call ends the run. -/
theorem course_reply {s : Session} (reading : s.focus = .reading) (id : UInt32) (outcome : Outcome) :
    Course s (s.handle (.reply id outcome)) [.link (.read id outcome)] := by
  have hresolved : ∀ {t : Session} {c : Completion TaskId}, s.link.resolve id outcome = .ok (c, t.link) →
      t.tasks = s.tasks → t.focus = s.focus → t.reader = s.reader → t.nextTask = s.nextTask →
      Course s (t.complete c) [.link (.read id outcome)] := by
    intro t c hresolve htasks hfocus hreader hnext
    obtain ⟨tasks, due, hcomplete, heased⟩ := t.complete_spec c
    rw [hcomplete]
    refine course_link (fun x hx => ?_) ?_ hreader (fun h => hfocus.symm.trans h) hnext
    · have hopen : x.runEnd = none := hx.runEnd.mpr (hx.reading reading)
      simp [Exchange.act, hopen, hx.link, hresolve, Exchange.note, hx.hand]
    · rw [live, ← htasks, ← hfocus]
      exact heased.append _
  have hlink : (s.report (.replyReceived id outcome.isOk)).link = s.link := rfl
  simp only [handle, hlink]
  cases hresolve : s.link.resolve id outcome with
  | error e =>
    have hreport : Course s (s.report (.replyReceived id outcome.isOk)) [] :=
      course_beside rfl rfl rfl rfl rfl
    exact hreport.trans (course_endReading _ (ends_read (s := s.report _) reading hresolve) reading)
  | ok found =>
    obtain ⟨c, link⟩ := found
    -- whether the caller is gone shows in a notice only
    show Course s (complete (if _ then _ else _) c) _
    split
    · exact hresolved hresolve rfl rfl rfl rfl
    · exact hresolved hresolve rfl rfl rfl rfl

/-- One message is handled. -/
theorem course_handle {s : Session} (reading : s.focus = .reading) (m : Message) :
    Course s (s.handle m) (s.readDeeds (.message m)) := by
  have hexhausted : ∀ {t : Session}, t.focus = .reading → t.limit = s.limit →
      Course t (t.endReading (.error (.dispatchExhausted t.limit))) [.link (.stop (.exhausted s.limit))] := by
    intro t ht hlimit
    rw [hlimit]
    exact course_endReading _ (ends_stop (Or.inl ht) (.exhausted s.limit)) ht
  cases m with
  | reply id outcome => exact course_reply reading id outcome
  | notify method args =>
    simp only [handle, dispatch, readDeeds]
    by_cases hfull : s.limit ≤ s.inFlight
    · simp only [if_pos hfull]
      have hreport : Course s (s.report (.limitReached method s.limit)) [] :=
        course_beside rfl rfl rfl rfl rfl
      exact .cons (s.change_refuse _ args) (hreport.trans (hexhausted reading rfl))
    · simp only [if_neg hfull]
      exact course_accept s args rfl
  | request id method args =>
    simp only [handle, readDeeds]
    rcases s.course_dispatchRequest id method args with
      ⟨hfull, t, herror, hfocus, hlimit, hcourse⟩ | ⟨hfree, t, hok, hcourse⟩
    · rw [herror, if_pos hfull]
      exact hcourse.trans (hexhausted (hfocus.trans reading) hlimit)
    · rw [hok, if_neg hfree]
      exact hcourse.trans (.nil t)

theorem course_readStep {s : Session} (reading : s.focus = .reading) :
    Course s s.readStep (s.readDeeds s.connection.receive.1) := by
  -- what the connection has read and decoded shows in nothing else
  have hreceive : ∀ connection : LocalEnd, Course s { s with connection } [] :=
    fun _ => course_beside rfl rfl rfl rfl rfl
  unfold readStep
  generalize s.connection.receive = received
  obtain ⟨received, connection⟩ := received
  cases received with
  | message m => exact (hreceive connection).trans (course_handle (s := { s with connection }) reading m)
  | again => exact hreceive connection
  | blocked =>
    -- the reader waits, and so it has not ended
    have hwait : Follows s { s with connection, focus := .idle, reader := .waiting } [] := by
      intro x hx
      exact ⟨hx.link, hx.hand, iff_of_true (hx.runEnd.mpr (hx.reading reading)) (by simp), by simp⟩
    have hlive : Eased s.live (live { s with connection, focus := .idle, reader := .waiting }) := by
      rw [live, reading]
      exact .refl _
    exact (Change.linked hwait hlive rfl).course
  | finished =>
    have hreport : Course s (report { s with connection } .hostClosed) [] :=
      course_beside rfl rfl rfl rfl rfl
    exact hreport.trans
      (course_endReading _ (ends_stop (s := report { s with connection } _) (Or.inl reading) .hungUp) reading)
  | failed e =>
    exact (hreceive connection).trans
      (course_endReading _ (ends_stop (s := { s with connection }) (Or.inl reading) (.broken e)) reading)

/-! ## The writer -/

theorem course_writeStep {s : Session} (writing : s.focus = .writing) : Course s s.writeStep s.writeDeeds := by
  have hlive : s.live = s.tasks ++ [] := by rw [live, writing]; rfl
  unfold writeStep writeDeeds
  cases htake : s.link.takeOutbound with
  | none =>
    refine course_nothing rfl ?_ Iff.rfl (by simp) rfl
    rw [hlive]
    exact .refl _
  | some taken =>
    obtain ⟨m, link⟩ := taken
    simp only
    cases hsend : s.connection.send m with
    | ok bytes =>
      -- taking a message and writing it are two acts, between which nothing comes
      have hwritten : Follows s { s with link, host := { s.host with inlet := s.host.inlet.arrive bytes } }
          [.take, .write] := by
        intro x hx
        refine ⟨?_, ?_, ?_, hx.reading⟩
        · simp [Exchange.act, hx.hand, hx.link, htake, Exchange.note]
        · simp [Exchange.act, hx.hand, hx.link, htake, Exchange.note]
        · simpa [Exchange.act, hx.hand, hx.link, htake, Exchange.note] using hx.runEnd
      exact (Change.linked hwritten (.refl _) rfl).course
    | error reason =>
      obtain ⟨tasks, due, journal, hlose, heased⟩ := lose_spec { s with link } m reason
      simp only [hlose]
      have hlost : Follows s { s with link := (link.writeFailed m reason).2, tasks, ready := s.ready ++ due, journal }
          [.take, .lose reason] := by
        intro x hx
        refine ⟨?_, ?_, ?_, hx.reading⟩
        · simp [Exchange.act, hx.hand, hx.link, htake, Exchange.note]
        · simp [Exchange.act, hx.hand, hx.link, htake, Exchange.note]
        · simpa [Exchange.act, hx.hand, hx.link, htake, Exchange.note] using hx.runEnd
      exact (Change.linked hlost (heased.append _) rfl).course

/-! ## Programs -/

section Running

variable {s : Session} {id : TaskId} {role : Role} {p : Program} {outer : List (Exit → Program)}

theorem live_of_running (running : s.focus = .running id role p outer) :
    s.live = s.tasks ++ [⟨id, role, .turn p, outer⟩] := by
  rw [live, running]
  rfl

/-- The task that runs goes on, or waits. -/
theorem course_advance (running : s.focus = .running id role p outer) {s' : Session} {u : Task}
    {deeds : List Deed} (advance : Advance ⟨id, role, .turn p, outer⟩ u deeds) (hlink : s'.link = s.link)
    (hreader : s'.reader = s.reader) (hfocus : s'.focus ≠ .reading) (hlive : s'.live = s.tasks ++ [u])
    (hnext : s'.nextTask = s.nextTask) : Course s s' deeds := by
  have hfollows : Follows s s' [] := follows_nil hlink (by rw [hreader]) fun h => absurd h hfocus
  exact (Change.advanced advance hfollows (live_of_running running) hlive hnext).course

/-- Code has ended: its caller goes on, or else the task is over and its request is answered. -/
theorem course_leave (exit : Exit) (running : s.focus = .running id role exit.program outer) :
    Course s (s.leave id role exit outer) (leaveDeeds id role exit outer) := by
  cases outer with
  | cons next outer =>
    have hback := Advance.back (t := ⟨id, role, .turn exit.program, next :: outer⟩) rfl rfl
    have hdeeds : leaveDeeds id role exit (next :: outer) = if outer.isEmpty then [.returned id exit] else [] := by
      cases outer <;> rfl
    rw [hdeeds]
    exact course_advance running hback rfl rfl (by simp [leave]) rfl rfl
  | nil =>
    obtain ⟨due, journal, writerDue, inFlight, runEnd, hconclude⟩ :=
      conclude_spec { s with focus := .idle } exit role
    have hfollows : Follows s { s with focus := .idle } [] := follows_nil rfl Iff.rfl (by simp)
    have hlive : s.live = live { s with focus := .idle } ++ [⟨id, role, .turn exit.program, []⟩] := by
      simp [live, running, Focus.task?]
    -- first the task is over, and then its reply is queued
    have hfinished : Change s { s with focus := .idle } [.finished id role exit] :=
      .finished (t := ⟨id, role, .turn exit.program, []⟩) rfl rfl hfollows hlive rfl
    refine .cons hfinished ?_
    show Course _ (conclude { s with focus := .idle } exit role) _
    rw [hconclude]
    cases role.reply? exit with
    | none => exact course_nothing rfl (.refl _) Iff.rfl (by simp) rfl
    | some reply =>
      refine course_link (fun x hx => ⟨?_, hx.hand, rfl⟩) (.refl _) rfl (by simp) rfl
      rw [Exchange.act, hx.link]
      rfl

/-- A notification is queued, and the program goes on. -/
theorem course_notify {method : String} {args : List Value} {next : Program}
    (running : s.focus = .running id role (.notify method args next) outer) :
    Course s (s.runStep id role outer (.notify method args next)) [.link (.notify method args)] := by
  have hsent : Course s { s with link := s.link.notify method args } [.link (.notify method args)] := by
    refine course_link (fun x hx => ⟨?_, hx.hand, rfl⟩) (.refl _) rfl (fun h => h) rfl
    rw [Exchange.act, hx.link]
    rfl
  have hon : Course { s with link := s.link.notify method args }
      (s.runStep id role outer (.notify method args next)) [] := by
    rw [runStep, sending_eq]
    exact course_advance (s := { s with link := s.link.notify method args }) running (.notify rfl) rfl rfl
      (by simp [report]) rfl rfl
  exact hsent.trans hon

/-- A call is registered and its task waits, or it is refused and the program goes on. -/
theorem course_invoke {method : String} {args : List Value} {release : Workspace → Workspace}
    {next : CallResult → Program} (running : s.focus = .running id role (.invoke method args release next) outer) :
    Course s (s.runStep id role outer (.invoke method args release next)) [.link (.invoke id method args)] := by
  -- whatever comes of it, first the link changes as its act says
  have hasked : ∀ {l : Link TaskId}, (∀ x : Exchange TaskId, Mirrors s x →
      (x.act (.invoke id method args)).link = l ∧ (x.act (.invoke id method args)).hand = none ∧
        (x.act (.invoke id method args)).runEnd = x.runEnd) →
      Course s { s with link := l } [.link (.invoke id method args)] :=
    fun hact => course_link hact (.refl _) rfl (fun h => h) rfl
  rw [runStep]
  cases hinvoke : s.link.invoke id method args with
  | none =>
    have hsearch := hasked (l := s.link) fun x hx => by simp [Exchange.act, hx.link, hinvoke, hx.hand]
    have hon : Course s { s with focus := .running id role (.invoke method args release next) outer } [] := by
      refine course_nothing rfl ?_ Iff.rfl (by simp) rfl
      rw [live, running]
      exact .refl _
    exact hsearch.trans hon
  | some answer =>
    cases answer with
    | error reason =>
      have hrefused := hasked (l := s.link) fun x hx => by
        simp [Exchange.act, hx.link, hinvoke, hx.hand, Exchange.note]
      exact hrefused.trans (course_advance running (.refused reason rfl) rfl rfl (by simp) rfl rfl)
    | ok accepted =>
      obtain ⟨call, link⟩ := accepted
      have hcalled := hasked (l := link) fun x hx => by
        simp [Exchange.act, hx.link, hinvoke, hx.hand, Exchange.note]
      refine hcalled.trans ?_
      simp only [sending_eq]
      exact course_advance (s := { s with link }) running (.invoke call rfl) rfl rfl (by simp [report, suspend])
        (by simp [live, report, suspend, Focus.task?]) rfl

/-- A program does one thing. -/
theorem course_runStep (running : s.focus = .running id role p outer) :
    Course s (s.runStep id role outer p) (s.runDeeds id role outer p) := by
  cases p with
  | finish e => exact course_leave (.ended e) running
  | panic text => exact course_leave (.panicked text) running
  | record entry next => exact course_advance running (.record rfl) rfl rfl (by simp [runStep, record]) rfl rfl
  | report n next => exact course_advance running (.report rfl) rfl rfl (by simp [runStep, report]) rfl rfl
  | access change next =>
    exact course_advance running (.access s.workspace rfl) rfl rfl (by simp [runStep]) rfl rfl
  | ensure change next => exact course_advance running (.ensure rfl) rfl rfl (by simp [runStep]) rfl rfl
  | keep code next => exact course_advance running (.keep s.code.size rfl) rfl rfl (by simp [runStep]) rfl rfl
  | run code input next =>
    exact course_advance running (.call (s.codeOf code input) rfl) rfl rfl (by simp [runStep]) rfl rfl
  | notify method args next => exact course_notify running
  | invoke method args release next => exact course_invoke running
  | await gate next =>
    rw [runStep]
    split
    · exact course_advance running (.pass rfl) rfl rfl (by simp) rfl rfl
    · exact course_advance running (.await rfl) rfl rfl (by simp [suspend]) (by simp [live, suspend, Focus.task?]) rfl

end Running

/-! ## Turns -/

theorem course_begin {s : Session} (idle : s.focus = .idle) (turn : Turn) :
    Course s (s.begin turn) (s.beginDeeds turn) := by
  have hlive : s.live = s.tasks ++ [] := by rw [live, idle]; rfl
  -- the focus changes to something that is no task
  have hturn : ∀ {focus : Focus}, focus.task? = none → (focus = .reading → s.reader ≠ .ended) →
      Course s { s with focus } [] := by
    intro focus hnone hreading
    refine course_nothing rfl ?_ Iff.rfl (fun h => Or.inr (hreading h)) rfl
    rw [hlive, live, hnone]
    exact .refl _
  cases turn with
  | writer => exact hturn rfl Focus.noConfusion
  | reader =>
    rw [begin, beginDeeds]
    by_cases hdue : s.reader = .due
    · rw [if_neg (not_not.mpr hdue)]
      by_cases hstop : s.stopping = true
      · rw [if_pos hstop, if_pos ⟨hdue, hstop⟩]
        exact course_stopRun idle hdue
      · rw [if_neg hstop, if_neg (by simp [hstop])]
        exact hturn rfl fun _ => by simp [hdue]
    · rw [if_pos hdue, if_neg (by simp [hdue])]
      exact .nil s
  | task id =>
    rw [begin, beginDeeds]
    cases hfind : s.task? id with
    | none => exact .nil s
    | some t =>
      obtain ⟨hmem, hid⟩ := mem_of_task? hfind
      obtain ⟨own, role, wait, outer⟩ := t
      obtain rfl : own = id := hid
      cases wait with
      | reply call release next => exact .nil s
      | gate name next => exact .nil s
      | turn p =>
        refine course_nothing rfl ?_ Iff.rfl (fun h => nomatch h) rfl
        rw [hlive, List.append_nil]
        exact Eased.pick hmem

/-- A session that does nothing has nothing to tell. -/
theorem stepDeeds_of_none {s : Session} (h : s.step = none) : s.stepDeeds = [] := by
  unfold step at h
  unfold stepDeeds
  cases hfocus : s.focus with
  | idle =>
    cases hready : s.ready with
    | nil => rfl
    | cons turn rest => simp [hfocus, hready] at h
  | _ => simp [hfocus] at h

/-- **Every step is a course**, and its record says which. -/
theorem course_step {s s' : Session} (h : s.step = some s') : Course s s' s.stepDeeds := by
  unfold step at h
  split at h
  · rename_i hfocus
    have hdeeds : s.stepDeeds = s.readDeeds s.connection.receive.1 := by rw [stepDeeds, hfocus]
    rw [hdeeds, ← Option.some.inj h]
    exact course_readStep hfocus
  · rename_i hfocus
    have hdeeds : s.stepDeeds = s.writeDeeds := by rw [stepDeeds, hfocus]
    rw [hdeeds, ← Option.some.inj h]
    exact course_writeStep hfocus
  · rename_i id role p outer hfocus
    have hdeeds : s.stepDeeds = s.runDeeds id role outer p := by rw [stepDeeds, hfocus]
    rw [hdeeds, ← Option.some.inj h]
    exact course_runStep hfocus
  · rename_i hfocus
    split at h
    · simp at h
    · rename_i turn rest hready
      have hdeeds : s.stepDeeds = s.beginDeeds turn := by rw [stepDeeds, hfocus, hready]
      have htaken : Course s { s with ready := rest } [] := course_beside rfl rfl rfl rfl rfl
      rw [hdeeds, ← Option.some.inj h]
      exact htaken.trans (course_begin (s := { s with ready := rest }) hfocus turn)

/-! ## Moves -/

theorem course_wakeReader (s : Session) : Course s s.wakeReader [] := by
  rw [wakeReader_eq]
  refine course_nothing rfl (.refl _) ?_ Or.inl rfl
  show (if s.reader = .waiting then ReaderPhase.due else s.reader) = .ended ↔ _
  split
  · rename_i hwaiting
    simp [hwaiting]
  · exact Iff.rfl

theorem course_shutdown (s : Session) : Course s s.shutdown [.link (.close .closed)] := by
  obtain ⟨tasks, due, journal, hclose, heased⟩ := s.closeWith_spec .closed
  unfold shutdown
  rw [hclose]
  refine course_link (fun x hx => ⟨?_, hx.hand, rfl⟩) (heased.append _) rfl (fun h => h) rfl
  rw [Exchange.act, hx.link]
  rfl

theorem course_abandon (s : Session) (tag : String) : Course s (s.abandon tag) (s.moveDeeds (.abandon tag)) := by
  rw [abandon, moveDeeds]
  cases hfind : s.tasks.find? (hasTag tag) with
  | none => exact .nil s
  | some t =>
    have hmem : t ∈ s.tasks := List.mem_of_find?_eq_some hfind
    have hplain : t.role.handler? = none := by
      have htag := List.find?_some hfind
      unfold hasTag at htag
      split at htag
      · rename_i hrole
        simp [hrole, Role.handler?]
      · simp at htag
    have hnoted : Course s s [.link (.abandon t.id)] :=
      course_link (fun x hx => ⟨hx.link, hx.hand, rfl⟩) (.refl _) rfl (fun h => h) rfl
    have hdropped : Change s { s.removeTask t.id with workspace := releaseOf t.wait s.workspace } [] := by
      refine .dropped hplain (follows_nil rfl Iff.rfl Or.inl) (fun hnodup => ?_) rfl
      rw [live, List.map_append] at hnodup
      exact (perm_cons_filter hmem (List.nodup_append.mp hnodup).1).append_right _
    exact hnoted.trans hdropped.course

/-- **Every move is a course**, and its record says which. -/
theorem course_move (s : Session) (m : Move) : Course s (s.move m) (s.moveDeeds m) := by
  have harrives : ∀ connection host, Course s (wakeReader { s with connection, host }) [] := by
    intro connection host
    have hends : Course s { s with connection, host } [] := course_beside rfl rfl rfl rfl rfl
    exact hends.trans (course_wakeReader _)
  cases m with
  | step =>
    rw [move, moveDeeds]
    cases hstep : s.step with
    | none =>
      rw [Option.getD_none, stepDeeds_of_none hstep]
      exact .nil s
    | some s' => exact course_step hstep
  | start =>
    show Course s (if s.reader = .notStarted then _ else _) []
    split
    · rename_i hnew
      exact course_nothing rfl (.refl _) (by simp [enqueue, hnew]) Or.inl rfl
    · exact .nil s
  | shutdown => exact s.course_shutdown
  | requestStop =>
    have hstop : Course s { s with stopping := true } [] := course_beside rfl rfl rfl rfl rfl
    exact hstop.trans (course_wakeReader _)
  | callFacade tag p => exact s.course_spawn rfl p
  | perform p => exact s.course_spawn rfl p
  | abandon tag => exact s.course_abandon tag
  | openGate gate =>
    obtain ⟨tasks, due, hresume, heased⟩ := resumeGate_spec { s with openGates := gate :: s.openGates } gate
    show Course s (resumeGate { s with openGates := gate :: s.openGates } gate) []
    rw [hresume]
    exact course_nothing rfl (heased.append _) Iff.rfl Or.inl rfl
  | report n => exact course_beside rfl rfl rfl rfl rfl
  | handOver id method args =>
    rw [move, moveDeeds]
    rcases s.course_dispatchRequest id method args with ⟨-, t, herror, -, -, hcourse⟩ | ⟨-, t, hok, hcourse⟩
    · rw [herror]
      exact hcourse
    · rw [hok]
      exact hcourse
  | hostSend m =>
    rw [move, hostSend]
    by_cases hclosed : s.host.closed = true
    · rw [if_pos hclosed]
      exact .nil s
    · rw [if_neg hclosed]
      exact harrives _ _
  | hostWrite bytes => exact harrives _ s.host
  | hostHangUp => exact harrives _ _
  | hostLeave => exact harrives _ _
  | hostRead => exact course_beside rfl rfl rfl rfl rfl
  | forget => exact course_beside rfl rfl rfl rfl rfl
  | reorder turns => exact course_beside rfl rfl rfl rfl rfl

end EditorLink.Session
