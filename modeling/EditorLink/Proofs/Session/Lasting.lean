import EditorLink.Proofs.Extension.Runs
import EditorLink.Proofs.Session.Aside
import EditorLink.Proofs.Session.Tending

/-!
# EditorLink.Proofs.Session.Lasting -- no task is lost

A task that is unfinished before a move is so afterwards, the same or gone on with what it waited for (`Lasts`), unless it is the one that works
in this move or the one that is dropped in it (`lot_move`). So what is known of a task can be followed until it does something itself, and what
it is then is what its program makes of it in one step (`Becomes`).
-/

namespace EditorLink.Session

open Extension

/-- Unfinished tasks have different ids, and the next one is above them. -/
structure Sound (s : Session) : Prop where
  distinct : Distinct s
  fresh : ∀ t ∈ s.live, t.id < s.nextTask

theorem sound_after (setup : Setup) (moves : List Move) : Sound (Chronicle.after setup moves).session :=
  ⟨(kept_after setup moves).live_nodup, (kept_after setup moves).fresh⟩

theorem Sound.eq_of_id {s : Session} (h : Sound s) {t u : Task} (ht : t ∈ s.live) (hu : u ∈ s.live) (heq : u.id = t.id) : u = t :=
  eq_of_id_eq h.distinct ht hu heq

/-- Every unfinished task is still there, the same or gone on. -/
def Lasts (s s' : Session) : Prop :=
  Sound s → Sound s' ∧ ∀ t ∈ s.live, ∃ u ∈ s'.live, t.Resumes u

namespace Lasts

variable {s t s' : Session}

theorem same (hlive : s'.live = s.live) (hnext : s'.nextTask = s.nextTask) : Lasts s s' := by
  refine fun sound => ⟨⟨?_, ?_⟩, fun u hu => ⟨u, hlive ▸ hu, .same⟩⟩
  · rw [Distinct, hlive]
    exact sound.distinct
  · rw [hlive, hnext]
    exact sound.fresh

theorem refl (s : Session) : Lasts s s :=
  same rfl rfl

theorem trans (hst : Lasts s t) (hts : Lasts t s') : Lasts s s' := by
  intro sound
  obtain ⟨soundNow, hnow⟩ := hst sound
  obtain ⟨soundThen, hthen⟩ := hts soundNow
  refine ⟨soundThen, fun u hu => ?_⟩
  obtain ⟨v, hv, huv⟩ := hnow u hu
  obtain ⟨w, hw, hvw⟩ := hthen v hv
  exact ⟨w, hw, huv.trans hvw⟩

/-- Tasks fall due by what they waited for, and none of them is new. -/
theorem eased (htends : Tends (fun _ => False) s s') (heased : Eased s.tasks s'.tasks) (hfocus : s'.focus = s.focus)
    (hnext : s'.nextTask = s.nextTask) : Lasts s s' := by
  intro sound
  have hlive : Eased s.live s'.live := by
    rw [live, live, hfocus]
    exact heased.append _
  have hkeys := hlive.keys sound.distinct
  have hids := hlive.ids sound.distinct
  refine ⟨⟨hids.nodup_iff.mpr sound.distinct, fun u hu => ?_⟩, fun t ht => ?_⟩
  · obtain ⟨t, ht, heq⟩ := List.mem_map.mp (hids.mem_iff.mp (List.mem_map.mpr ⟨u, hu, rfl⟩))
    exact hnext ▸ heq ▸ sound.fresh t ht
  · obtain ⟨u, hu, heq⟩ := List.mem_map.mp (hkeys.mem_iff.mpr (List.mem_map.mpr ⟨t, ht, rfl⟩))
    have hid : u.id = t.id := congrArg Prod.fst heq
    obtain ⟨v, hv, hvu⟩ : ∃ v ∈ s.live, v.Resumes u := by
      rcases List.mem_append.mp hu with hu | hu
      · rcases htends.tasks u hu with ⟨v, hv, hvu⟩ | ⟨-, p, hp, -⟩
        · exact ⟨v, List.mem_append_left _ hv, hvu⟩
        · exact hp.elim
      · exact ⟨u, List.mem_append_right _ (hfocus ▸ hu), .same⟩
    have hvid : v.id = t.id := hvu.id_eq.symm.trans hid
    obtain rfl := sound.eq_of_id ht hv hvid
    exact ⟨u, hu, hvu⟩

theorem complete (s : Session) (c : Completion TaskId) : Lasts s (s.complete c) := by
  have htends : Tends (fun _ => False) s (s.complete c) := .complete s c
  obtain ⟨tasks, due, hcomplete, heased⟩ := s.complete_spec c
  rw [hcomplete] at htends ⊢
  exact eased htends heased rfl rfl

theorem resumeGate (s : Session) (gate : String) : Lasts s (s.resumeGate gate) := by
  have htends : Tends (fun _ => False) s (s.resumeGate gate) := .resumeGate s gate
  obtain ⟨tasks, due, hresume, heased⟩ := s.resumeGate_spec gate
  rw [hresume] at htends ⊢
  exact eased htends heased rfl rfl

theorem closeWith (s : Session) (reason : TransportError) : Lasts s (s.closeWith reason) := by
  have htends : Tends (fun _ => False) s (s.closeWith reason) := .closeWith s reason
  obtain ⟨tasks, due, journal, hclose, heased⟩ := s.closeWith_spec reason
  rw [hclose] at htends ⊢
  exact eased htends heased rfl rfl

theorem lose (s : Session) (m : Message) (reason : TransportError) : Lasts s (s.lose m reason) := by
  have htends : Tends (fun _ => False) s (s.lose m reason) := .lose s m reason
  obtain ⟨tasks, due, journal, hlose, heased⟩ := s.lose_spec m reason
  rw [hlose] at htends ⊢
  exact eased htends heased rfl rfl

theorem wakeReader (s : Session) : Lasts s s.wakeReader := by
  rw [wakeReader_eq]
  exact same rfl rfl

/-- A task begins under the next id. -/
theorem born {u : Task} (hid : u.id = s.nextTask) (hlive : s'.live.Perm (u :: s.live)) (hnext : s'.nextTask = s.nextTask + 1) :
    Lasts s s' := by
  intro sound
  have hdistinct : (s.live.map (·.id)).Nodup := sound.distinct
  refine ⟨⟨?_, fun v hv => ?_⟩, fun v hv => ⟨v, hlive.mem_iff.mpr (List.mem_cons_of_mem _ hv), .same⟩⟩
  · refine (hlive.map (·.id)).nodup_iff.mpr (List.nodup_cons.mpr ⟨fun hmem => ?_, hdistinct⟩)
    obtain ⟨v, hv, heq⟩ := List.mem_map.mp hmem
    exact Nat.lt_irrefl _ ((heq.trans hid) ▸ sound.fresh v hv)
  · rw [hnext]
    rcases List.mem_cons.mp (hlive.mem_iff.mp hv) with rfl | hv
    · exact hid ▸ Nat.lt_succ_self _
    · exact Nat.lt_succ_of_lt (sound.fresh v hv)

theorem spawn (s : Session) (role : Role) (p : Program) : Lasts s (s.spawn role p) :=
  born (u := ⟨s.nextTask, role, .turn p, []⟩) rfl (live_spawn s role p) rfl

/-- The last part of a run begins while nobody works. -/
theorem farewellWith (nobody : s.focus.task? = none) (result : Except Failure Unit) : Lasts s (s.farewellWith result) := by
  refine born (u := ⟨s.nextTask, .farewell result, .turn s.farewell, []⟩) rfl ?_ rfl
  rw [live, live, nobody, Option.toList_none, List.append_nil]
  exact List.perm_append_singleton _ _

theorem endReading (nobody : s.focus.task? = none) (result : Except Failure Unit) : Lasts s (s.endReading result) := by
  have hclose := closeWith s (closeReason result)
  have hnobody : (s.closeWith (closeReason result)).focus.task? = none := by
    obtain ⟨tasks, due, journal, hclosed, -⟩ := s.closeWith_spec (closeReason result)
    rw [hclosed]
    exact nobody
  unfold Session.endReading
  cases result with
  | ok => exact hclose.trans (farewellWith hnobody _)
  | error e =>
    have hreport : Lasts (s.closeWith (closeReason (.error e))) ((s.closeWith (closeReason (.error e))).report (.readEnded e)) := same rfl rfl
    have hfarewell := farewellWith (s := (s.closeWith (closeReason (.error e))).report (.readEnded e)) hnobody (.error e)
    exact (hclose.trans hreport).trans hfarewell

theorem stopRun (nobody : s.focus.task? = none) : Lasts s s.stopRun := by
  have hreport : Lasts s (s.report .stopRequested) := same rfl rfl
  have hclose := closeWith (s.report .stopRequested) .closed
  refine (hreport.trans hclose).trans (farewellWith ?_ _)
  obtain ⟨tasks, due, journal, hclosed, -⟩ := (s.report .stopRequested).closeWith_spec .closed
  rw [hclosed]
  exact nobody

theorem dispatchRequest (s : Session) (id : UInt32) (method : String) (args : List Value) :
    ∃ t, (s.dispatchRequest id method args = .ok t ∨ s.dispatchRequest id method args = .error t ∧ t.focus = s.focus) ∧ Lasts s t := by
  rcases s.dispatchRequest_spec id method args with ⟨-, due, journal, writerDue, herror⟩ | ⟨-, hok⟩
  · exact ⟨_, Or.inr ⟨herror, rfl⟩, same rfl rfl⟩
  · have htaken : Lasts s { s with inFlight := s.inFlight + 1 } := same rfl rfl
    exact ⟨_, Or.inl hok, htaken.trans (spawn _ _ _)⟩

theorem handle (nobody : s.focus.task? = none) (m : Message) : Lasts s (s.handle m) := by
  cases m with
  | reply id outcome =>
    have hreport : Lasts s (s.report (.replyReceived id outcome.isOk)) := same rfl rfl
    simp only [Session.handle, Link.resolve]
    cases (s.report (.replyReceived id outcome.isOk)).link.find? id with
    | none =>
      have hend := endReading (s := s.report (.replyReceived id outcome.isOk)) nobody (.error (.unmatchedReply id))
      exact hreport.trans hend
    | some call =>
      simp only
      split
      · refine trans ?_ (complete _ _)
        exact same rfl rfl
      · refine trans ?_ (complete _ _)
        exact same rfl rfl
  | notify method args =>
    simp only [Session.handle, dispatch]
    split
    · next heq =>
      split at heq
      · cases heq
      · obtain rfl := Except.ok.inj heq
        have htaken : Lasts s { s with inFlight := s.inFlight + 1 } := same rfl rfl
        exact htaken.trans (spawn _ _ _)
    · next heq =>
      split at heq
      · obtain rfl := Except.error.inj heq
        have hreport : Lasts s (s.report (.limitReached method s.limit)) := same rfl rfl
        have hend := endReading (s := s.report (.limitReached method s.limit)) nobody (.error (.dispatchExhausted s.limit))
        exact hreport.trans hend
      · cases heq
  | request id method args =>
    rw [Session.handle]
    obtain ⟨t, ht | ⟨ht, hfocus⟩, hlasts⟩ := dispatchRequest s id method args
    · rw [ht]
      exact hlasts
    · rw [ht]
      exact hlasts.trans (endReading (hfocus ▸ nobody) _)

theorem readStep (nobody : s.focus.task? = none) : Lasts s s.readStep := by
  unfold Session.readStep
  generalize s.connection.receive = received
  obtain ⟨received, connection⟩ := received
  have hconnection : Lasts s { s with connection } := same rfl rfl
  cases received with
  | message m =>
    have hhandle := handle (s := { s with connection }) nobody m
    exact hconnection.trans hhandle
  | again => exact hconnection
  | blocked =>
    refine same ?_ rfl
    rw [live, live, nobody]
    rfl
  | finished =>
    have hreport : Lasts s (report { s with connection } .hostClosed) := same rfl rfl
    have hend := endReading (s := report { s with connection } .hostClosed) nobody (.ok ())
    exact hreport.trans hend
  | failed e =>
    have hend := endReading (s := { s with connection }) nobody (.error (.transport e))
    exact hconnection.trans hend

theorem writeStep (nobody : s.focus.task? = none) : Lasts s s.writeStep := by
  unfold Session.writeStep
  split
  · refine same ?_ rfl
    rw [live, live, nobody]
    rfl
  · next m link _ =>
    have htaken : Lasts s { s with link } := same rfl rfl
    simp only
    split
    · exact htaken.trans (same rfl rfl)
    · exact htaken.trans (lose _ m _)

theorem begin (nobody : s.focus.task? = none) (turn : Turn) : Lasts s (s.begin turn) := by
  have hfocus : ∀ focus : Focus, focus.task? = none → Lasts s { s with focus } := by
    intro focus hnobody
    refine same ?_ rfl
    rw [live, live, nobody, hnobody]
  cases turn with
  | writer => exact hfocus .writing rfl
  | reader =>
    rw [Session.begin]
    split
    · exact refl s
    · split
      · exact stopRun nobody
      · exact hfocus .reading rfl
  | task id =>
    rw [Session.begin]
    split
    · next own role p outer hfind =>
      obtain ⟨hmem, hid⟩ := mem_of_task? hfind
      obtain rfl : own = id := hid
      intro sound
      have hdistinct : (s.live.map (·.id)).Nodup := sound.distinct
      have hnodup : (s.tasks.map (·.id)).Nodup := by
        rw [live, List.map_append] at hdistinct
        exact (List.nodup_append.mp hdistinct).1
      -- the task is taken out and runs
      have hlive : List.Perm (live { s.removeTask own with focus := .running own role p outer }) s.live := by
        rw [live, live, nobody]
        refine (List.perm_append_singleton _ _).trans ?_
        rw [Option.toList_none, List.append_nil]
        exact (perm_cons_filter hmem hnodup).symm
      have hnow := ((hlive.map (·.id)).nodup_iff).mpr hdistinct
      exact ⟨⟨hnow, fun u hu => sound.fresh u (hlive.mem_iff.mp hu)⟩, fun u hu => ⟨u, hlive.mem_iff.mpr hu, .same⟩⟩
    · exact refl s

theorem step (h : s.step = some s') (nobody : s.focus.task? = none) : Lasts s s' := by
  unfold Session.step at h
  split at h
  · exact Option.some.inj h ▸ readStep nobody
  · exact Option.some.inj h ▸ writeStep nobody
  · next hfocus =>
    rw [hfocus] at nobody
    cases nobody
  · split at h
    · cases h
    · next turn rest _ =>
      have htaken : Lasts s { s with ready := rest } := same rfl rfl
      have hbegin := begin (s := { s with ready := rest }) nobody turn
      exact Option.some.inj h ▸ htaken.trans hbegin

theorem arrive (s : Session) (connection : LocalEnd) (host : HostEnd) : Lasts s (Session.wakeReader { s with connection, host }) := by
  have harrived : Lasts s { s with connection, host } := same rfl rfl
  exact harrived.trans (wakeReader _)

end Lasts

/-- **In a move in which nobody works and no caller goes away, all tasks last.** -/
theorem lasts_move {s : Session} {m : Move} (nobody : m = .step → s.focus.task? = none) (keeps : ∀ tag, m ≠ .abandon tag) :
    Lasts s (s.move m) := by
  cases m with
  | step =>
    cases hstep : s.step with
    | none =>
      rw [move, hstep]
      exact Lasts.refl s
    | some s' =>
      rw [move, hstep]
      exact Lasts.step hstep (nobody rfl)
  | start =>
    show Lasts s (if s.reader = .notStarted then _ else _)
    split <;> exact Lasts.same rfl rfl
  | shutdown => exact Lasts.closeWith s .closed
  | requestStop =>
    have hstopping : Lasts s { s with stopping := true } := Lasts.same rfl rfl
    exact hstopping.trans (Lasts.wakeReader _)
  | callFacade tag p => exact Lasts.spawn s _ p
  | perform p => exact Lasts.spawn s _ p
  | abandon tag => exact absurd rfl (keeps tag)
  | openGate gate =>
    have hopened : Lasts s { s with openGates := gate :: s.openGates } := Lasts.same rfl rfl
    exact hopened.trans (Lasts.resumeGate _ gate)
  | handOver id method args =>
    obtain ⟨t, ht | ⟨ht, -⟩, hlasts⟩ := Lasts.dispatchRequest s id method args
    · rw [move, ht]
      exact hlasts
    · rw [move, ht]
      exact hlasts
  | hostSend m =>
    rw [move, hostSend]
    by_cases hclosed : s.host.closed = true
    · rw [if_pos hclosed]
      exact Lasts.refl s
    · rw [if_neg hclosed]
      exact Lasts.arrive s _ s.host
  | hostWrite bytes => exact Lasts.arrive s _ s.host
  | hostHangUp => exact Lasts.arrive s _ _
  | hostLeave => exact Lasts.arrive s _ _
  | _ => exact Lasts.same rfl rfl

/-! ## What becomes of a task -/

/-- What the task of a program waits for when the program has done one thing, and what has called it then. -/
inductive Becomes (s : Session) : Program → List (Exit → Program) → Wait → List (Exit → Program) → Prop
  | record {entry : Value} {next : Program} {outer : List (Exit → Program)} : Becomes s (.record entry next) outer (.turn next) outer
  | report {notice : Notice} {next : Program} {outer : List (Exit → Program)} : Becomes s (.report notice next) outer (.turn next) outer
  | access {change : Workspace → Workspace} {next : Workspace → Program} {outer : List (Exit → Program)} :
      Becomes s (.access change next) outer (.turn (next s.workspace)) outer
  | ensure {change : Workspace → Workspace} {next : Program} {outer : List (Exit → Program)} :
      Becomes s (.ensure change next) outer (.turn next) outer
  | keep {code : Input → Program} {next : Registry.CodeId → Program} {outer : List (Exit → Program)} :
      Becomes s (.keep code next) outer (.turn (next s.code.size)) outer
  | call {code : Registry.CodeId} {input : Input} {next : Exit → Program} {outer : List (Exit → Program)} :
      Becomes s (.run code input next) outer (.turn (s.codeOf code input)) (next :: outer)
  | back {p : Program} {exit : Exit} {next : Exit → Program} {outer : List (Exit → Program)} (ends : p = exit.program) :
      Becomes s p (next :: outer) (.turn (next exit)) outer
  | notify {method : String} {args : List Value} {next : Program} {outer : List (Exit → Program)} :
      Becomes s (.notify method args next) outer (.turn next) outer
  | retries {method : String} {args : List Value} {release : Workspace → Workspace} {next : CallResult → Program}
      {outer : List (Exit → Program)} :
      Becomes s (.invoke method args release next) outer (.turn (.invoke method args release next)) outer
  | refused {method : String} {args : List Value} {release : Workspace → Workspace} {next : CallResult → Program}
      {outer : List (Exit → Program)} (reason : TransportError) :
      Becomes s (.invoke method args release next) outer (.turn (next (.error (.transport reason)))) outer
  | invoked {method : String} {args : List Value} {release : Workspace → Workspace} {next : CallResult → Program}
      {outer : List (Exit → Program)} (call : UInt32) :
      Becomes s (.invoke method args release next) outer (.reply call release next) outer
  | passes {gate : String} {next : Program} {outer : List (Exit → Program)} : Becomes s (.await gate next) outer (.turn next) outer
  | awaits {gate : String} {next : Program} {outer : List (Exit → Program)} : Becomes s (.await gate next) outer (.gate gate next) outer

/-- Code that has not ended leaves all that have called it where they are; code that has goes back to the first of them. -/
theorem Becomes.outer_cases {s : Session} {p : Program} {outer outer' : List (Exit → Program)} {wait : Wait}
    (h : Becomes s p outer wait outer') :
    ((∀ exit : Exit, p ≠ exit.program) ∧ ∃ more, outer' = more ++ outer) ∨
      ∃ exit next, p = exit.program ∧ outer = next :: outer' ∧ wait = .turn (next exit) := by
  cases h with
  | back ends => exact Or.inr ⟨_, _, ends, rfl, rfl⟩
  | call =>
    refine Or.inl ⟨fun exit hexit => ?_, [_], rfl⟩
    cases exit <;> cases hexit
  | _ =>
    refine Or.inl ⟨fun exit hexit => ?_, [], rfl⟩
    cases exit <;> cases hexit

/-- After a step of a program its task is over, works on, or waits for something other than its turn. -/
inductive Worked (s s' : Session) (id : TaskId) (role : Role) (p : Program) (outer : List (Exit → Program)) : Prop
  | ended {exit : Exit} (ends : p = exit.program) (own : outer = []) (focus : s'.focus = .idle) (tasks : s'.tasks = s.tasks)
  | on {q : Program} {outer' : List (Exit → Program)} (becomes : Becomes s p outer (.turn q) outer')
      (focus : s'.focus = .running id role q outer') (tasks : s'.tasks = s.tasks)
  | waits {wait : Wait} {outer' : List (Exit → Program)} (becomes : Becomes s p outer wait outer') (other : ∀ q, wait ≠ .turn q)
      (focus : s'.focus = .idle) (tasks : s'.tasks = s.tasks ++ [⟨id, role, wait, outer'⟩])

theorem worked_leave (s : Session) (id : TaskId) (role : Role) (exit : Exit) (outer : List (Exit → Program)) :
    Worked s (s.leave id role exit outer) id role exit.program outer := by
  cases outer with
  | cons next outer => exact .on (.back rfl) rfl rfl
  | nil =>
    obtain ⟨due, journal, writerDue, inFlight, runEnd, hconclude⟩ := conclude_spec { s with focus := .idle } exit role
    rw [leave, hconclude]
    exact .ended rfl rfl rfl rfl

/-- **What a program makes of its task.** All other tasks wait as they did. -/
theorem worked_runStep (s : Session) (id : TaskId) (role : Role) (outer : List (Exit → Program)) (p : Program) :
    Worked s (s.runStep id role outer p) id role p outer := by
  cases p with
  | finish e => exact s.worked_leave id role (.ended e) outer
  | panic text => exact s.worked_leave id role (.panicked text) outer
  | record entry next => exact .on .record rfl rfl
  | report notice next => exact .on .report rfl rfl
  | access change next => exact .on .access rfl rfl
  | ensure change next => exact .on .ensure rfl rfl
  | keep code next => exact .on .keep rfl rfl
  | run code input next => exact .on .call rfl rfl
  | notify method args next =>
    rw [runStep, sending_eq]
    exact .on .notify rfl rfl
  | invoke method args release next =>
    rw [runStep]
    split
    · exact .on .retries rfl rfl
    · exact .on (.refused _) rfl rfl
    · rw [sending_eq]
      exact .waits (.invoked _) (fun exit => by cases exit <;> simp) rfl rfl
  | await gate next =>
    rw [runStep]
    split
    · exact .on .passes rfl rfl
    · exact .waits .awaits (fun exit => by cases exit <;> simp) rfl rfl

theorem Worked.others {s s' : Session} {id : TaskId} {role : Role} {p : Program} {outer : List (Exit → Program)}
    (h : Worked s s' id role p outer) {t : Task} (ht : t ∈ s.tasks) : t ∈ s'.tasks := by
  cases h with
  | ended _ _ _ tasks => exact tasks ▸ ht
  | on _ _ tasks => exact tasks ▸ ht
  | waits _ _ _ tasks => exact tasks ▸ List.mem_append_left _ ht

/-- Programs leave registered code alone, but for what they keep. -/
theorem codeOf_runStep (s : Session) (id : TaskId) (role : Role) (outer : List (Exit → Program)) (p : Program) (code : Registry.CodeId) :
    (s.runStep id role outer p).codeOf code = s.codeOf code ∨
      ∃ kept next, p = .keep kept next ∧ (s.runStep id role outer p).codeOf code = kept := by
  have hsame : ∀ {s' : Session}, s'.code = s.code → s'.codeOf code = s.codeOf code := fun h => by rw [codeOf, codeOf, h]
  have hleave : ∀ exit, (s.leave id role exit outer).code = s.code := by
    intro exit
    cases outer with
    | cons next outer => rfl
    | nil =>
      obtain ⟨due, journal, writerDue, inFlight, runEnd, hconclude⟩ := conclude_spec { s with focus := .idle } exit role
      rw [leave, hconclude]
  cases p with
  | finish e => exact Or.inl (hsame (hleave _))
  | panic text => exact Or.inl (hsame (hleave _))
  | keep kept next =>
    by_cases hnew : code = s.code.size
    · refine Or.inr ⟨kept, next, rfl, ?_⟩
      simp [runStep, codeOf, Array.getD_eq_getD_getElem?, hnew]
    · refine Or.inl ?_
      simp [runStep, codeOf, Array.getD_eq_getD_getElem?, Array.getElem?_push, hnew]
  | notify method args next =>
    rw [runStep, sending_eq]
    exact Or.inl (hsame rfl)
  | invoke method args release next =>
    rw [runStep]
    split
    · exact Or.inl (hsame rfl)
    · exact Or.inl (hsame rfl)
    · rw [sending_eq]
      exact Or.inl (hsame rfl)
  | await gate next =>
    rw [runStep]
    split <;> exact Or.inl (hsame rfl)
  | _ => exact Or.inl (hsame rfl)

/-- The three kinds of moves, none of which is another: a program works, a caller goes away, or tasks only go on and begin. -/
inductive Kind (s : Session) (m : Move) : Prop
  | works {id : TaskId} {role : Role} {p : Program} {outer : List (Exit → Program)} (step : m = .step) (focus : s.focus = .running id role p outer)
      (after : s.move m = s.runStep id role outer p)
  | drops {tag : String} {f : Task} (gone : m = .abandon tag) (found : s.tasks.find? (hasTag tag) = some f)
      (after : s.move m = { s.removeTask f.id with workspace := releaseOf f.wait s.workspace })
  | tends (nobody : m = .step → s.focus.task? = none) (nothing : ∀ tag, m = .abandon tag → s.tasks.find? (hasTag tag) = none)
      (tends : Tends (Starts s m) s (s.move m)) (lasts : Lasts s (s.move m))

theorem kind_move (s : Session) (m : Move) : Kind s m := by
  by_cases hdrops : ∃ tag, m = .abandon tag
  · obtain ⟨tag, rfl⟩ := hdrops
    cases hfind : s.tasks.find? (hasTag tag) with
    | none =>
      have hmove : s.move (.abandon tag) = s := by rw [move, abandon, hfind]
      refine .tends (fun h => by cases h) (fun other h => ?_) (by rw [hmove]; exact .refl s) (by rw [hmove]; exact .refl s)
      cases h
      exact hfind
    | some f => exact .drops rfl hfind (by rw [move, abandon, hfind])
  · have hkeeps : ∀ tag, m ≠ .abandon tag := fun tag h => hdrops ⟨tag, h⟩
    by_cases hworks : m = .step ∧ s.focus.task? ≠ none
    · obtain ⟨rfl, hfocus⟩ := hworks
      cases hrunning : s.focus with
      | running id role p outer => exact .works rfl hrunning (move_of_running hrunning)
      | _ => exact absurd (congrArg Focus.task? hrunning) hfocus
    · have hnobody : m = .step → s.focus.task? = none := fun h => by_contra fun hsome => hworks ⟨h, hsome⟩
      exact .tends hnobody (fun tag h => absurd h (hkeeps tag)) (tends_move hnobody hkeeps) (lasts_move hnobody hkeeps)

/-- What becomes of a task in a move: it stays or goes on while it does not work, its program does something, or it is dropped. -/
inductive Lot (s : Session) (m : Move) (t : Task) : Prop
  | lasts {u : Task} (aside : m = .step → ∀ role p outer, s.focus ≠ .running t.id role p outer) (live : u ∈ (s.move m).live) (goes : t.Resumes u)
  | works {p : Program} (step : m = .step) (due : t.wait = .turn p) (focus : s.focus = .running t.id t.role p t.outer)
      (after : s.move m = s.runStep t.id t.role t.outer p)
  | dropped {tag : String} (gone : m = .abandon tag) (found : s.tasks.find? (hasTag tag) = some t)

/-- The task that works has another id than all that wait. -/
theorem ne_of_waiting {s : Session} (sound : Sound s) {id : TaskId} {role : Role} {p : Program} {outer : List (Exit → Program)}
    (focus : s.focus = .running id role p outer) {t : Task} (ht : t ∈ s.tasks) : t.id ≠ id := by
  have hdistinct : (s.live.map (·.id)).Nodup := sound.distinct
  rw [live_of_running focus, List.map_append] at hdistinct
  exact fun heq => (List.nodup_append.mp hdistinct).2.2 t.id (List.mem_map.mpr ⟨t, ht, rfl⟩) id (by simp) heq

theorem running_mem {s : Session} {id : TaskId} {role : Role} {p : Program} {outer : List (Exit → Program)}
    (focus : s.focus = .running id role p outer) : (⟨id, role, .turn p, outer⟩ : Task) ∈ s.live := by
  rw [live_of_running focus]
  exact List.mem_append_right _ (List.mem_singleton_self _)

/-- **No task is lost.** -/
theorem lot_move {s : Session} (sound : Sound s) (m : Move) {t : Task} (ht : t ∈ s.live) : Lot s m t := by
  cases s.kind_move m with
  | @works id role p outer step focus after =>
    rcases List.mem_append.mp ht with ht | ht
    · refine .lasts (fun _ role' p' outer' hfocus => ?_) (List.mem_append_left _ ?_) .same
      · exact ne_of_waiting sound hfocus ht rfl
      · rw [after]
        exact (s.worked_runStep id role outer p).others ht
    · rw [focus] at ht
      obtain rfl := List.mem_singleton.mp ht
      exact .works step rfl focus after
  | @drops tag f gone found after =>
    by_cases heq : t = f
    · exact .dropped gone (heq ▸ found)
    · refine .lasts (u := t) (fun hstep => by cases gone.symm.trans hstep) ?_ .same
      have hf : f ∈ s.live := List.mem_append_left _ (List.mem_of_find?_eq_some found)
      have hid : t.id ≠ f.id := fun hid => heq (sound.eq_of_id hf ht hid)
      rw [after]
      rcases List.mem_append.mp ht with ht | ht
      · exact List.mem_append_left _ (List.mem_filter.mpr ⟨ht, by simpa using hid⟩)
      · exact List.mem_append_right _ ht
  | tends nobody _ _ lasts =>
    obtain ⟨u, hu, htu⟩ := (lasts sound).2 t ht
    refine .lasts (fun hstep role p outer hfocus => ?_) hu htu
    have hnobody := nobody hstep
    rw [hfocus] at hnobody
    cases hnobody

end EditorLink.Session
