import EditorLink.Proofs.Session.Tasks

/-!
# EditorLink.Proofs.Session.Aside -- what goes on beside the reader

What a run comes to is decided by the reader. Everything else that goes on in a session, from handlers and callers to the writer and the
host, leaves alone what the run goes by: the limit and the number of unfinished handlers, whether the run has ended and how, and what is
still to be read (`Spares`). The few moves that do change the number of handlers do so by one handler, whose task begins or ends (`Effect`).
So the number that the reader goes by is always the number of handlers that are unfinished (`Effect.counts`), and no such move makes a
difference to what the run comes to (`Effect.comesTo`).
-/

namespace EditorLink.Session

open Extension Wire

/-! ## What a run goes by -/

/-- Where a run stands. -/
structure Standing where
  limit : Nat
  inFlight : Nat
  farewell : Program
  stopping : Bool
  ended : Bool
  runEnd : Option (Except Failure Unit)

def standing (s : Session) : Standing where
  limit := s.limit
  inFlight := s.inFlight
  farewell := s.farewell
  stopping := s.stopping
  ended := s.reader = .ended
  runEnd := s.runEnd

/-- The result that the end of a task gives to the run. -/
def Role.result? : Role → Option (Except Failure Unit)
  | .farewell result => some result
  | _ => none

/-- The run has ended with this result, or goes through its last part, which will end it so. -/
def ComesTo (s : Session) (result : Except Failure Unit) : Prop :=
  s.runEnd = some result ∨ ∃ t ∈ s.live, t.role.result? = some result

/-- The handlers that are not finished. -/
def unfinished (s : Session) : List (TaskId × Role) :=
  handlers (s.live.map Task.key)

/-- Tasks of different ids are known by their keys. -/
def Distinct (s : Session) : Prop :=
  (s.live.map (·.id)).Nodup

/-- Nothing that a run goes by is touched, and the tasks are the same. -/
structure Spares (s s' : Session) : Prop where
  standing : s'.standing = s.standing
  inlet : s'.connection.inlet = s.connection.inlet
  hostClosed : s.host.closed = true → s'.host.closed = true
  keys : Distinct s → (s'.live.map Task.key).Perm (s.live.map Task.key)

namespace Spares

theorem refl (s : Session) : Spares s s :=
  ⟨rfl, rfl, id, fun _ => .rfl⟩

theorem distinct {s s' : Session} (h : Spares s s') (hdistinct : Distinct s) : Distinct s' := by
  have hids := (h.keys hdistinct).map (·.1)
  rw [map_fst_key, map_fst_key] at hids
  exact hids.nodup_iff.mpr hdistinct

theorem trans {s t u : Session} (hst : Spares s t) (htu : Spares t u) : Spares s u where
  standing := htu.standing.trans hst.standing
  inlet := htu.inlet.trans hst.inlet
  hostClosed := htu.hostClosed ∘ hst.hostClosed
  keys := by
    intro hdistinct
    exact (htu.keys (hst.distinct hdistinct)).trans (hst.keys hdistinct)

/-- Tasks that wait fall due, and nothing else. -/
theorem eased {s s' : Session} (hstanding : s'.standing = s.standing) (hinlet : s'.connection.inlet = s.connection.inlet)
    (hclosed : s.host.closed = true → s'.host.closed = true) (htasks : Eased s.tasks s'.tasks) (hfocus : s'.focus = s.focus) :
    Spares s s' := by
  refine ⟨hstanding, hinlet, hclosed, ?_⟩
  intro hdistinct
  have hlive : Eased s.live s'.live := by
    rw [live, live, hfocus]
    exact htasks.append _
  exact hlive.keys hdistinct

theorem sending (s : Session) (l : Link TaskId) : Spares s (s.sending l) := by
  rw [sending_eq]
  exact eased rfl rfl id (.refl _) rfl

theorem complete (s : Session) (c : Completion TaskId) : Spares s (s.complete c) := by
  obtain ⟨tasks, due, hcomplete, htasks⟩ := s.complete_spec c
  rw [hcomplete]
  exact eased rfl rfl id htasks rfl

theorem closeWith (s : Session) (reason : TransportError) : Spares s (s.closeWith reason) := by
  obtain ⟨tasks, due, journal, hclose, htasks⟩ := s.closeWith_spec reason
  rw [hclose]
  exact eased rfl rfl id htasks rfl

theorem lose (s : Session) (m : Message) (reason : TransportError) : Spares s (s.lose m reason) := by
  obtain ⟨tasks, due, journal, hlose, htasks⟩ := s.lose_spec m reason
  rw [hlose]
  exact eased rfl rfl id htasks rfl

theorem wakeReader (s : Session) : Spares s s.wakeReader := by
  unfold Session.wakeReader
  split
  · next hwaiting =>
    refine eased ?_ rfl id (.refl _) rfl
    simp [Session.standing, enqueue, hwaiting]
  · exact refl s

theorem resumeGate (s : Session) (gate : String) : Spares s (s.resumeGate gate) := by
  obtain ⟨tasks, due, hresume, htasks⟩ := s.resumeGate_spec gate
  rw [hresume]
  exact eased rfl rfl id htasks rfl

/-- What runs changes, and the unfinished tasks are the same. -/
theorem turned {s s' : Session} (hstanding : s'.standing = s.standing) (hinlet : s'.connection.inlet = s.connection.inlet)
    (hclosed : s.host.closed = true → s'.host.closed = true) (hkeys : s'.live.map Task.key = s.live.map Task.key) : Spares s s' :=
  ⟨hstanding, hinlet, hclosed, fun _ => hkeys ▸ .rfl⟩

theorem writeStep {s : Session} (writing : s.focus = .writing) : Spares s s.writeStep := by
  unfold Session.writeStep
  cases s.link.takeOutbound with
  | none =>
    refine turned rfl rfl id ?_
    simp [live, writing, Focus.task?]
  | some taken =>
    obtain ⟨m, link⟩ := taken
    have htaken : Spares s { s with link } := eased rfl rfl id (.refl _) rfl
    simp only
    cases s.connection.send m with
    | ok bytes => exact eased rfl rfl id (.refl _) rfl
    | error reason => exact htaken.trans (lose _ m reason)

section Running

variable {s : Session} {id : TaskId} {role : Role} {p : Program} {outer : List (Exit → Program)}

/-- The task that runs goes on with another program. -/
theorem goesOn (running : s.focus = .running id role p outer) (next : Program) (outer' : List (Exit → Program)) :
    Spares s { s with focus := .running id role next outer' } := by
  refine turned rfl rfl (fun h => h) ?_
  simp [live, running, Focus.task?, Task.key]

/-- The task that runs comes to wait. -/
theorem waits (running : s.focus = .running id role p outer) (wait : Wait) :
    Spares s ({ s with focus := .idle }.suspend ⟨id, role, wait, outer⟩) := by
  refine turned rfl rfl (fun h => h) ?_
  simp [live, running, suspend, Focus.task?, Task.key]

/-- A program does one thing, unless it ends. -/
theorem runStep (running : s.focus = .running id role p outer) (hgoes : ∀ exit : Exit, p ≠ exit.program) :
    Spares s (s.runStep id role outer p) := by
  cases p with
  | finish e => exact absurd rfl (hgoes (.ended e))
  | panic text => exact absurd rfl (hgoes (.panicked text))
  | record entry next =>
    have hrecord : Spares { s with focus := .running id role next outer } (s.runStep id role outer (.record entry next)) :=
      eased rfl rfl (fun h => h) (.refl _) rfl
    exact (goesOn running next outer).trans hrecord
  | report n next =>
    have hreport : Spares { s with focus := .running id role next outer } (s.runStep id role outer (.report n next)) :=
      eased rfl rfl (fun h => h) (.refl _) rfl
    exact (goesOn running next outer).trans hreport
  | access change next =>
    have hchange : Spares { s with focus := .running id role (next s.workspace) outer }
        (s.runStep id role outer (.access change next)) := eased rfl rfl (fun h => h) (.refl _) rfl
    exact (goesOn running _ outer).trans hchange
  | ensure change next =>
    have hchange : Spares { s with focus := .running id role next outer } (s.runStep id role outer (.ensure change next)) :=
      eased rfl rfl (fun h => h) (.refl _) rfl
    exact (goesOn running next outer).trans hchange
  | keep code next =>
    have hkeep : Spares { s with focus := .running id role (next s.code.size) outer }
        (s.runStep id role outer (.keep code next)) := eased rfl rfl (fun h => h) (.refl _) rfl
    exact (goesOn running _ outer).trans hkeep
  | run code input next => exact goesOn running _ _
  | notify method args next =>
    have hreport : Spares { s with focus := .running id role next outer }
        (report { s with focus := .running id role next outer } (.notifying method)) :=
      eased rfl rfl (fun h => h) (.refl _) rfl
    exact ((goesOn running next outer).trans hreport).trans (sending _ _)
  | invoke method args release next =>
    rw [Session.runStep]
    cases s.link.invoke id method args with
    | none => exact goesOn running _ outer
    | some answer =>
      cases answer with
      | error reason => exact goesOn running _ outer
      | ok accepted =>
        obtain ⟨call, link⟩ := accepted
        have hwaits := waits running (.reply call release next)
        have hreport : Spares ({ s with focus := .idle }.suspend ⟨id, role, .reply call release next, outer⟩)
            (({ s with focus := .idle }.suspend ⟨id, role, .reply call release next, outer⟩).report (.invoking call method)) :=
          eased rfl rfl (fun h => h) (.refl _) rfl
        exact (hwaits.trans hreport).trans (sending _ link)
  | await gate next =>
    rw [Session.runStep]
    split
    · exact goesOn running next outer
    · exact waits running (.gate gate next)

/-- Code that was called comes back to its caller. -/
theorem leave (running : s.focus = .running id role p outer) (exit : Exit) {next : Exit → Program}
    {outer' : List (Exit → Program)} : Spares s (s.leave id role exit (next :: outer')) :=
  goesOn running _ outer'

end Running

/-- A turn begins, unless it is the reader's and the run is to stop. -/
theorem begin {s : Session} (idle : s.focus = .idle) (hstopping : s.stopping = false) (turn : Turn) : Spares s (s.begin turn) := by
  cases turn with
  | writer =>
    refine turned rfl rfl id ?_
    simp [live, idle, Session.begin, Focus.task?]
  | reader =>
    rw [Session.begin]
    split
    · exact refl s
    · rw [if_neg (by simp [hstopping])]
      refine turned rfl rfl id ?_
      simp [live, idle, Focus.task?]
  | task id =>
    rw [Session.begin]
    cases hfind : s.task? id with
    | none => exact refl s
    | some t =>
      obtain ⟨hmem, hid⟩ := mem_of_task? hfind
      obtain ⟨own, role, wait, outer⟩ := t
      obtain rfl : own = id := hid
      cases wait with
      | reply call release next => exact refl s
      | gate name next => exact refl s
      | turn p =>
        refine ⟨rfl, rfl, fun h => h, ?_⟩
        intro hdistinct
        have hlive : s.live = s.tasks := by simp [live, idle, Focus.task?]
        have hpick := Eased.pick hmem
        rw [Distinct, hlive] at hdistinct
        rw [hlive]
        exact hpick.keys hdistinct

end Spares

/-! ## Handlers that begin and end -/

/-- How a run stands after a task of this role has ended. -/
def Standing.losing (standing : Standing) (role : Role) : Standing :=
  { standing with
    inFlight := if role.handler?.isSome then standing.inFlight - 1 else standing.inFlight
    runEnd := role.result?.or standing.runEnd }

/-- How a run stands when a task of this role begins. -/
def Standing.gaining (standing : Standing) (role : Role) : Standing :=
  { standing with inFlight := if role.handler?.isSome then standing.inFlight + 1 else standing.inFlight }

/-- All that a move beside the reader does to a run. -/
inductive Effect (s s' : Session) : Prop where
  | spares (standing : s'.standing = s.standing)
    (keys : Distinct s → (s'.live.map Task.key).Perm (s.live.map Task.key)) : Effect s s'
  | begins {t : Task} (plain : t.role.result? = none) (standing : s'.standing = s.standing.gaining t.role)
    (tasks : s'.live.Perm (t :: s.live)) : Effect s s'
  | ends {t : Task} (standing : s'.standing = s.standing.losing t.role) (tasks : s.live = s'.live ++ [t]) : Effect s s'
  | drops {t : Task} (plain : t.role.result? = none) (other : t.role.handler? = none) (standing : s'.standing = s.standing)
    (tasks : Distinct s → s.live.Perm (t :: s'.live)) : Effect s s'

theorem Spares.effect {s s' : Session} (h : Spares s s') : Effect s s' :=
  .spares h.standing h.keys

/-- The end of a task counts for the run as its role says, and is nothing to the connection. -/
theorem conclude_standing (s : Session) (exit : Exit) (role : Role) :
    (s.conclude exit role).standing = s.standing.losing role ∧ (s.conclude exit role).live = s.live ∧
      (s.conclude exit role).connection = s.connection ∧ (s.conclude exit role).host = s.host := by
  cases role with
  | caller tag => exact ⟨rfl, rfl, rfl, rfl⟩
  | direct => exact ⟨rfl, rfl, rfl, rfl⟩
  | farewell result => exact ⟨rfl, rfl, rfl, rfl⟩
  | notification method => cases exit <;> exact ⟨rfl, rfl, rfl, rfl⟩
  | request id method =>
    cases exit with
    | ended e =>
      simp only [conclude, useResponder, dropResponder, sending_eq, if_true]
      exact ⟨rfl, rfl, rfl, rfl⟩
    | panicked text =>
      obtain ⟨due, journal, writerDue, hdrop⟩ := s.dropResponder_spec { id, method }
      simp only [conclude, hdrop]
      exact ⟨rfl, rfl, rfl, rfl⟩

/-! ## Moves beside the reader -/

/-- The inlet after a move beside the reader: only the host makes a difference to it. -/
def inletAfter (s : Session) : Move → Inlet
  | .hostSend m => if s.host.closed then s.connection.inlet else s.connection.inlet.arrive (encode s.connection.format m)
  | .hostWrite bytes => s.connection.inlet.arrive bytes
  | .hostHangUp => s.connection.inlet.finish
  | .hostLeave => s.connection.inlet.finish
  | _ => s.connection.inlet

/-- What a move beside the reader comes to. -/
structure Beside (s : Session) (m : Move) (s' : Session) : Prop where
  effect : Effect s s'
  inlet : s'.connection.inlet = s.inletAfter m
  hostClosed : s.host.closed = true → s'.host.closed = true

theorem Spares.beside {s s' : Session} {m : Move} (h : Spares s s') (hinlet : s.inletAfter m = s.connection.inlet) :
    Beside s m s' :=
  ⟨.spares h.standing h.keys, h.inlet.trans hinlet.symm, h.hostClosed⟩

/-- A step that the reader does not make. -/
theorem beside_step {s s' : Session} (h : s.step = some s') (haside : s.focus ≠ .reading) (hstopping : s.stopping = false) :
    Beside s .step s' := by
  unfold step at h
  split at h
  · next hreading => exact absurd hreading haside
  · next hwriting =>
    rw [← Option.some.inj h]
    exact (Spares.writeStep hwriting).beside rfl
  · next id role p outer hrunning =>
    rw [← Option.some.inj h]
    by_cases hends : ∃ exit : Exit, p = exit.program
    · obtain ⟨exit, rfl⟩ := hends
      have hleave : s.runStep id role outer exit.program = s.leave id role exit outer := by cases exit <;> rfl
      rw [hleave]
      cases outer with
      | cons next outer => exact (Spares.leave hrunning exit).beside rfl
      | nil =>
        obtain ⟨hstanding, hlive, hconnection, hhost⟩ := conclude_standing { s with focus := .idle } exit role
        rw [Session.leave]
        refine ⟨.ends (t := ⟨id, role, .turn exit.program, []⟩) hstanding ?_, by rw [hconnection]; rfl, ?_⟩
        · rw [hlive]
          simp [live, hrunning, Focus.task?]
        · rw [hhost]
          exact fun hclosed => hclosed
    · exact (Spares.runStep hrunning fun exit hexit => hends ⟨exit, hexit⟩).beside rfl
  · next hidle =>
    split at h
    · cases h
    · next turn rest _ =>
      rw [← Option.some.inj h]
      have htaken : Spares s { s with ready := rest } := .eased rfl rfl id (.refl _) rfl
      exact (htaken.trans (.begin (s := { s with ready := rest }) hidle hstopping turn)).beside rfl

/-- A move that the reader does not make, and that does not ask the run to stop. -/
structure IsAside (s : Session) (m : Move) : Prop where
  aside : m = .step → s.focus ≠ .reading
  goesOn : m ≠ .requestStop

/-- A host that is closed to sending stays so when it catches up. -/
theorem closed_catchUp {h : HostEnd} (hclosed : h.closed = true) : h.catchUp.closed = true := by
  have hread : ∀ (fuel : Nat) (h : HostEnd), h.closed = true → (HostEnd.readAll fuel h).closed = true := by
    intro fuel
    induction fuel with
    | zero => exact fun h hclosed => hclosed
    | succ fuel ih =>
      intro h hclosed
      rw [HostEnd.readAll]
      split
      · exact ih _ hclosed
      · exact ih _ hclosed
      · exact hclosed
      · rfl
      · rfl
  unfold HostEnd.catchUp
  split
  · exact hclosed
  · split
    · split <;> exact hclosed
    · exact hread _ h hclosed

/-- A task begins that is no handler. -/
theorem beside_spawn (s : Session) {m : Move} {role : Role} (plain : role.result? = none) (other : role.handler? = none)
    (p : Program) (hinlet : s.inletAfter m = s.connection.inlet) : Beside s m (s.spawn role p) := by
  have hstanding : (s.spawn role p).standing = s.standing.gaining role := by
    rw [Standing.gaining, if_neg (by simp [other])]
    rfl
  exact ⟨.begins (t := ⟨s.nextTask, role, .turn p, []⟩) plain hstanding (s.live_spawn role p), hinlet.symm, id⟩

/-- Something arrives from the host, or the host goes. -/
theorem beside_arrives {s : Session} {m : Move} {connection : LocalEnd} {host : HostEnd} (hinlet : connection.inlet = s.inletAfter m)
    (hclosed : s.host.closed = true → host.closed = true) : Beside s m (wakeReader { s with connection, host }) := by
  have hwake := Spares.wakeReader { s with connection, host }
  exact ⟨.spares hwake.standing hwake.keys, hwake.inlet.trans hinlet, fun h => hwake.hostClosed (hclosed h)⟩

/-- **Every move beside the reader** leaves a run as it is, but for the handlers. -/
theorem beside_move {s : Session} {m : Move} (h : IsAside s m) (hstopping : s.stopping = false) : Beside s m (s.move m) := by
  cases m with
  | step =>
    rw [move]
    cases hstep : s.step with
    | none => exact (Spares.refl s).beside rfl
    | some s' => exact beside_step hstep (h.aside rfl) hstopping
  | start =>
    show Beside s .start (if s.reader = .notStarted then _ else s)
    split
    · next hnew =>
      have hdue : Spares s ({ s with reader := .due }.enqueue .reader) := by
        refine .eased ?_ rfl id (.refl _) rfl
        simp [standing, enqueue, hnew]
      exact hdue.beside rfl
    · exact (Spares.refl s).beside rfl
  | shutdown => exact (Spares.closeWith s .closed).beside rfl
  | requestStop => exact absurd rfl h.goesOn
  | callFacade tag p => exact beside_spawn s rfl rfl p rfl
  | perform p => exact beside_spawn s rfl rfl p rfl
  | abandon tag =>
    rw [move, abandon]
    cases hfind : s.tasks.find? (hasTag tag) with
    | none => exact (Spares.refl s).beside rfl
    | some t =>
      have hmem : t ∈ s.tasks := List.mem_of_find?_eq_some hfind
      obtain ⟨other, hrole⟩ : ∃ other, t.role = .caller other := by
        have htag := List.find?_some hfind
        unfold hasTag at htag
        split at htag
        · next other hrole => exact ⟨other, hrole⟩
        · cases htag
      refine ⟨.drops (t := t) (by rw [hrole]; rfl) (by rw [hrole]; rfl) rfl ?_, rfl, id⟩
      intro hdistinct
      rw [Distinct, live, List.map_append] at hdistinct
      exact (perm_cons_filter hmem (List.nodup_append.mp hdistinct).1).append_right _
  | openGate gate =>
    have hopen : Spares s { s with openGates := gate :: s.openGates } := .eased rfl rfl id (.refl _) rfl
    exact (hopen.trans (.resumeGate _ gate)).beside rfl
  | report n =>
    have hreport : Spares s (s.report n) := .eased rfl rfl id (.refl _) rfl
    exact hreport.beside rfl
  | handOver id method args =>
    rw [move]
    rcases s.dispatchRequest_spec id method args with ⟨-, due, journal, writerDue, herror⟩ | ⟨-, hok⟩
    · rw [herror]
      exact ⟨.spares rfl fun _ => .rfl, rfl, fun hclosed => hclosed⟩
    · rw [hok]
      have hlive := live_spawn { s with inFlight := s.inFlight + 1 } (.request id method) (Handling.request method args)
      exact ⟨.begins (t := ⟨s.nextTask, .request id method, .turn (Handling.request method args), []⟩) rfl rfl hlive, rfl,
        fun hclosed => hclosed⟩
  | hostSend m =>
    rw [move, hostSend]
    by_cases hclosed : s.host.closed = true
    · rw [if_pos hclosed]
      exact (Spares.refl s).beside (if_pos hclosed)
    · rw [if_neg hclosed]
      exact beside_arrives (if_neg hclosed).symm id
  | hostWrite bytes => exact beside_arrives rfl id
  | hostHangUp => exact beside_arrives rfl fun _ => rfl
  | hostLeave => exact beside_arrives rfl fun _ => rfl
  | hostRead => exact ⟨.spares rfl fun _ => .rfl, rfl, closed_catchUp⟩
  | forget => exact ⟨.spares rfl fun _ => .rfl, rfl, id⟩
  | reorder turns => exact ⟨.spares rfl fun _ => .rfl, rfl, id⟩

/-! ## What such moves keep -/

section Kept

variable {s s' : Session}

theorem comesTo_iff_keys (s : Session) (result : Except Failure Unit) :
    s.ComesTo result ↔ s.runEnd = some result ∨ ∃ key ∈ s.live.map Task.key, key.2.result? = some result := by
  simp [ComesTo, Task.key]

/-- Tasks with the same keys come to the same. -/
theorem comesTo_of_perm (hend : s'.runEnd = s.runEnd) (hkeys : (s'.live.map Task.key).Perm (s.live.map Task.key))
    (result : Except Failure Unit) : s'.ComesTo result ↔ s.ComesTo result := by
  simp only [comesTo_iff_keys, hend, hkeys.mem_iff]

/-- No move beside the reader makes a difference to what the run comes to, if it comes to no two results. -/
theorem Effect.comesTo (h : Effect s s') (hdistinct : Distinct s)
    (hone : ∀ first second, s.ComesTo first → s.ComesTo second → first = second) (result : Except Failure Unit) :
    s'.ComesTo result ↔ s.ComesTo result := by
  cases h with
  | spares hstanding hkeys => exact comesTo_of_perm (congrArg Standing.runEnd hstanding) (hkeys hdistinct) result
  | @begins t plain hstanding htasks =>
    have hend : s'.runEnd = s.runEnd := congrArg Standing.runEnd hstanding
    rw [ComesTo, ComesTo, hend]
    simp [htasks.mem_iff, plain]
  | @drops t plain _ hstanding htasks =>
    have hend : s'.runEnd = s.runEnd := congrArg Standing.runEnd hstanding
    rw [ComesTo, ComesTo, hend]
    simp [(htasks hdistinct).mem_iff, plain]
  | @ends t hstanding htasks =>
    have hend : s'.runEnd = t.role.result?.or s.runEnd := congrArg Standing.runEnd hstanding
    rw [ComesTo, ComesTo, hend, htasks]
    cases hresult : t.role.result? with
    | none => simp [hresult]
    | some own =>
      -- the run had come to that result while the task went on
      have hown : s.ComesTo own := Or.inr ⟨t, by simp [htasks], hresult⟩
      constructor
      · rintro (hthis | ⟨u, hu, hthis⟩)
        · exact Or.inr ⟨t, by simp, hresult.trans hthis⟩
        · exact Or.inr ⟨u, List.mem_append_left _ hu, hthis⟩
      · intro hthis
        have hthis' : s.ComesTo result := by
          rw [ComesTo, htasks]
          exact hthis
        exact Or.inl (congrArg some (hone own result hown hthis'))

/-- The number that the reader goes by stays the number of unfinished handlers. -/
theorem Effect.counts (h : Effect s s') (hdistinct : Distinct s) (hcount : s.inFlight = (unfinished s).length) :
    s'.inFlight = (unfinished s').length := by
  cases h with
  | spares hstanding hkeys =>
    have hlength := ((hkeys hdistinct).filter (·.2.handler?.isSome)).length_eq
    exact ((congrArg Standing.inFlight hstanding).trans hcount).trans hlength.symm
  | @begins t _ hstanding htasks =>
    have hinFlight := congrArg Standing.inFlight hstanding
    have hlength := ((htasks.map Task.key).filter (·.2.handler?.isSome)).length_eq
    rw [List.map_cons, List.filter_cons] at hlength
    simp only [Standing.gaining, standing] at hinFlight
    rw [unfinished, handlers, hlength, hinFlight, hcount]
    by_cases hrole : t.role.handler?.isSome <;> simp [hrole, Task.key, unfinished, handlers]
  | @drops t _ other hstanding htasks =>
    have hlength := (((htasks hdistinct).map Task.key).filter (·.2.handler?.isSome)).length_eq
    rw [List.map_cons, List.filter_cons_of_neg (by simp [Task.key, other])] at hlength
    exact ((congrArg Standing.inFlight hstanding).trans hcount).trans hlength
  | @ends t hstanding htasks =>
    have hinFlight := congrArg Standing.inFlight hstanding
    simp only [Standing.losing, standing] at hinFlight
    rw [hinFlight, hcount, unfinished, handlers, htasks, List.map_append, List.filter_append]
    by_cases hrole : t.role.handler?.isSome <;> simp [hrole, Task.key, unfinished, handlers]

/-- The other things that a run goes by stay as they are. -/
theorem Effect.standing (h : Effect s s') :
    s'.limit = s.limit ∧ s'.farewell = s.farewell ∧ s'.stopping = s.stopping ∧ (s'.reader = .ended ↔ s.reader = .ended) := by
  have hsame : ∀ standing : Standing, s'.standing = standing → standing.limit = s.limit → standing.farewell = s.farewell →
      standing.stopping = s.stopping → standing.ended = decide (s.reader = .ended) →
      s'.limit = s.limit ∧ s'.farewell = s.farewell ∧ s'.stopping = s.stopping ∧ (s'.reader = .ended ↔ s.reader = .ended) := by
    rintro _ rfl hlimit hfarewell hstopping hended
    exact ⟨hlimit, hfarewell, hstopping, by simpa [Session.standing] using hended⟩
  cases h with
  | spares hstanding _ => exact hsame _ hstanding rfl rfl rfl rfl
  | begins _ hstanding _ => exact hsame _ hstanding rfl rfl rfl rfl
  | drops _ _ hstanding _ => exact hsame _ hstanding rfl rfl rfl rfl
  | ends hstanding _ => exact hsame _ hstanding rfl rfl rfl rfl

end Kept

end EditorLink.Session
