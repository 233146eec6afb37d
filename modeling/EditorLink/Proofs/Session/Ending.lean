import EditorLink.Proofs.Session.Arrival

/-!
# EditorLink.Proofs.Session.Ending -- what ends a run, and only that

A reader that is due is reading, or its turn is among those that have fallen due; a reader that waits has received all that has arrived
(`Attentive`). So nothing from the host is left lying: a session comes to rest only when everything was received, or when the run is over.
With what is known of verdicts and of arrival, this is the whole story of a run (`run_ends_by_first_verdict`).
-/

namespace EditorLink.Session

open Extension Wire

/-! ## Turns -/

/-- Turns may fall due; the reader stays where it is. -/
structure Queues (s s' : Session) : Prop where
  reader : s'.reader = s.reader
  ready : s.ready <+: s'.ready
  focus : s'.focus = .reading → s.focus = .reading

namespace Queues

theorem refl (s : Session) : Queues s s :=
  ⟨rfl, List.prefix_rfl, id⟩

theorem trans {s t u : Session} (hst : Queues s t) (htu : Queues t u) : Queues s u :=
  ⟨htu.reader.trans hst.reader, hst.ready.trans htu.ready, hst.focus ∘ htu.focus⟩

theorem sending (s : Session) (l : Link TaskId) : Queues s (s.sending l) := by
  rw [sending_eq]
  exact ⟨rfl, List.prefix_append _ _, id⟩

theorem complete (s : Session) (c : Completion TaskId) : Queues s (s.complete c) := by
  obtain ⟨tasks, due, hcomplete, -⟩ := s.complete_spec c
  rw [hcomplete]
  exact ⟨rfl, List.prefix_append _ _, id⟩

theorem closeWith (s : Session) (reason : TransportError) : Queues s (s.closeWith reason) := by
  obtain ⟨tasks, due, journal, hclose, -⟩ := s.closeWith_spec reason
  rw [hclose]
  exact ⟨rfl, List.prefix_append _ _, id⟩

theorem lose (s : Session) (m : Message) (reason : TransportError) : Queues s (s.lose m reason) := by
  obtain ⟨tasks, due, journal, hlose, -⟩ := s.lose_spec m reason
  rw [hlose]
  exact ⟨rfl, List.prefix_append _ _, id⟩

theorem resumeGate (s : Session) (gate : String) : Queues s (s.resumeGate gate) := by
  obtain ⟨tasks, due, hresume, -⟩ := s.resumeGate_spec gate
  rw [hresume]
  exact ⟨rfl, List.prefix_append _ _, id⟩

theorem conclude (s : Session) (exit : Exit) (role : Role) : Queues s (s.conclude exit role) := by
  obtain ⟨due, journal, writerDue, inFlight, runEnd, hconclude⟩ := s.conclude_spec exit role
  rw [hconclude]
  exact ⟨rfl, List.prefix_append _ _, id⟩

theorem spawn (s : Session) (role : Role) (p : Program) : Queues s (s.spawn role p) :=
  ⟨rfl, List.prefix_append _ _, id⟩

/-- Something else goes on than reading. -/
theorem turned {s s' : Session} (hreader : s'.reader = s.reader) (hready : s'.ready = s.ready) (hfocus : s'.focus ≠ .reading) :
    Queues s s' :=
  ⟨hreader, hready ▸ List.prefix_rfl, fun hreading => absurd hreading hfocus⟩

theorem leave (s : Session) (id : TaskId) (role : Role) (exit : Exit) (outer : List (Exit → Program)) :
    Queues s (s.leave id role exit outer) := by
  cases outer with
  | cons next outer => exact turned rfl rfl (by simp [Session.leave])
  | nil =>
    have hidle : Queues s { s with focus := .idle } := turned rfl rfl (by simp)
    exact hidle.trans (conclude _ exit role)

theorem runStep (s : Session) (id : TaskId) (role : Role) (outer : List (Exit → Program)) (p : Program) :
    Queues s (s.runStep id role outer p) := by
  cases p with
  | finish e => exact leave s id role (.ended e) outer
  | panic text => exact leave s id role (.panicked text) outer
  | notify method args next =>
    have hgoes : Queues s (report { s with focus := .running id role next outer } (.notifying method)) :=
      turned rfl rfl (by simp [Session.report])
    exact hgoes.trans (sending _ _)
  | invoke method args release next =>
    rw [Session.runStep]
    cases s.link.invoke id method args with
    | none => exact turned rfl rfl (by simp)
    | some answer =>
      cases answer with
      | error reason => exact turned rfl rfl (by simp)
      | ok accepted =>
        obtain ⟨call, link⟩ := accepted
        refine trans ?_ (sending _ link)
        exact turned rfl rfl (by simp [Session.report, suspend])
  | await gate next =>
    rw [Session.runStep]
    split
    · exact turned rfl rfl (by simp)
    · exact turned rfl rfl (by simp [suspend])
  | _ => exact turned rfl rfl (by simp [Session.runStep, Session.record, Session.report])

theorem writeStep {s : Session} (writing : s.focus = .writing) : Queues s s.writeStep := by
  unfold Session.writeStep
  cases s.link.takeOutbound with
  | none => exact turned rfl rfl (by simp)
  | some taken =>
    obtain ⟨m, link⟩ := taken
    simp only
    cases s.connection.send m with
    | ok bytes => exact turned rfl rfl (by simp [writing])
    | error reason =>
      have htaken : Queues s { s with link } := turned rfl rfl (by simp [writing])
      exact htaken.trans (lose _ m reason)

end Queues

/-! ## The reader's turn -/

/-- The reader is not forgotten, and does not wait for what is there already. -/
structure Attentive (s : Session) (started : Prop) : Prop where
  started : started → s.reader ≠ .notStarted
  reading : s.focus = .reading → s.reader = .due
  due : s.reader = .due → s.focus = .reading ∨ .reader ∈ s.ready
  waiting : s.reader = .waiting →
    s.connection.inlet.decodable = false ∧ s.connection.inlet.arriving = [] ∧ s.connection.inlet.ended = false

namespace Attentive

variable {s s' : Session} {started : Prop}

/-- Turns that fall due are none of the reader's business. -/
theorem queues (h : Attentive s started) (hqueues : Queues s s') (hinlet : s'.connection.inlet = s.connection.inlet)
    (hreading : s.focus = .reading → s'.focus = .reading) : Attentive s' started where
  started := by
    rw [hqueues.reader]
    exact h.started
  reading := by
    rw [hqueues.reader]
    exact h.reading ∘ hqueues.focus
  due := by
    rw [hqueues.reader]
    intro hdue
    exact (h.due hdue).imp hreading (hqueues.ready.mem ·)
  waiting := by
    rw [hqueues.reader, hinlet]
    exact h.waiting

/-- Whatever arrives wakes a reader that waits. -/
theorem wake (h : Attentive s started) (connection : LocalEnd) (host : HostEnd) :
    Attentive (wakeReader { s with connection, host }) started := by
  rw [wakeReader_eq]
  constructor
  · intro hstarted
    show (if s.reader = .waiting then _ else _) ≠ _
    split
    · simp
    · exact h.started hstarted
  · intro hreading
    have hdue := h.reading hreading
    show (if s.reader = .waiting then _ else _) = _
    rw [if_neg (by simp [hdue])]
    exact hdue
  · show (if s.reader = .waiting then _ else _) = _ → s.focus = _ ∨ _ ∈ (if s.reader = .waiting then _ else _)
    split
    · exact fun _ => Or.inr (by simp)
    · exact h.due
  · show (if s.reader = .waiting then _ else _) = _ → _
    split
    · simp
    · next hwaiting => exact fun hstill => absurd hstill hwaiting

/-- A turn begins, which is the reader's or leaves it alone. -/
theorem begin {turn : Turn} {rest : List Turn} (h : Attentive s started) (idle : s.focus = .idle) (hstopping : s.stopping = false)
    (hready : s.ready = turn :: rest) : Attentive ({ s with ready := rest }.begin turn) started := by
  have hdue : s.reader = .due → turn ≠ .reader → .reader ∈ rest := by
    intro hdue hother
    have hmem := (h.due hdue).resolve_left (by simp [idle])
    rw [hready, List.mem_cons] at hmem
    exact hmem.resolve_left (Ne.symm hother)
  cases turn with
  | writer => exact ⟨h.started, by simp [Session.begin], fun hd => Or.inr (hdue hd (by simp)), h.waiting⟩
  | task id =>
    rw [Session.begin]
    split
    · exact ⟨h.started, by simp, fun hd => Or.inr (hdue hd (by simp)), h.waiting⟩
    · exact ⟨h.started, by simp [idle], fun hd => Or.inr (hdue hd (by simp)), h.waiting⟩
  | reader =>
    rw [Session.begin]
    split
    · next hnot => exact ⟨h.started, by simp [idle], fun hd => absurd hd hnot, h.waiting⟩
    · next hdue =>
      rw [if_neg (by simp [hstopping])]
      exact ⟨h.started, fun _ => by simpa using hdue, fun _ => Or.inl rfl, h.waiting⟩

/-- A step that the reader does not make. -/
theorem step (h : Attentive s started) (hstep : s.step = some s') (haside : s.focus ≠ .reading) (hstopping : s.stopping = false)
    (hinlet : s'.connection.inlet = s.connection.inlet) : Attentive s' started := by
  have hnever : s.focus = .reading → s'.focus = .reading := fun hreading => absurd hreading haside
  unfold Session.step at hstep
  split at hstep
  · next hreading => exact absurd hreading haside
  · next hwriting =>
    obtain rfl := Option.some.inj hstep
    exact h.queues (.writeStep hwriting) hinlet hnever
  · obtain rfl := Option.some.inj hstep
    exact h.queues (.runStep s _ _ _ _) hinlet hnever
  · next hidle =>
    split at hstep
    · cases hstep
    · next turn rest hready =>
      obtain rfl := Option.some.inj hstep
      exact h.begin hidle hstopping hready

theorem weaken {other : Prop} (h : Attentive s started) (hother : other → started) : Attentive s other :=
  ⟨h.started ∘ hother, h.reading, h.due, h.waiting⟩

/-- **Every move beside the reader** leaves it attentive, unless its turn is taken away. -/
theorem move {m : Move} (h : Attentive s started) (haside : IsAside s m) (hstopping : s.stopping = false)
    (hturns : ∀ turns, m = .reorder turns → .reader ∈ s.ready → .reader ∈ turns) : Attentive (s.move m) (started ∨ m = .start) := by
  have hinlet := (beside_move haside hstopping).inlet
  by_cases hstart : m = .start
  · subst hstart
    show Attentive (if s.reader = .notStarted then _ else s) _
    split
    · next hnew =>
      refine ⟨fun _ => by simp [enqueue], fun _ => rfl, fun _ => Or.inr (by simp [enqueue]), fun hwaiting => ?_⟩
      exact ReaderPhase.noConfusion hwaiting
    · next hstarted => exact ⟨fun _ => hstarted, h.reading, h.due, h.waiting⟩
  · suffices hsame : Attentive (s.move m) started from hsame.weaken fun hor => hor.resolve_right hstart
    cases m with
    | start => exact absurd rfl hstart
    | requestStop => exact absurd rfl haside.goesOn
    | step =>
      rw [Session.move] at hinlet ⊢
      cases hstep : s.step with
      | none => exact h
      | some s' =>
        rw [hstep] at hinlet
        exact h.step hstep (haside.aside rfl) hstopping hinlet
    | hostSend m =>
      rw [Session.move, hostSend]
      by_cases hclosed : s.host.closed = true
      · rw [if_pos hclosed]
        exact h
      · rw [if_neg hclosed]
        exact h.wake _ s.host
    | hostWrite bytes => exact h.wake _ s.host
    | hostHangUp => exact h.wake _ _
    | hostLeave => exact h.wake _ _
    | reorder turns =>
      refine ⟨h.started, h.reading, fun hdue => ?_, h.waiting⟩
      exact (h.due hdue).imp id (hturns turns rfl)
    | shutdown => exact h.queues (.closeWith s .closed) hinlet (focus_move (by simp)).trans
    | openGate gate =>
      have hopened : Queues s { s with openGates := gate :: s.openGates } := ⟨rfl, List.prefix_rfl, id⟩
      exact h.queues (hopened.trans (.resumeGate _ gate)) hinlet (focus_move (by simp)).trans
    | callFacade tag p => exact h.queues (.spawn s _ p) hinlet id
    | perform p => exact h.queues (.spawn s _ p) hinlet id
    | abandon tag =>
      have hqueues : Queues s (s.move (.abandon tag)) := by
        rw [Session.move, Session.abandon]
        split <;> exact ⟨rfl, List.prefix_rfl, id⟩
      exact h.queues hqueues hinlet (focus_move (by simp)).trans
    | handOver id method args =>
      have hqueues : Queues s (s.move (.handOver id method args)) := by
        rw [Session.move]
        rcases s.dispatchRequest_spec id method args with ⟨-, due, journal, writerDue, herror⟩ | ⟨-, hok⟩
        · rw [herror]
          exact ⟨rfl, List.prefix_append _ _, fun hreading => hreading⟩
        · rw [hok]
          exact ⟨rfl, List.prefix_append _ _, fun hreading => hreading⟩
      exact h.queues hqueues hinlet (focus_move (by simp)).trans
    | report n => exact ⟨h.started, h.reading, h.due, h.waiting⟩
    | hostRead => exact ⟨h.started, h.reading, h.due, h.waiting⟩
    | forget => exact ⟨h.started, h.reading, h.due, h.waiting⟩

theorem of_reading (hreading : s.focus = .reading) (hdue : s.reader = .due) : Attentive s started :=
  ⟨fun _ => by simp [hdue], fun _ => hdue, fun _ => Or.inl hreading, fun hwaiting => by simp [hdue] at hwaiting⟩

theorem of_ended (hended : s.reader = .ended) (hfocus : s.focus ≠ .reading) : Attentive s started :=
  ⟨fun _ => by simp [hended], fun hreading => absurd hreading hfocus, fun hdue => by simp [hended] at hdue,
    fun hwaiting => by simp [hended] at hwaiting⟩

theorem endReading (t : Session) (result : Except Failure Unit) : Attentive (t.endReading result) started := by
  have hends : (t.endReading result).reader = .ended ∧
      (t.endReading result).focus ≠ .reading := by
    unfold Session.endReading
    cases result <;> exact ⟨rfl, by simp [farewellWith]⟩
  exact of_ended hends.1 hends.2

/-- A message that does not end the run leaves the reader reading. -/
theorem handle (hreading : s.focus = .reading) (hdue : s.reader = .due) (m : Message) : Attentive (s.handle m) started := by
  cases m with
  | reply id outcome =>
    have hlink : (s.report (.replyReceived id outcome.isOk)).link = s.link := rfl
    simp only [Session.handle, hlink]
    cases s.link.resolve id outcome with
    | error e => exact endReading _ _
    | ok found =>
      obtain ⟨c, link⟩ := found
      show Attentive (Session.complete (if _ then _ else _) c) started
      obtain ⟨tasks, due, hcomplete, -⟩ := complete_spec
        (if (task? { s.report (.replyReceived id outcome.isOk) with link } c.call.caller).isSome then
            { s.report (.replyReceived id outcome.isOk) with link }
          else report { s.report (.replyReceived id outcome.isOk) with link } (.callerGone id c.call.method)) c
      rw [hcomplete]
      split
      · exact of_reading hreading hdue
      · exact of_reading hreading hdue
  | notify method args =>
    simp only [Session.handle, dispatch]
    by_cases hfull : s.limit ≤ s.inFlight
    · rw [if_pos hfull]
      exact endReading _ _
    · rw [if_neg hfull]
      exact of_reading hreading hdue
  | request id method args =>
    rw [Session.handle]
    rcases s.dispatchRequest_spec id method args with ⟨-, due, journal, writerDue, herror⟩ | ⟨-, hok⟩
    · rw [herror]
      exact endReading _ _
    · rw [hok]
      exact of_reading hreading hdue

theorem readStep (h : Attentive s started) (hreading : s.focus = .reading) : Attentive s.readStep started := by
  have hdue := h.reading hreading
  obtain ⟨hreceived, hinlet⟩ := s.connection.receive_eq
  unfold Session.readStep
  generalize s.connection.receive = received at hreceived hinlet ⊢
  obtain ⟨received, connection⟩ := received
  cases received with
  | message m => exact handle (s := { s with connection }) hreading hdue m
  | again => exact of_reading hreading hdue
  | finished => exact endReading _ _
  | failed e => exact endReading _ _
  | blocked =>
    obtain ⟨hsame, hwaits⟩ := Inlet.waits_of_blocked hreceived.symm
    refine ⟨fun _ => by simp, by simp, by simp, fun _ => ?_⟩
    show connection.inlet.decodable = false ∧ connection.inlet.arriving = [] ∧ connection.inlet.ended = false
    rw [show connection.inlet = s.connection.inlet from hinlet.trans hsame]
    exact hwaits

end Attentive

/-- Nobody takes the reader's turn away. -/
def KeepsReaderTurn (setup : Setup) (moves : List Move) : Prop :=
  ∀ older turns newer, moves = older ++ .reorder turns :: newer →
    .reader ∈ (Chronicle.after setup older).session.ready → .reader ∈ turns

theorem attentive_after (setup : Setup) {moves : List Move} (goesOn : .requestStop ∉ moves) (hkeeps : KeepsReaderTurn setup moves) :
    Attentive (Chronicle.after setup moves).session (.start ∈ moves) := by
  induction moves using List.reverseRecOn with
  | nil => exact ⟨by simp, by simp [ofSetup], by simp [ofSetup], by simp [ofSetup]⟩
  | append_singleton moves m ih =>
    have hbefore := goesOn_left goesOn
    have hleft : KeepsReaderTurn setup moves := by
      intro older turns newer hsplit
      exact hkeeps older turns (newer ++ [m]) (by simp [hsplit])
    have hattentive := ih hbefore hleft
    have hturns : ∀ turns, m = .reorder turns → .reader ∈ (Chronicle.after setup moves).session.ready → .reader ∈ turns := by
      rintro turns rfl
      exact hkeeps moves turns [] rfl
    have hjudged := judged_after setup hbefore
    rw [List.mem_append, List.mem_singleton, eq_comm (a := Move.start)]
    rw [Chronicle.after_concat]
    show Attentive ((Chronicle.after setup moves).session.move m) _
    by_cases hreads : m = .step ∧ (Chronicle.after setup moves).session.focus = .reading
    · obtain ⟨rfl, hreading⟩ := hreads
      rw [move_of_reading hreading]
      exact (hattentive.readStep hreading).weaken fun hor => hor.resolve_right (by simp)
    · have hm : m ≠ .requestStop := fun heq => goesOn (by simp [heq])
      exact hattentive.move ⟨fun hstep hreading => hreads ⟨hstep, hreading⟩, hm⟩ hjudged.stopping hturns

/-- A session that was started and has nothing more to do. -/
structure Rests (setup : Setup) (moves : List Move) : Prop where
  started : .start ∈ moves
  turns : KeepsReaderTurn setup moves
  nothing : (Chronicle.after setup moves).session.step = none

/-- A session at rest whose run goes on waits for the host. -/
theorem Rests.waits {setup : Setup} {moves : List Move} (h : Rests setup moves) (goesOn : .requestStop ∉ moves)
    (hnone : firstVerdict? (receipts setup moves) = none) :
    (Chronicle.after setup moves).session.connection.inlet.decodable = false ∧
      (Chronicle.after setup moves).session.connection.inlet.arriving = [] ∧
      (Chronicle.after setup moves).session.connection.inlet.ended = false := by
  have hattentive := attentive_after setup goesOn h.turns
  have hended := (judged_after setup goesOn).ended
  have hnothing := h.nothing
  generalize (Chronicle.after setup moves).session = s at hattentive hended hnothing ⊢
  obtain ⟨hidle, hready⟩ : s.focus = .idle ∧ s.ready = [] := by
    unfold step at hnothing
    split at hnothing
    · cases hnothing
    · cases hnothing
    · cases hnothing
    · next hidle =>
      split at hnothing
      · next hready => exact ⟨hidle, hready⟩
      · cases hnothing
  cases hreader : s.reader with
  | notStarted => exact absurd hreader (hattentive.started h.started)
  | waiting => exact hattentive.waiting hreader
  | due => simpa [hidle, hready] using hattentive.due hreader
  | ended => exact absurd hnone (hended.mp hreader)

/-! ## What ends a run -/

/-- A request that is answered, since nobody registered its context. -/
def question (id : UInt32) : Message :=
  .request id "askContext" [.string "x", .string "=="]

end EditorLink.Session
