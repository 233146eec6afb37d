import EditorLink.Proofs.Session.Outflow

/-!
# EditorLink.Proofs.Session.Outbound -- what reaches the host, in order and whole

The bytes that are written to the host are those of the first messages of the queue, one after the other: whoever puts them there,
wherever a close falls, and however little the pipe takes at a time. A connection only ever narrows (`Narrows`): once closed it stays so.
So a session is an outflow whose pipe always has room (`Conveys`), and what holds of every outflow holds of it.
-/

namespace EditorLink

open Wire

/-! ## Formats -/

namespace Wire

theorem Decoder.format_await (d : Decoder) (pending : Nat) : (d.await pending).2.format = d.format := by
  unfold Decoder.await
  split <;> rfl

theorem Decoder.format_next (d : Decoder) : d.next.2.format = d.format := by
  unfold Decoder.next
  split
  · unfold Decoder.nextFrame
    split
    · rfl
    · exact format_await _ _
    · split
      · rfl
      · dsimp only
        split <;> rfl
  · unfold Decoder.nextLine
    split
    · exact format_await _ _
    · rfl
    · rfl

theorem Decoder.format_finish (d : Decoder) : d.finish.2.format = d.format := by
  have hnext := d.format_next
  unfold Decoder.finish
  split
  · next rest hmore =>
    rw [hmore] at hnext
    split
    · exact hnext
    · split
      · exact hnext
      · dsimp only
        split <;> exact hnext
  · exact hnext

theorem Inlet.format_receive (i : Inlet) : i.receive.2.decoder.format = i.decoder.format := by
  have hstep : (if i.atEnd then i.decoder.finish else i.decoder.next).2.format = i.decoder.format := by
    split
    · exact i.decoder.format_finish
    · exact i.decoder.format_next
  unfold Inlet.receive
  split
  · split
    · next hd => rwa [hd] at hstep
    · next hd => rwa [hd] at hstep
    · next hd => rwa [hd] at hstep
  · split
    · rfl
    · split
      · rfl
      · split <;> rfl

end Wire

namespace Session

open Extension

/-! ## The connection of a session -/

/-- A connection that was open may have been closed, and shut down with that; the host may have gone. -/
structure Narrows (c c' : LocalEnd) : Prop where
  format : c'.format = c.format
  closed : c.closed = true → c'.closed = true
  shutDown : c.shutDown = true → c'.shutDown = true
  flagged : c'.shutDown = true → c.shutDown = true ∨ c'.closed = true
  abandoned : c.abandoned = true → c'.abandoned = true

namespace Narrows

theorem refl (c : LocalEnd) : Narrows c c :=
  ⟨rfl, id, id, Or.inl, id⟩

theorem of_eq {c c' : LocalEnd} (h : c' = c) : Narrows c c' :=
  h ▸ refl c

theorem trans {c d e : LocalEnd} (hcd : Narrows c d) (hde : Narrows d e) : Narrows c e where
  format := hde.format.trans hcd.format
  closed := hde.closed ∘ hcd.closed
  shutDown := hde.shutDown ∘ hcd.shutDown
  flagged := by
    intro hshut
    rcases hde.flagged hshut with hshut | hclosed
    · exact (hcd.flagged hshut).imp_right hde.closed
    · exact Or.inr hclosed
  abandoned := hde.abandoned ∘ hcd.abandoned

theorem close (c : LocalEnd) : Narrows c c.close :=
  ⟨rfl, fun _ => rfl, fun _ => rfl, fun _ => Or.inr rfl, id⟩

theorem receive (c : LocalEnd) : Narrows c c.receive.2 := by
  have hformat := c.inlet.format_receive
  unfold LocalEnd.receive
  split
  · next hreceive =>
    rw [hreceive] at hformat
    exact ⟨hformat, fun _ => rfl, id, Or.inl, id⟩
  · next hreceive =>
    rw [hreceive] at hformat
    exact ⟨hformat, fun _ => rfl, id, Or.inl, id⟩
  · next hreceive =>
    rw [hreceive] at hformat
    exact ⟨hformat, id, id, Or.inl, id⟩

end Narrows

theorem connection_complete (s : Session) (c : Completion TaskId) : (s.complete c).connection = s.connection := by
  obtain ⟨tasks, due, hcomplete, -⟩ := s.complete_spec c
  rw [hcomplete]

theorem connection_sending (s : Session) (l : Link TaskId) : (s.sending l).connection = s.connection := by
  rw [sending_eq]

theorem connection_closeWith (s : Session) (reason : TransportError) : (s.closeWith reason).connection = s.connection.close := by
  obtain ⟨tasks, due, journal, hclose, -⟩ := s.closeWith_spec reason
  rw [hclose]

theorem connection_lose (s : Session) (m : Message) (reason : TransportError) : (s.lose m reason).connection = s.connection := by
  obtain ⟨tasks, due, journal, hlose, -⟩ := s.lose_spec m reason
  rw [hlose]

theorem connection_wakeReader (s : Session) : s.wakeReader.connection = s.connection := by
  rw [wakeReader_eq]

theorem connection_endReading (s : Session) (result : Except Failure Unit) :
    (s.endReading result).connection = s.connection.close := by
  unfold endReading
  cases result with
  | ok => exact connection_closeWith s _
  | error e => exact connection_closeWith s _

theorem connection_writeStep (s : Session) : s.writeStep.connection = s.connection := by
  unfold writeStep
  cases s.link.takeOutbound with
  | none => rfl
  | some taken =>
    obtain ⟨m, link⟩ := taken
    simp only
    cases s.connection.send m with
    | ok bytes => rfl
    | error reason => exact connection_lose _ m reason

theorem connection_runStep (s : Session) (id : TaskId) (role : Role) (outer : List (Exit → Program)) (p : Program) :
    (s.runStep id role outer p).connection = s.connection := by
  have hleave : ∀ exit, (s.leave id role exit outer).connection = s.connection := by
    intro exit
    cases outer with
    | cons next outer => rfl
    | nil =>
      obtain ⟨due, journal, writerDue, inFlight, runEnd, hconclude⟩ := conclude_spec { s with focus := .idle } exit role
      rw [leave, hconclude]
  cases p with
  | finish e => exact hleave _
  | panic text => exact hleave _
  | notify method args next => exact connection_sending _ _
  | invoke method args release next =>
    rw [runStep]
    cases s.link.invoke id method args with
    | none => rfl
    | some answer =>
      cases answer with
      | error reason => rfl
      | ok accepted => exact connection_sending _ _
  | await gate next =>
    rw [runStep]
    split <;> rfl
  | _ => rfl

theorem narrows_handle (s : Session) (m : Message) : Narrows s.connection (s.handle m).connection := by
  cases m with
  | reply id outcome =>
    simp only [handle]
    cases (s.report (.replyReceived id outcome.isOk)).link.resolve id outcome with
    | error e => exact connection_endReading _ _ ▸ .close _
    | ok resolved =>
      obtain ⟨completion, link⟩ := resolved
      refine .of_eq ?_
      simp only
      split <;> exact connection_complete _ _
  | notify method args =>
    simp only [handle, dispatch]
    by_cases hfull : s.limit ≤ s.inFlight
    · simp only [if_pos hfull, connection_endReading]
      exact .close _
    · simp only [if_neg hfull]
      exact .refl _
  | request id method args =>
    rw [handle]
    rcases s.dispatchRequest_spec id method args with ⟨-, due, journal, writerDue, herror⟩ | ⟨-, hok⟩
    · rw [herror]
      exact connection_endReading _ _ ▸ .close _
    · rw [hok]
      exact .refl _

theorem narrows_readStep (s : Session) : Narrows s.connection s.readStep.connection := by
  have hreceive := Narrows.receive s.connection
  unfold readStep
  generalize s.connection.receive = received at hreceive ⊢
  obtain ⟨received, connection⟩ := received
  cases received with
  | message m => exact hreceive.trans (narrows_handle { s with connection } m)
  | again => exact hreceive
  | blocked => exact hreceive
  | finished => exact connection_endReading _ _ ▸ hreceive.trans (.close _)
  | failed e => exact connection_endReading _ _ ▸ hreceive.trans (.close _)

theorem narrows_begin (s : Session) (turn : Turn) : Narrows s.connection (s.begin turn).connection := by
  cases turn with
  | writer => exact .refl _
  | reader =>
    rw [begin]
    split
    · exact .refl _
    · split
      · show Narrows s.connection ((s.report .stopRequested).closeWith .closed).connection
        rw [connection_closeWith]
        exact .close _
      · exact .refl _
  | task id =>
    rw [begin]
    split <;> exact .refl _

theorem narrows_step {s s' : Session} (h : s.step = some s') : Narrows s.connection s'.connection := by
  unfold step at h
  split at h
  · exact Option.some.inj h ▸ s.narrows_readStep
  · exact Option.some.inj h ▸ .of_eq s.connection_writeStep
  · exact Option.some.inj h ▸ .of_eq (s.connection_runStep _ _ _ _)
  · split at h
    · cases h
    · next turn rest _ => exact Option.some.inj h ▸ narrows_begin { s with ready := rest } turn

/-- **A connection only narrows**, whatever happens. -/
theorem narrows_move (s : Session) (m : Move) : Narrows s.connection (s.move m).connection := by
  have harrives : ∀ (connection : LocalEnd) (host : HostEnd), Narrows s.connection connection →
      Narrows s.connection (wakeReader { s with connection, host }).connection := by
    intro connection host h
    rw [connection_wakeReader]
    exact h
  cases m with
  | step =>
    rw [move]
    cases hstep : s.step with
    | none => exact .refl _
    | some s' => exact narrows_step hstep
  | start =>
    show Narrows s.connection (if s.reader = .notStarted then _ else s).connection
    split <;> exact .refl _
  | shutdown =>
    rw [move, shutdown, connection_closeWith]
    exact .close _
  | requestStop =>
    rw [move, requestStop, connection_wakeReader]
    exact .refl _
  | abandon tag =>
    rw [move, abandon]
    split <;> exact .refl _
  | openGate gate =>
    obtain ⟨tasks, due, hresume, -⟩ := resumeGate_spec { s with openGates := gate :: s.openGates } gate
    rw [move, openGate, hresume]
    exact .refl _
  | handOver id method args =>
    rw [move]
    rcases s.dispatchRequest_spec id method args with ⟨-, due, journal, writerDue, herror⟩ | ⟨-, hok⟩
    · rw [herror]
      exact .refl _
    · rw [hok]
      exact .refl _
  | hostSend m =>
    rw [move, hostSend]
    by_cases hclosed : s.host.closed = true
    · rw [if_pos hclosed]
      exact .refl _
    · rw [if_neg hclosed]
      exact harrives _ s.host ⟨rfl, id, id, Or.inl, id⟩
  | hostWrite bytes => exact harrives _ s.host ⟨rfl, id, id, Or.inl, id⟩
  | hostHangUp => exact harrives _ _ ⟨rfl, id, id, Or.inl, id⟩
  | hostLeave => exact harrives _ _ ⟨rfl, id, id, Or.inl, fun _ => rfl⟩
  | _ => exact .refl _

/-- A connection that was shut down is closed. -/
theorem flagged_after (setup : Setup) (moves : List Move) :
    (Chronicle.after setup moves).session.connection.shutDown = true →
      (Chronicle.after setup moves).session.connection.closed = true := by
  induction moves using List.reverseRecOn with
  | nil => exact fun h => Bool.noConfusion h
  | append_singleton moves m ih =>
    rw [Chronicle.after_concat]
    have hnarrows := narrows_move (Chronicle.after setup moves).session m
    exact fun hshut => (hnarrows.flagged hshut).elim (fun hbefore => hnarrows.closed (ih hbefore)) id

/-! ## Sessions as outflows -/

/-- The outflow has the link of the session, and its outlet is as open as the session's connection. Nothing is on the way in it, unless the
host has gone. -/
structure Conveys (c : Chronicle) (x : Outflow TaskId) : Prop where
  link : x.acts = acts c.log
  format : x.outlet.format = c.session.connection.format
  closed : x.outlet.closed = c.session.connection.closed
  sending : x.outlet.sending = .idle
  closing : x.outlet.closing = if c.session.connection.shutDown then .over else .notYet
  written : x.outlet.written = encodeAll x.outlet.format c.written
  there : c.session.connection.abandoned = false →
    x.broke = false ∧ x.outlet.buffer = [] ∧ x.outlet.shut = c.session.connection.shutDown

theorem Conveys.exchange {c : Chronicle} {x : Outflow TaskId} (h : Conveys c x) : x.exchange = c.exchange := by
  rw [Outflow.exchange, h.link]
  rfl

theorem conveys_start (setup : Setup) : Conveys (Chronicle.after setup []) (Outflow.after setup.format []) :=
  ⟨rfl, rfl, rfl, rfl, rfl, rfl, fun _ => ⟨rfl, rfl, rfl⟩⟩

/-- A move that is not the writer's acts on the link, and may close the connection. -/
theorem Conveys.quiet {c : Chronicle} {x : Outflow TaskId} (h : Conveys c x) {m : Move} (quiet : Quiet (c.session.moveDeeds m)) :
    ∃ as : List (Outflow.Act TaskId), Conveys (c.move m) (as.foldl Outflow.act x) := by
  have hnarrows := narrows_move c.session m
  have hlinks := x.links quiet
  have hwritten : (c.move m).written = c.written := by
    rw [Chronicle.written, Chronicle.exchange_move]
    exact (Exchange.sameFate_acts c.exchange quiet).written
  have hthere : (c.move m).session.connection.abandoned = false → c.session.connection.abandoned = false :=
    fun hstays => eq_false_of_imp hstays hnarrows.abandoned
  -- an outlet that has been closed further, and is otherwise as before
  have hconveys : ∀ outlet : Outlet, outlet.format = x.outlet.format → outlet.sending = .idle → outlet.written = x.outlet.written →
      outlet.closed = (c.move m).session.connection.closed →
      outlet.closing = (if (c.move m).session.connection.shutDown then .over else .notYet) →
      (c.session.connection.abandoned = false → outlet.buffer = [] ∧ outlet.shut = (c.move m).session.connection.shutDown) →
      Conveys (c.move m) { x with outlet, acts := x.acts ++ acts (c.session.moveDeeds m) } := by
    intro outlet hformat hsending hsame hclosed hclosing hfree
    refine ⟨?_, hformat.trans (h.format.trans hnarrows.format.symm), hclosed, hsending, hclosing, ?_, fun hstays => ?_⟩
    · show x.acts ++ _ = acts (c.log ++ _)
      rw [h.link, acts_append]
    · show outlet.written = encodeAll outlet.format (c.move m).written
      rw [hsame, hformat, hwritten, h.written]
    · exact ⟨(h.there (hthere hstays)).1, hfree (hthere hstays)⟩
  by_cases hsame : (c.move m).session.connection.shutDown = c.session.connection.shutDown
  · have hclosing : x.outlet.closing = if (c.move m).session.connection.shutDown then .over else .notYet := hsame ▸ h.closing
    have hfree : c.session.connection.abandoned = false →
        x.outlet.buffer = [] ∧ x.outlet.shut = (c.move m).session.connection.shutDown := fun hstays => hsame ▸ (h.there hstays).2
    by_cases hclosed : (c.move m).session.connection.closed = true
    · refine ⟨(acts (c.session.moveDeeds m)).map .link ++ [.hear], ?_⟩
      rw [List.foldl_append, hlinks]
      exact hconveys x.outlet.hear rfl h.sending rfl hclosed.symm hclosing hfree
    · have hbefore : ¬ c.session.connection.closed = true := fun hbefore => hclosed (hnarrows.closed hbefore)
      refine ⟨(acts (c.session.moveDeeds m)).map .link, ?_⟩
      rw [hlinks]
      have hopened : x.outlet.closed = (c.move m).session.connection.closed := by
        rw [h.closed, Bool.eq_false_iff.mpr hbefore, Bool.eq_false_iff.mpr hclosed]
      exact hconveys x.outlet rfl h.sending rfl hopened hclosing hfree
  · -- the connection is shut down in this move
    have hbefore : c.session.connection.shutDown = false :=
      Bool.eq_false_iff.mpr fun hshut => hsame ((hnarrows.shutDown hshut).trans hshut.symm)
    have hnow : (c.move m).session.connection.shutDown = true := by simpa [hbefore] using hsame
    have hclosed : (c.move m).session.connection.closed = true :=
      (hnarrows.flagged hnow).resolve_left (by simp [hbefore])
    have hclosing : x.outlet.closing = .notYet := by rw [h.closing, hbefore]; rfl
    refine ⟨[.close, .lockToClose, .shutDown, .giveUp] ++ (acts (c.session.moveDeeds m)).map .link, ?_⟩
    rw [List.foldl_append, Outflow.closes h.sending hclosing, Outflow.links _ quiet]
    refine hconveys _ rfl h.sending rfl hclosed.symm (by rw [hnow]; rfl) fun hstays => ⟨(h.there hstays).2.1, ?_⟩
    rw [hnow]
    simp [(h.there hstays).2.1]

section Writing

variable {c : Chronicle} {x : Outflow TaskId} (h : Conveys c x) (mirrors : Mirrors c.session c.exchange)
  (flagged : c.session.connection.shutDown = true → c.session.connection.closed = true) (writing : c.session.focus = .writing)

include writing in
theorem moveDeeds_of_writing : c.session.moveDeeds .step = c.session.writeDeeds := by
  rw [moveDeeds, stepDeeds, writing]

include writing in
theorem connection_of_writing : (c.move .step).session.connection = c.session.connection := by
  have hstep : c.session.move .step = c.session.writeStep := by rw [move, step, writing]; rfl
  exact (congrArg Session.connection hstep).trans c.session.connection_writeStep

include h flagged in
/-- The first close has not begun while the connection is open. -/
theorem Conveys.closing_of_opened (opened : c.session.connection.closed = false) :
    c.session.connection.shutDown = false ∧ x.outlet.closing = .notYet := by
  have hnotShut : c.session.connection.shutDown = false := eq_false_of_imp opened flagged
  exact ⟨hnotShut, by rw [h.closing, hnotShut]; rfl⟩

variable {m : Message} {link : Link TaskId} (htake : c.session.link.takeOutbound = some (m, link))

include h mirrors htake

theorem Conveys.hand_take : (x.act .take).exchange.hand = some m := by
  show (Exchange.after (x.acts ++ [.take])).hand = some m
  rw [Exchange.after_concat]
  show (x.exchange.act .take).hand = some m
  rw [h.exchange]
  simp [Exchange.act, mirrors.hand, mirrors.link, htake]

include flagged writing

/-- A message that can be written goes all the way through the outlet. -/
theorem Conveys.written_move (sends : Sends c.session) :
    ∃ as : List (Outflow.Act TaskId), Conveys (c.move .step) (as.foldl Outflow.act x) := by
  have hconnection := connection_of_writing writing
  have hopened := sends.opened
  obtain ⟨hnotShut, hclosing⟩ := h.closing_of_opened flagged hopened
  obtain ⟨hsound, hempty, hshut⟩ := h.there sends.there
  have hdeeds : acts (c.session.moveDeeds .step) = [.take, .write] := by
    rw [moveDeeds_of_writing writing, writeDeeds, htake]
    simp only [send_of_sends sends m]
    rfl
  have hlog : acts (c.move .step).log = acts c.log ++ [.take, .write] := by
    rw [Chronicle.move, acts_append, hdeeds]
  have hwritten : (c.move .step).written = c.written ++ [m] := by
    rw [Chronicle.written, Chronicle.exchange_move, hdeeds, mirrors.log_write htake, Exchange.written_concat]
    rfl
  have hpassage := Outflow.sends (h.hand_take mirrors htake) h.sending hclosing (h.closed.trans hopened) (hshut.trans hnotShut) hempty
  refine ⟨.take :: [.pass, .lock, .begin, .flow (encode (x.act .take).outlet.format m).length, .finish], ?_⟩
  rw [List.foldl_cons, hpassage]
  refine ⟨?_, hconnection ▸ h.format, hconnection ▸ h.closed, h.sending, hconnection ▸ h.closing, ?_, fun hstays => ?_⟩
  · show x.acts ++ [.take] ++ [.write] = acts (c.move .step).log
    rw [hlog, h.link, List.append_assoc]
    rfl
  · show x.outlet.written ++ encode x.outlet.format m = encodeAll x.outlet.format (c.move .step).written
    rw [hwritten, h.written, Outflow.encodeAll_append]
    simp [encodeAll]
  · rw [hconnection] at hstays ⊢
    exact h.there hstays

/-- A message is lost to a closed connection, or to a host that has gone. -/
theorem Conveys.lost_move (sends : ¬ Sends c.session) :
    ∃ as : List (Outflow.Act TaskId), Conveys (c.move .step) (as.foldl Outflow.act x) := by
  have hconnection := connection_of_writing writing
  have hhand := h.hand_take mirrors htake
  obtain ⟨reason, hreason⟩ := send_of_not_sends sends m
  have hdeeds : acts (c.session.moveDeeds .step) = [.take, .lose reason] := by
    rw [moveDeeds_of_writing writing, writeDeeds, htake]
    simp only [hreason]
    rfl
  have hlog : acts (c.move .step).log = acts c.log ++ [.take, .lose reason] := by
    rw [Chronicle.move, acts_append, hdeeds]
  have hwritten : (c.move .step).written = c.written := by
    rw [Chronicle.written, Chronicle.exchange_move, hdeeds, mirrors.log_lose htake, Exchange.written_concat]
    exact List.append_nil _
  -- whichever it is, the outlet is as it was
  have hconveys : ∀ y : Outflow TaskId, y.acts = x.acts ++ [.take] ++ [.lose reason] → y.outlet = x.outlet →
      (c.session.connection.abandoned = false → y.broke = x.broke) → Conveys (c.move .step) y := by
    intro y hacts houtlet hbroke
    refine ⟨?_, ?_, ?_, ?_, ?_, ?_, fun hstays => ?_⟩
    · rw [hacts, hlog, h.link, List.append_assoc]
      rfl
    · rw [houtlet, hconnection, h.format]
    · rw [houtlet, hconnection, h.closed]
    · rw [houtlet, h.sending]
    · rw [houtlet, hconnection, h.closing]
    · rw [houtlet, hwritten, h.written]
    · rw [hconnection] at hstays ⊢
      rw [houtlet, hbroke hstays]
      exact h.there hstays
  by_cases hclosed : c.session.connection.closed = true
  · have hreason : reason = .closed := by
      rw [LocalEnd.send, if_pos hclosed] at hreason
      exact (Except.error.inj hreason).symm
    refine ⟨[.take, .pass], ?_⟩
    rw [List.foldl_cons, List.foldl_cons, Outflow.refuses hhand h.sending (h.closed.trans hclosed)]
    exact hconveys _ (by rw [hreason]; rfl) rfl fun _ => rfl
  · have hopened : c.session.connection.closed = false := Bool.eq_false_iff.mpr hclosed
    have hgone : c.session.connection.abandoned = true :=
      by_contra fun hthere => sends ⟨hopened, Bool.eq_false_iff.mpr hthere⟩
    obtain ⟨text, htext⟩ : ∃ text, reason = .sendFailed text := by
      rw [LocalEnd.send, if_neg hclosed, if_pos hgone] at hreason
      exact ⟨_, (Except.error.inj hreason).symm⟩
    have hclosing := (h.closing_of_opened flagged hopened).2
    refine ⟨.take :: [.pass, .lock, .fail text], ?_⟩
    rw [List.foldl_cons, Outflow.fails hhand h.sending hclosing (h.closed.trans hopened)]
    exact hconveys _ (by rw [htext]; rfl) rfl fun hthere => absurd (hgone.symm.trans hthere) (by simp)

omit htake

/-- The writer's turn takes a message through the outlet, or loses it, if there is one. -/
theorem Conveys.write : ∃ as : List (Outflow.Act TaskId), Conveys (c.move .step) (as.foldl Outflow.act x) := by
  cases htake : c.session.link.takeOutbound with
  | none =>
    have hnone : c.session.moveDeeds .step = [] := by rw [moveDeeds_of_writing writing, writeDeeds, htake]
    exact h.quiet (hnone ▸ quiet_nil)
  | some taken =>
    by_cases hsends : Sends c.session
    · exact h.written_move mirrors flagged writing htake hsends
    · exact h.lost_move mirrors flagged writing htake hsends

end Writing

/-- **Every session is an outflow** whose pipe always has room. -/
theorem conveys_after (setup : Setup) (moves : List Move) :
    ∃ as, Conveys (Chronicle.after setup moves) (Outflow.after setup.format as) := by
  induction moves using List.reverseRecOn with
  | nil => exact ⟨[], conveys_start setup⟩
  | append_singleton moves m ih =>
    obtain ⟨as, has⟩ := ih
    have hflagged := flagged_after setup moves
    have hgoesOn : ∃ more : List (Outflow.Act TaskId),
        Conveys ((Chronicle.after setup moves).move m) (more.foldl Outflow.act (Outflow.after setup.format as)) := by
      by_cases hwrites : m = .step ∧ (Chronicle.after setup moves).session.focus = .writing
      · obtain ⟨rfl, hwriting⟩ := hwrites
        exact has.write (mirrors_after setup moves) hflagged hwriting
      · exact has.quiet (quiet_moveDeeds fun hm hfocus => hwrites ⟨hm, hfocus⟩)
    obtain ⟨more, hmore⟩ := hgoesOn
    refine ⟨as ++ more, ?_⟩
    rw [Chronicle.after_concat, Outflow.after, List.foldl_append]
    exact hmore

/-! ## In order and whole -/

/-- **What reaches the host is in order and whole.** Let any tasks notify, call and answer, let the run end or be shut down at any point,
and let the pipe take as little at a time as it likes; only let no write fail before the connection is closed. Then the bytes that were
written are at every moment a first part of the messages of the queue, one after the other. Until the connection is closed none is left
out: what is not written is in the buffer or waits. Once it is closed nothing passes any more, and what is written is of messages that had
passed. When the pipe has been shut down it has taken some first messages whole, and stays so. Every session is such a history. -/
theorem outbound_is_in_order_and_whole {Caller : Type} (format : Format) (as : List (Outflow.Act Caller)) :
    let x := Outflow.after format as
    (x.broke = false →
      x.outlet.written <+: encodeAll format x.queued ∧
      (x.outlet.closed = false →
        x.outlet.written ++ x.outlet.buffer ++ encodeAll format x.waiting = encodeAll format x.queued) ∧
      (x.outlet.closed = true → x.passed <+: x.queued ∧ ∀ more,
        let y := Outflow.after format (as ++ more)
        y.passed = x.passed ∧ y.outlet.written <+: encodeAll format x.passed) ∧
      (x.outlet.shut = true → x.outlet.closed = true ∧ (∃ k, x.outlet.written = encodeAll format (x.queued.take k)) ∧
        ∀ more, (Outflow.after format (as ++ more)).outlet.written = x.outlet.written)) ∧
    ∀ setup moves, ∃ acts : List (Outflow.Act TaskId), Conveys (Chronicle.after setup moves) (Outflow.after setup.format acts) := by
  intro x
  refine ⟨fun sound => ?_, conveys_after⟩
  have hstreams := Outflow.streams_after format as
  have hpassed := Outflow.passed_prefix sound
  refine ⟨?_, Outflow.nothing_lost sound, ?_, ?_⟩
  · exact (Outflow.written_prefix sound).trans (Outflow.encodeAll_prefix hpassed format)
  · intro closed
    refine ⟨hpassed, fun more => ?_⟩
    obtain ⟨-, hsame, hbroke⟩ := Outflow.closed_after format closed more
    exact ⟨hsame, hsame ▸ Outflow.written_prefix (hbroke.trans sound)⟩
  · intro shut
    have hover := hstreams.done shut
    obtain ⟨messages, hfirst, hwritten⟩ := hstreams.whole shut
    have hqueued := (hfirst.trans (Outflow.inOrder_after format sound).begun).trans hpassed
    refine ⟨hstreams.flagged (by simp [hover]), ⟨messages.length, ?_⟩, fun more => (Outflow.shut_after format shut more).2⟩
    rw [hwritten, Outflow.format_after, ← List.prefix_iff_eq_take.mp hqueued]

/-- The pipe is full after three bytes of a message, when the connection is closed. Then it takes the rest, and is shut down. -/
def closedMidway : List (Outflow.Act TaskId) :=
  [.link (.notify "one" []), .link (.notify "two" []), .take, .pass, .lock, .begin, .flow 3, .link (.close .closed), .close]

def shutBehind : List (Outflow.Act TaskId) :=
  [.link (.notify "three" []), .lockToClose, .flow 5, .take, .flow 100, .finish, .take, .pass, .lockToClose, .shutDown]

theorem close_leaves_whole_messages :
    let x := Outflow.after .msgpack closedMidway
    let y := Outflow.after .msgpack (closedMidway ++ shutBehind)
    x.outlet.written = (encode .msgpack (.notify "one" [])).take 3 ∧
    (∀ more, (Outflow.after .msgpack (closedMidway ++ more)).outlet.written <+: encodeAll .msgpack [.notify "one" []]) ∧
    y.outlet.written = encode .msgpack (.notify "one" []) ∧
    (∃ k, y.outlet.written = encodeAll .msgpack (y.queued.take k)) ∧ y.queued.length = 3 := by
  have hmidway : (Outflow.after .msgpack closedMidway).outlet.closed = true ∧
      (Outflow.after .msgpack closedMidway).passed = [.notify "one" []] := by cbv
  have hwritten : (Outflow.after .msgpack closedMidway).outlet.written = (encode .msgpack (.notify "one" [])).take 3 := by cbv
  have hshut : (Outflow.after .msgpack (closedMidway ++ shutBehind)).outlet.shut = true := by cbv
  have hall : (Outflow.after .msgpack (closedMidway ++ shutBehind)).outlet.written = encode .msgpack (.notify "one" []) := by cbv
  have hqueued : (Outflow.after .msgpack (closedMidway ++ shutBehind)).queued.length = 3 := by cbv
  obtain ⟨-, -, honly, -⟩ := (outbound_is_in_order_and_whole .msgpack closedMidway).1 (by cbv)
  obtain ⟨-, -, -, hwhole⟩ := (outbound_is_in_order_and_whole .msgpack (closedMidway ++ shutBehind)).1 (by cbv)
  refine ⟨hwritten, fun more => ?_, hall, (hwhole hshut).2.1, hqueued⟩
  rw [← hmidway.2]
  exact ((honly hmidway.1).2 more).2

end Session
end EditorLink
