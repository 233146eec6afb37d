import Mathlib
import EditorLink.Proofs.Session.Replies

/-!
# EditorLink.Proofs.Session.Delivery -- what of the queue reaches the host

Messages are queued at any time, and the writer takes them when it has its turn. It can write them as long as the connection is open
and the host is there; both end for good. So what was written is a first part of what was queued, and all of it while writing is
possible and the writer is done. The end of a run closes the connection at once. What the writer has not taken until then is lost, the
reply to a request among it whose refusal ends the run.
-/

namespace EditorLink

/-- A flag that could only be set if another one is. -/
theorem eq_false_of_imp {p q : Bool} (hp : p = false) (h : q = true → p = true) : q = false :=
  Bool.eq_false_iff.mpr fun hq => Bool.false_ne_true (hp.symm.trans (h hq))

/-! ## Messages that reach the host -/

namespace Exchange

variable {Caller : Type}

/-- The message that reaches the host. -/
def Event.written? : Event Caller → Option Message
  | written m => some m
  | _ => none

/-- The messages that reached the host, first things first. -/
def written (log : List (Moment Caller)) : List Message := log.filterMap (·.event.written?)

theorem sent_concat (log : List (Moment Caller)) (m : Moment Caller) :
    sent (log ++ [m]) = sent log ++ m.event.sent?.toList := by
  cases hsent : m.event.sent? <;> simp [sent, hsent]

theorem written_concat (log : List (Moment Caller)) (m : Moment Caller) :
    written (log ++ [m]) = written log ++ m.event.written?.toList := by
  cases hwritten : m.event.written? <;> simp [written, hwritten]

/-- Whether an act is none of the writer's. -/
def Act.quiet : Act Caller → Bool
  | take => false
  | write => false
  | lose _ => false
  | _ => true

/-- Two exchanges of which the same messages have left the writer's hand, with the same fate. -/
structure SameFate (x y : Exchange Caller) : Prop where
  sent : sent y.log = sent x.log
  written : written y.log = written x.log

theorem SameFate.refl (x : Exchange Caller) : SameFate x x := ⟨rfl, rfl⟩

theorem SameFate.trans {x y z : Exchange Caller} (hxy : SameFate x y) (hyz : SameFate y z) : SameFate x z :=
  ⟨hyz.sent.trans hxy.sent, hyz.written.trans hxy.written⟩

/-- A moment at which nothing leaves the writer's hand. -/
theorem sameFate_note {x y : Exchange Caller} {e : Event Caller} {ended : List (Completion Caller)}
    (hsent : e.sent? = none) (hlog : y.log = x.log ++ [⟨e, ended⟩]) : SameFate x y := by
  have hwritten : e.written? = none := by
    cases e with
    | written m => cases hsent
    | _ => rfl
  constructor
  · simp [hlog, sent_concat, hsent]
  · simp [hlog, written_concat, hwritten]

/-- Only the writer sends. -/
theorem sameFate_act (x : Exchange Caller) {a : Act Caller} (quiet : a.quiet = true) : SameFate x (x.act a) := by
  cases a with
  | take => cases quiet
  | write => cases quiet
  | lose reason => cases quiet
  | invoke caller method args =>
    rw [act]
    split
    · exact .refl x
    · exact sameFate_note rfl rfl
    · exact sameFate_note rfl rfl
  | abandon caller => exact sameFate_note rfl rfl
  | notify method args => exact sameFate_note rfl rfl
  | answer id outcome => exact sameFate_note rfl rfl
  | read id outcome =>
    rw [act]
    split
    · exact .refl x
    · split
      · exact sameFate_note rfl rfl
      · have hread : SameFate x (x.note (.read id outcome)) := sameFate_note rfl rfl
        exact hread.trans (sameFate_note rfl (endRun_log _ _))
  | stop cause =>
    rw [act]
    split
    · exact .refl x
    · exact sameFate_note rfl (endRun_log _ _)
  | close reason => exact sameFate_note rfl rfl

theorem sameFate_acts (x : Exchange Caller) {as : List (Act Caller)} (quiet : ∀ a ∈ as, a.quiet = true) :
    SameFate x (as.foldl act x) := by
  induction as generalizing x with
  | nil => exact .refl x
  | cons a as ih =>
    have hfirst := sameFate_act x (quiet a List.mem_cons_self)
    exact hfirst.trans (ih (x.act a) fun b hb => quiet b (List.mem_cons_of_mem _ hb))

end Exchange

namespace Session

open Extension Host Wire

/-! ## Who writes -/

/-- The messages that were written to the host, first things first. -/
def Chronicle.written (c : Chronicle) : List Message :=
  Exchange.written c.exchange.log

/-- Messages can be written. -/
structure Sends (s : Session) : Prop where
  opened : s.connection.closed = false
  there : s.connection.abandoned = false

theorem send_of_sends {s : Session} (h : Sends s) (m : Message) :
    s.connection.send m = .ok (encode s.connection.format m) := by
  simp [LocalEnd.send, h.opened, h.there]

theorem send_of_not_sends {s : Session} (h : ¬ Sends s) (m : Message) :
    ∃ reason, s.connection.send m = .error reason := by
  unfold LocalEnd.send
  by_cases hclosed : s.connection.closed = true
  · exact ⟨_, if_pos hclosed⟩
  · by_cases hgone : s.connection.abandoned = true
    · exact ⟨_, by rw [if_neg hclosed, if_pos hgone]⟩
    · exact absurd ⟨by simpa using hclosed, by simpa using hgone⟩ h

/-- Some deeds of which none is the writer's. -/
def Quiet (deeds : List Deed) : Prop :=
  ∀ a ∈ acts deeds, a.quiet = true

theorem quiet_nil : Quiet [] := by
  simp [Quiet, acts]

theorem Quiet.append {deeds more : List Deed} (h : Quiet deeds) (hmore : Quiet more) : Quiet (deeds ++ more) := by
  intro a ha
  rw [acts_append] at ha
  exact (List.mem_append.mp ha).elim (h a) (hmore a)

theorem quiet_link {a : Exchange.Act TaskId} (quiet : a.quiet = true) : Quiet [.link a] := by
  intro b hb
  obtain rfl : b = a := List.mem_singleton.mp hb
  exact quiet

theorem quiet_leaveDeeds (t : TaskId) (role : Role) (exit : Exit) (outer : List (Exit → Program)) :
    Quiet (leaveDeeds t role exit outer) := by
  cases outer with
  | cons next outer => cases outer <;> exact quiet_nil
  | nil =>
    rw [leaveDeeds]
    cases role.reply? exit with
    | none => exact quiet_nil
    | some reply => exact quiet_link (a := .answer reply.1 reply.2) rfl

theorem quiet_runDeeds (s : Session) (t : TaskId) (role : Role) (outer : List (Exit → Program)) (p : Program) :
    Quiet (s.runDeeds t role outer p) := by
  cases p with
  | finish e => exact quiet_leaveDeeds t role _ outer
  | panic text => exact quiet_leaveDeeds t role _ outer
  | access change next =>
    rw [runDeeds]
    split <;> exact quiet_nil
  | notify method args next => exact quiet_link rfl
  | invoke method args release next => exact quiet_link rfl
  | _ => exact quiet_nil

theorem quiet_requestDeeds (s : Session) (id : UInt32) (method : String) (args : List Value) :
    Quiet (s.requestDeeds id method args) := by
  unfold requestDeeds
  split
  · exact quiet_link (a := .answer id _) rfl
  · exact quiet_nil

theorem quiet_readDeeds (s : Session) (received : Received) : Quiet (s.readDeeds received) := by
  cases received with
  | message m =>
    cases m with
    | reply id outcome => exact quiet_link rfl
    | notify method args =>
      rw [readDeeds]
      split
      · exact quiet_link (a := .stop _) rfl
      · exact quiet_nil
    | request id method args =>
      rw [readDeeds]
      refine (s.quiet_requestDeeds id method args).append ?_
      split
      · exact quiet_link rfl
      · exact quiet_nil
  | finished => exact quiet_link rfl
  | failed e => exact quiet_link rfl
  | _ => exact quiet_nil

theorem quiet_beginDeeds (s : Session) (turn : Turn) : Quiet (s.beginDeeds turn) := by
  cases turn with
  | reader =>
    rw [beginDeeds]
    split
    · exact quiet_link rfl
    · exact quiet_nil
  | _ => exact quiet_nil

/-- Only the writer's turn writes. -/
theorem quiet_stepDeeds {s : Session} (h : s.focus ≠ .writing) : Quiet s.stepDeeds := by
  unfold stepDeeds
  split
  · exact s.quiet_readDeeds _
  · rename_i hwriting
    exact absurd hwriting h
  · exact s.quiet_runDeeds _ _ _ _
  · split
    · exact quiet_nil
    · exact s.quiet_beginDeeds _

theorem quiet_moveDeeds {s : Session} {m : Move} (h : m = .step → s.focus ≠ .writing) : Quiet (s.moveDeeds m) := by
  cases m with
  | step => exact quiet_stepDeeds (h rfl)
  | shutdown => exact quiet_link rfl
  | abandon tag =>
    rw [moveDeeds]
    cases s.tasks.find? (hasTag tag) with
    | none => exact quiet_nil
    | some t => exact quiet_link rfl
  | handOver id method args => exact s.quiet_requestDeeds id method args
  | _ => exact quiet_nil

theorem Chronicle.exchange_move (c : Chronicle) (m : Move) :
    (c.move m).exchange = (acts (c.session.moveDeeds m)).foldl Exchange.act c.exchange := by
  rw [exchange, move, acts_append, Exchange.after, List.foldl_append]
  rfl

/-- What can become of the messages on the queue: nothing leaves it; or one message does, and it is written if that is possible and
else it is lost. -/
inductive Fate (s : Session) (x y : Exchange TaskId) : Prop
  | kept (same : Exchange.SameFate x y)
  | left (m : Message) (sent : Exchange.sent y.log = Exchange.sent x.log ++ [m])
      (written : Sends s → Exchange.written y.log = Exchange.written x.log ++ [m])
      (lost : ¬ Sends s → Exchange.written y.log = Exchange.written x.log)

/-- What the writer takes and writes is written, and leaves its hand. -/
theorem Mirrors.log_write {s : Session} {x : Exchange TaskId} (mirrors : Mirrors s x) {m : Message} {link : Link TaskId}
    (htake : s.link.takeOutbound = some (m, link)) :
    ([.take, .write].foldl Exchange.act x).log = x.log ++ [⟨.written m, []⟩] := by
  simp [Exchange.act, mirrors.hand, mirrors.link, htake, Exchange.note]

theorem Mirrors.log_lose {s : Session} {x : Exchange TaskId} (mirrors : Mirrors s x) {m : Message} {link : Link TaskId}
    (htake : s.link.takeOutbound = some (m, link)) (reason : TransportError) :
    ([.take, .lose reason].foldl Exchange.act x).log =
      x.log ++ [⟨.lost m reason, (link.writeFailed m reason).1.toList⟩] := by
  simp [Exchange.act, mirrors.hand, mirrors.link, htake, Exchange.note]

theorem fate_writeDeeds {s : Session} {x : Exchange TaskId} (mirrors : Mirrors s x) :
    Fate s x ((acts s.writeDeeds).foldl Exchange.act x) := by
  unfold writeDeeds
  cases htake : s.link.takeOutbound with
  | none => exact .kept (.refl x)
  | some taken =>
    obtain ⟨m, link⟩ := taken
    simp only
    by_cases hsends : Sends s
    · rw [send_of_sends hsends m]
      have hlog := mirrors.log_write htake
      refine .left m ?_ (fun _ => ?_) fun h => absurd hsends h
      · show Exchange.sent ([.take, .write].foldl Exchange.act x).log = _
        rw [hlog, Exchange.sent_concat]
        rfl
      · show Exchange.written ([.take, .write].foldl Exchange.act x).log = _
        rw [hlog, Exchange.written_concat]
        rfl
    · obtain ⟨reason, hreason⟩ := send_of_not_sends hsends m
      rw [hreason]
      have hlog := mirrors.log_lose htake reason
      refine .left m ?_ (fun h => absurd h hsends) fun _ => ?_
      · show Exchange.sent ([.take, .lose reason].foldl Exchange.act x).log = _
        rw [hlog, Exchange.sent_concat]
        rfl
      · show Exchange.written ([.take, .lose reason].foldl Exchange.act x).log = _
        rw [hlog, Exchange.written_concat]
        exact List.append_nil _

/-- Every move has one of the two fates. -/
theorem fate_move {c : Chronicle} (mirrors : Mirrors c.session c.exchange) (m : Move) :
    Fate c.session c.exchange (c.move m).exchange := by
  rw [c.exchange_move m]
  by_cases hwrites : m = .step ∧ c.session.focus = .writing
  · obtain ⟨rfl, hfocus⟩ := hwrites
    have hdeeds : c.session.moveDeeds .step = c.session.writeDeeds := by rw [moveDeeds, stepDeeds, hfocus]
    rw [hdeeds]
    exact fate_writeDeeds mirrors
  · have hquiet : Quiet (c.session.moveDeeds m) := quiet_moveDeeds fun hm hfocus => hwrites ⟨hm, hfocus⟩
    exact .kept (Exchange.sameFate_acts c.exchange hquiet)

/-! ## What is for good -/

/-- What no move takes back. A closed connection stays closed, and a host that is gone stays away; a writer that is done has left
nothing on the queue; and a run ends only with its connection closed. -/
structure Onward (s s' : Session) : Prop where
  closed : s.connection.closed = true → s'.connection.closed = true
  abandoned : s.connection.abandoned = true → s'.connection.abandoned = true
  drained : (s.writerDue = false → s.link.outbound = []) → s'.writerDue = false → s'.link.outbound = []
  ended : s'.reader = .ended → s.reader = .ended ∨ s'.connection.closed = true

namespace Onward

theorem refl (s : Session) : Onward s s :=
  ⟨id, id, id, Or.inl⟩

theorem trans {s t u : Session} (hst : Onward s t) (htu : Onward t u) : Onward s u where
  closed := htu.closed ∘ hst.closed
  abandoned := htu.abandoned ∘ hst.abandoned
  drained := htu.drained ∘ hst.drained
  ended := by
    intro hended
    rcases htu.ended hended with ht | hclosed
    · exact (hst.ended ht).imp id htu.closed
    · exact Or.inr hclosed

/-- None of all that is touched. -/
theorem beside {s s' : Session} (hconnection : s'.connection = s.connection)
    (houtbound : s'.link.outbound = s.link.outbound) (hdue : s'.writerDue = s.writerDue)
    (hreader : s'.reader = s.reader) : Onward s s' where
  closed := by rw [hconnection]; exact id
  abandoned := by rw [hconnection]; exact id
  drained := by rw [houtbound, hdue]; exact id
  ended := by rw [hreader]; exact Or.inl

theorem sending (s : Session) (l : Link TaskId) : Onward s (s.sending l) := by
  rw [sending_eq]
  exact ⟨id, id, fun _ hdue => Bool.noConfusion hdue, Or.inl⟩

theorem complete (s : Session) (c : Completion TaskId) : Onward s (s.complete c) := by
  obtain ⟨tasks, due, hcomplete, -⟩ := s.complete_spec c
  rw [hcomplete]
  exact beside rfl rfl rfl rfl

theorem closeWith (s : Session) (reason : TransportError) : Onward s (s.closeWith reason) := by
  obtain ⟨tasks, due, journal, hclose, -⟩ := s.closeWith_spec reason
  rw [hclose]
  exact ⟨fun _ => rfl, id, id, Or.inl⟩

theorem closed_closeWith (s : Session) (reason : TransportError) : (s.closeWith reason).connection.closed = true := by
  obtain ⟨tasks, due, journal, hclose, -⟩ := s.closeWith_spec reason
  rw [hclose]
  rfl

/-- The end of a run comes after the end of its connection. -/
theorem farewellWith {s t : Session} (h : Onward s t) (hclosed : t.connection.closed = true)
    (result : Except Failure Unit) : Onward s (t.farewellWith result) :=
  ⟨h.closed, h.abandoned, h.drained, fun _ => Or.inr hclosed⟩

theorem endReading (s : Session) (result : Except Failure Unit) : Onward s (s.endReading result) := by
  have hclose := closeWith s (closeReason result)
  have hclosed := closed_closeWith s (closeReason result)
  unfold Session.endReading
  cases result with
  | ok _ => exact hclose.farewellWith hclosed _
  | error e =>
    have hreport : Onward s ((s.closeWith (closeReason (.error e))).report (.readEnded e)) :=
      hclose.trans (beside rfl rfl rfl rfl)
    exact hreport.farewellWith hclosed _

theorem stopRun (s : Session) : Onward s s.stopRun := by
  have hreport : Onward s (s.report .stopRequested) := beside rfl rfl rfl rfl
  exact (hreport.trans (closeWith _ _)).farewellWith (closed_closeWith _ _) _

theorem dropResponder (s : Session) (r : Responder) : Onward s (s.dropResponder r) := by
  unfold Session.dropResponder
  split
  · exact refl s
  · have hreport : Onward s (s.report (.unanswered r.id r.method)) := beside rfl rfl rfl rfl
    exact hreport.trans (sending _ _)

theorem conclude (s : Session) (exit : Exit) (role : Role) : Onward s (s.conclude exit role) := by
  cases role with
  | caller tag => exact beside rfl rfl rfl rfl
  | direct => exact beside rfl rfl rfl rfl
  | farewell result => exact beside rfl rfl rfl rfl
  | notification method => cases exit <;> exact beside rfl rfl rfl rfl
  | request id method =>
    cases exit with
    | ended e =>
      have hused : Onward s (s.useResponder { id, method } (Handling.outcome e)).2 := sending s _
      exact (hused.trans (dropResponder _ _)).trans (beside rfl rfl rfl rfl)
    | panicked text => exact (dropResponder s { id, method }).trans (beside rfl rfl rfl rfl)

theorem leave (s : Session) (id : TaskId) (role : Role) (exit : Exit) (outer : List (Exit → Program)) :
    Onward s (s.leave id role exit outer) := by
  cases outer with
  | nil =>
    have hidle : Onward s { s with focus := .idle } := beside rfl rfl rfl rfl
    exact hidle.trans (conclude _ exit role)
  | cons next outer => exact beside rfl rfl rfl rfl

/-- A request is handed over, and the outcome goes on. -/
theorem dispatchRequest (s : Session) (id : UInt32) (method : String) (args : List Value) :
    (∃ t, s.dispatchRequest id method args = .ok t ∧ Onward s t) ∨
    (∃ t, s.dispatchRequest id method args = .error t ∧ Onward s t) := by
  unfold Session.dispatchRequest dispatch
  by_cases hfull : s.limit ≤ s.inFlight
  · rw [if_pos hfull]
    have hreport : Onward s (s.report (.limitReached method s.limit)) := beside rfl rfl rfl rfl
    exact Or.inr ⟨_, rfl, hreport.trans (dropResponder _ _)⟩
  · rw [if_neg hfull]
    exact Or.inl ⟨_, rfl, beside rfl rfl rfl rfl⟩

theorem handle (s : Session) (m : Message) : Onward s (s.handle m) := by
  cases m with
  | reply id outcome =>
    have hreport : Onward s (s.report (.replyReceived id outcome.isOk)) := beside rfl rfl rfl rfl
    have hlink : (s.report (.replyReceived id outcome.isOk)).link = s.link := rfl
    refine hreport.trans ?_
    simp only [Session.handle, hlink]
    cases hresolve : s.link.resolve id outcome with
    | error e => exact endReading _ _
    | ok found =>
      obtain ⟨c, link⟩ := found
      have houtbound : link.outbound = s.link.outbound := by
        obtain ⟨call, -, -, rfl⟩ := Link.resolve_eq_ok_iff.mp hresolve
        rfl
      show Onward _ (Session.complete (if _ then _ else _) c)
      refine trans ?_ (complete _ c)
      split <;> exact beside rfl houtbound rfl rfl
  | notify method args =>
    simp only [Session.handle, dispatch]
    by_cases hfull : s.limit ≤ s.inFlight
    · rw [if_pos hfull]
      have hreport : Onward s (s.report (.limitReached method s.limit)) := beside rfl rfl rfl rfl
      exact hreport.trans (endReading _ _)
    · rw [if_neg hfull]
      exact beside rfl rfl rfl rfl
  | request id method args =>
    rw [Session.handle]
    rcases dispatchRequest s id method args with ⟨t, hok, ht⟩ | ⟨t, herror, ht⟩
    · rw [hok]
      exact ht
    · rw [herror]
      exact ht.trans (endReading _ _)

/-- Receiving keeps what the connection is, but for its end. -/
theorem receive (s : Session) : Onward s { s with connection := s.connection.receive.2 } := by
  unfold LocalEnd.receive
  split
  · exact ⟨fun _ => rfl, id, id, Or.inl⟩
  · exact ⟨fun _ => rfl, id, id, Or.inl⟩
  · exact ⟨id, id, id, Or.inl⟩

theorem readStep (s : Session) : Onward s s.readStep := by
  have hreceive := receive s
  unfold Session.readStep
  generalize s.connection.receive = received at hreceive ⊢
  obtain ⟨received, connection⟩ := received
  cases received with
  | message m => exact hreceive.trans (handle _ m)
  | again => exact hreceive
  | blocked => exact ⟨hreceive.closed, hreceive.abandoned, hreceive.drained, fun h => ReaderPhase.noConfusion h⟩
  | finished =>
    have hreport : Onward s (report { s with connection } .hostClosed) := hreceive.trans (beside rfl rfl rfl rfl)
    exact hreport.trans (endReading _ _)
  | failed e => exact hreceive.trans (endReading _ _)

/-- A message that is lost was not queued again. -/
theorem outbound_writeFailed (l : Link TaskId) (m : Message) (reason : TransportError) :
    (l.writeFailed m reason).2.outbound = l.outbound := by
  unfold Link.writeFailed
  split <;> rfl

theorem writeStep (s : Session) : Onward s s.writeStep := by
  unfold Session.writeStep
  cases hqueue : s.link.outbound with
  | nil =>
    rw [show s.link.takeOutbound = none by rw [Link.takeOutbound, hqueue]]
    exact ⟨id, id, fun _ _ => hqueue, Or.inl⟩
  | cons m rest =>
    rw [show s.link.takeOutbound = some (m, { s.link with outbound := rest }) by rw [Link.takeOutbound, hqueue]]
    -- a writer that is done has nothing to take
    have hdue : (s.writerDue = false → s.link.outbound = []) → s.writerDue = false → rest = [] := by
      intro hdrained hdue
      rw [hqueue] at hdrained
      exact absurd (hdrained hdue) (List.cons_ne_nil m rest)
    simp only
    cases s.connection.send m with
    | ok bytes => exact ⟨id, id, hdue, Or.inl⟩
    | error reason =>
      obtain ⟨tasks, due, journal, hlose, -⟩ :=
        lose_spec { s with link := { s.link with outbound := rest } } m reason
      simp only [hlose]
      refine ⟨id, id, fun hdrained hdone => ?_, Or.inl⟩
      exact (outbound_writeFailed _ m reason).trans (hdue hdrained hdone)

theorem runStep (s : Session) (id : TaskId) (role : Role) (outer : List (Exit → Program)) (p : Program) :
    Onward s (s.runStep id role outer p) := by
  cases p with
  | finish e => exact leave s id role (.ended e) outer
  | panic text => exact leave s id role (.panicked text) outer
  | notify method args next =>
    have hreport : Onward s (report { s with focus := .running id role next outer } (.notifying method)) :=
      beside rfl rfl rfl rfl
    exact hreport.trans (sending _ _)
  | invoke method args release next =>
    rw [Session.runStep]
    cases s.link.invoke id method args with
    | none => exact beside rfl rfl rfl rfl
    | some answer =>
      cases answer with
      | error reason => exact beside rfl rfl rfl rfl
      | ok accepted =>
        obtain ⟨call, link⟩ := accepted
        refine trans ?_ (sending _ link)
        exact beside rfl rfl rfl rfl
  | await gate next =>
    rw [Session.runStep]
    split <;> exact beside rfl rfl rfl rfl
  | _ => exact beside rfl rfl rfl rfl

theorem begin (s : Session) (turn : Turn) : Onward s (s.begin turn) := by
  cases turn with
  | writer => exact beside rfl rfl rfl rfl
  | reader =>
    rw [Session.begin]
    split
    · exact refl s
    · split
      · exact stopRun s
      · exact beside rfl rfl rfl rfl
  | task id =>
    rw [Session.begin]
    split
    · exact beside rfl rfl rfl rfl
    · exact refl s

theorem step {s s' : Session} (h : s.step = some s') : Onward s s' := by
  unfold Session.step at h
  split at h
  · exact Option.some.inj h ▸ readStep s
  · exact Option.some.inj h ▸ writeStep s
  · exact Option.some.inj h ▸ runStep s _ _ _ _
  · split at h
    · simp at h
    · rename_i turn rest _
      have htaken : Onward s { s with ready := rest } := beside rfl rfl rfl rfl
      exact Option.some.inj h ▸ htaken.trans (begin _ turn)

theorem wakeReader (s : Session) : Onward s s.wakeReader := by
  unfold Session.wakeReader
  split
  · exact ⟨id, id, id, fun h => ReaderPhase.noConfusion h⟩
  · exact refl s

/-- Something arrives from the host, or the host goes away. -/
theorem arrive {s : Session} {connection : LocalEnd} (host : HostEnd) (hclosed : connection.closed = s.connection.closed)
    (habandoned : s.connection.abandoned = true → connection.abandoned = true) :
    Onward s (Session.wakeReader { s with connection, host }) := by
  have harrived : Onward s { s with connection, host } := ⟨hclosed.trans, habandoned, id, Or.inl⟩
  exact harrived.trans (wakeReader _)

theorem move (s : Session) (m : Move) : Onward s (s.move m) := by
  cases m with
  | step =>
    rw [Session.move]
    cases hstep : s.step with
    | none => exact refl s
    | some s' => exact step hstep
  | start =>
    show Onward s (if s.reader = .notStarted then _ else _)
    split
    · exact ⟨id, id, id, fun h => ReaderPhase.noConfusion h⟩
    · exact refl s
  | shutdown => exact closeWith s .closed
  | requestStop =>
    have hstop : Onward s { s with stopping := true } := beside rfl rfl rfl rfl
    exact hstop.trans (wakeReader _)
  | abandon tag =>
    rw [Session.move, Session.abandon]
    split <;> exact beside rfl rfl rfl rfl
  | openGate gate =>
    obtain ⟨tasks, due, hresume, -⟩ := resumeGate_spec { s with openGates := gate :: s.openGates } gate
    show Onward s (resumeGate { s with openGates := gate :: s.openGates } gate)
    rw [hresume]
    exact beside rfl rfl rfl rfl
  | handOver id method args =>
    rw [Session.move]
    rcases dispatchRequest s id method args with ⟨t, hok, ht⟩ | ⟨t, herror, ht⟩
    · rw [hok]
      exact ht
    · rw [herror]
      exact ht
  | hostSend m =>
    rw [Session.move, hostSend]
    by_cases hclosed : s.host.closed = true
    · rw [if_pos hclosed]
      exact refl s
    · rw [if_neg hclosed]
      exact arrive s.host rfl id
  | hostWrite bytes => exact arrive s.host rfl id
  | hostHangUp => exact arrive _ rfl id
  | hostLeave => exact arrive _ rfl fun _ => rfl
  | _ => exact beside rfl rfl rfl rfl

end Onward

/-! ## What reaches the host -/

/-- What was written is a first part of what the writer has taken, and all of it while messages can be written. -/
structure Delivers (c : Chronicle) : Prop where
  lead : c.written <+: Exchange.sent c.exchange.log
  whole : Sends c.session → c.written = Exchange.sent c.exchange.log

theorem Delivers.move {c : Chronicle} (mirrors : Mirrors c.session c.exchange) (h : Delivers c) (m : Move) :
    Delivers (c.move m) := by
  have honward := Onward.move c.session m
  -- writing is possible afterwards only if it was before
  have hback : Sends (c.move m).session → Sends c.session := fun hsends =>
    ⟨eq_false_of_imp hsends.opened honward.closed, eq_false_of_imp hsends.there honward.abandoned⟩
  cases fate_move mirrors m with
  | kept same =>
    constructor
    · rw [same.sent, Chronicle.written, same.written]
      exact h.lead
    · intro hsends
      rw [same.sent, Chronicle.written, same.written]
      exact h.whole (hback hsends)
  | left message sent written lost =>
    by_cases hsends : Sends c.session
    · have hboth : (c.move m).written = Exchange.sent (c.move m).exchange.log := by
        rw [sent, Chronicle.written, written hsends, ← h.whole hsends]
        rfl
      exact ⟨hboth ▸ List.prefix_rfl, fun _ => hboth⟩
    · refine ⟨?_, fun h => absurd (hback h) hsends⟩
      rw [sent, Chronicle.written, lost hsends]
      exact h.lead.trans (List.prefix_append _ _)

theorem delivers_after (setup : Setup) (moves : List Move) : Delivers (Chronicle.after setup moves) := by
  induction moves using List.reverseRecOn with
  | nil => exact ⟨List.nil_prefix, fun _ => rfl⟩
  | append_singleton moves m ih =>
    rw [Chronicle.after_concat]
    exact ih.move (mirrors_after setup moves) m

/-- A writer that is done has left nothing on the queue. -/
theorem drained_after (setup : Setup) (moves : List Move) :
    (Chronicle.after setup moves).session.writerDue = false →
      (Chronicle.after setup moves).session.link.outbound = [] := by
  induction moves using List.reverseRecOn with
  | nil => exact fun _ => rfl
  | append_singleton moves m ih =>
    rw [Chronicle.after_concat]
    exact (Onward.move _ m).drained ih

/-- A run that has ended has closed its connection. -/
theorem closed_of_ended (setup : Setup) (moves : List Move) :
    (Chronicle.after setup moves).session.reader = .ended →
      (Chronicle.after setup moves).session.connection.closed = true := by
  induction moves using List.reverseRecOn with
  | nil => exact fun h => ReaderPhase.noConfusion h
  | append_singleton moves m ih =>
    rw [Chronicle.after_concat]
    intro hended
    have honward := Onward.move (Chronicle.after setup moves).session m
    exact (honward.ended hended).elim (fun h => honward.closed (ih h)) id

/-- Nothing is written to a closed connection, whatever happens. -/
theorem written_of_closed {setup : Setup} {moves : List Move}
    (closed : (Chronicle.after setup moves).session.connection.closed = true) (more : List Move) :
    (Chronicle.after setup (moves ++ more)).session.connection.closed = true ∧
      (Chronicle.after setup (moves ++ more)).written = (Chronicle.after setup moves).written := by
  induction more using List.reverseRecOn with
  | nil =>
    rw [List.append_nil]
    exact ⟨closed, rfl⟩
  | append_singleton more m ih =>
    obtain ⟨hclosed, hwritten⟩ := ih
    rw [← List.append_assoc, Chronicle.after_concat]
    refine ⟨(Onward.move _ m).closed hclosed, ?_⟩
    rw [← hwritten]
    cases fate_move (mirrors_after setup (moves ++ more)) m with
    | kept same => exact same.written
    | left message sent written lost =>
      exact lost fun hsends => Bool.false_ne_true (hsends.opened.symm.trans hclosed)

/-- A request whose refusal ends the run: its reply is due, and the connection is closed with nothing more written to it. -/
theorem refusal_closes {s : Session} {id : UInt32} {method : String} {args : List Value} (reading : s.focus = .reading)
    (received : s.connection.receive.1 = .message (.request id method args)) (full : s.limit ≤ s.inFlight) :
    s.moveDeeds .step = [.refused (.request id method) args,
      .link (.answer id (.error (Handling.noAnswer method))), .link (.stop (.exhausted s.limit))] ∧
    (s.move .step).connection.closed = true := by
  constructor
  · rw [moveDeeds, stepDeeds, reading]
    show s.readDeeds s.connection.receive.1 = _
    rw [received, readDeeds, requestDeeds, if_pos full, if_pos full]
    rfl
  · have hstep : s.move .step = s.readStep := by rw [move, step, reading]; rfl
    rw [hstep, readStep]
    generalize s.connection.receive = pair at received ⊢
    obtain ⟨_, connection⟩ := pair
    obtain rfl := received
    show (handle { s with connection } (.request id method args)).connection.closed = true
    rcases dispatchRequest_spec { s with connection } id method args with
      ⟨-, due, journal, writerDue, herror⟩ | ⟨hfree, -⟩
    · rw [handle, herror]
      exact Onward.closed_closeWith _ _
    · exact absurd full hfree

/-- **Replies are written until the connection is closed.** In every history the replies that were written are the first of those that
were due: of the requests that were refused and of the handlers of requests that have ended, one each and in that order. While the
connection is open and the host is there, they are all of them whenever the writer is done. The end of a run closes the connection, and
from then on nothing is written, neither what is on the queue already nor what comes later. So a request whose refusal ends the run
makes a reply due that is never written. -/
theorem replies_written_until_closed (setup : Setup) (moves : List Move) :
    let c := Chronicle.after setup moves
    c.written.filterMap Message.reply? <+: c.log.filterMap Deed.reply? ∧
    (Sends c.session → c.session.writerDue = false →
      c.written.filterMap Message.reply? = c.log.filterMap Deed.reply?) ∧
    (c.session.reader = .ended → c.session.connection.closed = true) ∧
    (c.session.connection.closed = true → ∀ more, (Chronicle.after setup (moves ++ more)).written = c.written) ∧
    ∀ id method args, c.session.focus = .reading →
      c.session.connection.receive.1 = .message (.request id method args) → c.session.limit ≤ c.session.inFlight →
      (c.move .step).log.filterMap Deed.reply? =
        c.log.filterMap Deed.reply? ++ [(id, .error (Handling.noAnswer method))] ∧
      ∀ more, (Chronicle.after setup (moves ++ .step :: more)).written = c.written := by
  intro c
  have hdelivers := delivers_after setup moves
  have hposted := posted_replies setup moves
  rw [Chronicle.posted] at hposted
  refine ⟨?_, fun hsends hdone => ?_, closed_of_ended setup moves, fun hclosed more => (written_of_closed hclosed more).2, ?_⟩
  · rw [← hposted]
    exact (hdelivers.lead.trans (List.prefix_append _ _)).filterMap _
  · rw [← hposted, hdelivers.whole hsends, drained_after setup moves hdone, List.append_nil]
  · intro id method args reading received full
    obtain ⟨hdeeds, hclosed⟩ := refusal_closes reading received full
    constructor
    · show (c.log ++ c.session.moveDeeds .step).filterMap Deed.reply? = _
      rw [hdeeds, List.filterMap_append]
      rfl
    · intro more
      have hsplit : moves ++ .step :: more = (moves ++ [.step]) ++ more := by simp
      have hnow : (Chronicle.after setup (moves ++ [.step])).session.connection.closed = true := by
        rw [Chronicle.after_concat]
        exact hclosed
      rw [hsplit, (written_of_closed hnow more).2, Chronicle.after_concat]
      -- the step that refuses is the reader's, and so it writes nothing
      have hquiet : Quiet (c.session.moveDeeds .step) := quiet_moveDeeds fun _ => by rw [reading]; simp
      show Exchange.written ((Chronicle.after setup moves).move .step).exchange.log = _
      rw [Chronicle.exchange_move]
      exact (Exchange.sameFate_acts c.exchange hquiet).written

/-- The host asks whether a context holds that nobody registered. -/
def ask (id : UInt32) : Move :=
  .hostSend (.request id "askContext" [.string "x", .string "=="])

/-- One request is answered; then two arrive at once where one finds room, and the reader comes to the second one. -/
def crowded : List Move :=
  [.start, ask 5] ++ List.replicate 13 .step ++ [ask 6, ask 7] ++ List.replicate 3 .step

theorem refused_request_has_no_reply_written :
    let c := Chronicle.after { maxInFlight := 1 } crowded
    let failure : Outcome := .error (Handling.noAnswer "askContext")
    c.written.filterMap Message.reply? = [(5, .ok (.bool false))] ∧
    (c.move .step).log.filterMap Deed.reply? = [(5, .ok (.bool false)), (7, failure)] ∧
    ∀ more, (Chronicle.after { maxInFlight := 1 } (crowded ++ .step :: more)).written = c.written := by
  intro c failure
  obtain ⟨-, hall, -, -, hrefused⟩ := replies_written_until_closed { maxInFlight := 1 } crowded
  obtain ⟨hopened, hthere, hdone, hwritten, hreading, hnext, hfull⟩ :
      c.session.connection.closed = false ∧ c.session.connection.abandoned = false ∧ c.session.writerDue = false ∧
      c.written.filterMap Message.reply? = [(5, .ok (.bool false))] ∧ c.session.focus = .reading ∧
      c.session.connection.receive.1 = .message (.request 7 "askContext" [.string "x", .string "=="]) ∧
      c.session.limit ≤ c.session.inFlight := by
    -- one evaluation of the run for all of it
    cbv
    exact ⟨rfl, rfl, trivial⟩
  obtain ⟨hdue, hnever⟩ := hrefused 7 "askContext" _ hreading hnext hfull
  refine ⟨hwritten, ?_, hnever⟩
  rw [hdue, ← hall ⟨hopened, hthere⟩ hdone, hwritten]
  rfl

end Session
end EditorLink
