import EditorLink.Proofs.Link.Invariant
import EditorLink.Proofs.Session.Handlers

/-!
# EditorLink.Proofs.Session.Replies -- one reply for each request

The replies that a session queues are those of the requests that were refused and of the handlers of requests that have ended, one each
and in that order. Every accepted request has a handler of its own, which ends once; so no request is answered twice, also when its id
was used before.
-/

namespace EditorLink

/-- The id and the outcome of a reply. -/
def Message.reply? : Message → Option (UInt32 × Outcome)
  | reply id outcome => some (id, outcome)
  | _ => none

/-! ## Replies on the queue of a link -/

namespace Exchange

variable {Caller : Type}

/-- The message that an act queues whatever the link is like. A request is only queued if the link takes it. -/
def Act.posts? : Act Caller → Option Message
  | notify method args => some (.notify method args)
  | answer id outcome => some (.reply id outcome)
  | _ => none

/-- The reply that an act queues. -/
def Act.answer? (a : Act Caller) : Option (UInt32 × Outcome) :=
  a.posts?.bind Message.reply?

theorem queued_note (x : Exchange Caller) (e : Event Caller) (ended : List (Completion Caller)) :
    queued (x.note e ended).log = queued x.log ++ e.queued?.toList := by
  cases hqueued : e.queued? <;> simp [queued, hqueued]

theorem queued_endRun (x : Exchange Caller) (result : Except Failure Unit) : queued (x.endRun result).log = queued x.log := by
  rw [queued, endRun_log]
  simp [queued, Event.queued?]

section Posts

variable {β : Type} {f : Message → Option β}

/-- Of the messages that are no requests, an act queues its own. -/
theorem queued_act (hrequest : ∀ id method args, f (.request id method args) = none) (x : Exchange Caller) (a : Act Caller) :
    (queued (x.act a).log).filterMap f = (queued x.log).filterMap f ++ (a.posts?.bind f).toList := by
  have hnote : ∀ {y : Exchange Caller} {e : Event Caller} {ended : List (Completion Caller)}, y.log = x.log →
      (queued (y.note e ended).log).filterMap f = (queued x.log).filterMap f ++ (e.queued?.bind f).toList := by
    intro y e ended hlog
    rw [queued_note, hlog, List.filterMap_append]
    cases e.queued? with
    | none => rfl
    | some m => cases hm : f m <;> simp [hm]
  have hsame : (queued x.log).filterMap f = (queued x.log).filterMap f ++ [] := (List.append_nil _).symm
  cases a with
  | invoke caller method args =>
    rw [act]
    split
    · exact hsame
    · exact hnote rfl
    · refine Eq.trans (hnote rfl) ?_
      simp [Event.queued?, Act.posts?, hrequest]
  | abandon caller => exact hnote rfl
  | notify method args => exact hnote rfl
  | answer id outcome => exact hnote rfl
  | take =>
    rw [act]
    split
    · exact hsame
    · exact hsame
  | write =>
    rw [act]
    split
    · exact hnote rfl
    · exact hsame
  | lose reason =>
    rw [act]
    split
    · exact hnote rfl
    · exact hsame
  | read id outcome =>
    rw [act]
    split
    · exact hsame
    · split
      · exact hnote rfl
      · rw [queued_endRun]
        exact hnote rfl
  | stop cause =>
    rw [act]
    split
    · exact hsame
    · rw [queued_endRun]
      exact hsame
  | close reason => exact hnote rfl

theorem queued_after (hrequest : ∀ id method args, f (.request id method args) = none) (as : List (Act Caller)) :
    (queued (after as).log).filterMap f = as.filterMap fun a => a.posts?.bind f := by
  induction as using List.reverseRecOn with
  | nil => rfl
  | append_singleton as a ih =>
    rw [after_concat, queued_act hrequest, ih, List.filterMap_append]
    cases hpost : a.posts?.bind f <;> simp [hpost]

end Posts

/-- The replies on the queue are the answers. -/
theorem answers_after (as : List (Act Caller)) : (queued (after as).log).filterMap Message.reply? = as.filterMap Act.answer? :=
  queued_after (fun _ _ _ => rfl) as

end Exchange

namespace Session

open Extension Host Wire

/-! ## Replies on the queue of a session -/

/-- What has been put on the queue: what the writer has taken from it, and what is on it. -/
def Chronicle.posted (c : Chronicle) : List Message :=
  Exchange.sent c.exchange.log ++ c.session.link.outbound

/-- The reply that is due when something happens. -/
def Deed.reply? : Deed → Option (UInt32 × Outcome)
  | refused (.request id method) _ => some (id, .error (Handling.noAnswer method))
  | finished _ role exit => role.reply? exit
  | _ => none

/-- Among some deeds on the link are the answers that the other ones make due. -/
def Paid (deeds : List Deed) : Prop :=
  (acts deeds).filterMap Exchange.Act.answer? = deeds.filterMap Deed.reply?

theorem Paid.append {deeds more : List Deed} (h : Paid deeds) (hmore : Paid more) : Paid (deeds ++ more) := by
  rw [Paid, acts_append, List.filterMap_append, List.filterMap_append, h, hmore]

theorem paid_leaveDeeds (t : TaskId) (role : Role) (exit : Exit) (outer : List (Exit → Program)) :
    Paid (leaveDeeds t role exit outer) := by
  cases outer with
  | nil =>
    have hown : Deed.reply? (.finished t role exit) = role.reply? exit := rfl
    rw [Paid, leaveDeeds]
    cases hreply : role.reply? exit with
    | none =>
      rw [List.filterMap_cons_none (hown.trans hreply)]
      rfl
    | some reply =>
      rw [List.filterMap_cons_some (hown.trans hreply)]
      rfl
  | cons next outer => cases outer <;> rfl

theorem paid_runDeeds (s : Session) (t : TaskId) (role : Role) (outer : List (Exit → Program)) (p : Program) :
    Paid (s.runDeeds t role outer p) := by
  cases p with
  | finish e => exact paid_leaveDeeds ..
  | panic text => exact paid_leaveDeeds ..
  | access change next =>
    rw [runDeeds]
    split <;> rfl
  | _ => rfl

/-- A request that is refused is answered at once. -/
theorem paid_requestDeeds (s : Session) (id : UInt32) (method : String) (args : List Value) :
    Paid (s.requestDeeds id method args) := by
  unfold requestDeeds
  split <;> rfl

theorem paid_readDeeds (s : Session) (received : Received) : Paid (s.readDeeds received) := by
  cases received with
  | message m =>
    cases m with
    | reply id outcome => rfl
    | notify method args =>
      rw [readDeeds]
      split <;> rfl
    | request id method args =>
      rw [readDeeds]
      refine (s.paid_requestDeeds id method args).append ?_
      split <;> rfl
  | _ => rfl

theorem paid_writeDeeds (s : Session) : Paid s.writeDeeds := by
  unfold writeDeeds
  split
  · rfl
  · split <;> rfl

theorem paid_moveDeeds (s : Session) (m : Move) : Paid (s.moveDeeds m) := by
  cases m with
  | step =>
    rw [moveDeeds, stepDeeds]
    split
    · exact s.paid_readDeeds _
    · exact s.paid_writeDeeds
    · exact s.paid_runDeeds ..
    · split
      · rfl
      · rename_i turn _ _
        cases turn with
        | reader =>
          rw [beginDeeds]
          split <;> rfl
        | _ => rfl
  | abandon tag =>
    rw [moveDeeds]
    cases s.tasks.find? (hasTag tag) <;> rfl
  | handOver id method args => exact s.paid_requestDeeds id method args
  | _ => rfl

theorem paid_after (setup : Setup) (moves : List Move) : Paid (Chronicle.after setup moves).log := by
  induction moves using List.reverseRecOn with
  | nil => rfl
  | append_singleton moves m ih =>
    rw [Chronicle.after_concat]
    exact ih.append (paid_moveDeeds _ m)

/-- What is on the queue or was taken from it is what the exchange of the session has queued. -/
theorem posted_eq_queued (setup : Setup) (moves : List Move) :
    (Chronicle.after setup moves).posted = Exchange.queued (Chronicle.after setup moves).exchange.log := by
  have hmirrors := mirrors_after setup moves
  have hqueue := Exchange.queue_after (acts (Chronicle.after setup moves).log)
  rw [Exchange.Queue, ← Chronicle.exchange, hmirrors.hand, hmirrors.link] at hqueue
  simpa [Chronicle.posted] using hqueue

/-- The replies that were put on the queue are those that were due, in order. -/
theorem posted_replies (setup : Setup) (moves : List Move) :
    (Chronicle.after setup moves).posted.filterMap Message.reply? =
      (Chronicle.after setup moves).log.filterMap Deed.reply? := by
  rw [posted_eq_queued, ← paid_after setup moves, ← Exchange.answers_after]
  rfl

/-! ## What a reply says -/

/-- The requests that a host can make. -/
def requestMethods : List String :=
  ["askContext", "eventFilter", "keyEventFilter", "cmdEventFilter"]

/-- A method is unknown exactly when it is not one of the four. -/
theorem read_eq_none_iff (method : String) (args : List Value) :
    Request.read method args = .ok none ↔ method ∉ requestMethods := by
  constructor
  · intro hread hmem
    simp only [requestMethods, List.mem_cons, List.not_mem_nil, or_false] at hmem
    rcases hmem with rfl | rfl | rfl | rfl
    · cases hname : textArg args 0 "name" <;> cases hoperator : textArg args 1 "operator" <;>
        simp [Request.read, hname, hoperator, bind, Except.bind, pure, Except.pure] at hread
    · cases htype : textArg args 0 "type" <;> cases hevent : fieldsArg args 1 "event" <;>
        simp [Request.read, htype, hevent, bind, Except.bind, pure, Except.pure] at hread
    · cases hkey : KeyPress.ofArgs args <;>
        simp [Request.read, hkey, bind, Except.bind, pure, Except.pure] at hread
    · cases hname : textArg args 0 "name" <;>
        simp [Request.read, hname, bind, Except.bind, pure, Except.pure] at hread
  · intro hmem
    simp only [requestMethods, List.mem_cons, List.not_mem_nil, or_false, not_or] at hmem
    obtain ⟨hask, hevent, hkey, hcmd⟩ := hmem
    rw [Request.read, if_neg hask, if_neg hevent, if_neg hkey, if_neg hcmd]
    rfl

/-- What the reply to an accepted request says, once its handler has ended. -/
structure Right (log : List Deed) (t : TaskId) (method : String) (args : List Value) (outcome : Outcome) : Prop where
  /-- It is a failure exactly if nobody knows the method, or its arguments cannot be read, or registered code that the handler had
  called panicked. -/
  failure : (∃ payload, outcome = .error payload) ↔
    method ∉ requestMethods ∨ (∃ fault, Request.read method args = .error fault) ∨ Panicked log t
  /-- It is a negative answer if nothing was registered under the name that the request asks for. -/
  negative : ∀ r, Request.read method args = .ok (some r) → (∀ w, .saw t w ∈ log → Handling.Unserved r w) →
    ∃ v, outcome = .ok v ∧ Handling.Negative r v

/-- A request that is not understood fails, whatever else happens. -/
theorem right_of_failed {log : List Deed} {t : TaskId} {id : UInt32} {method : String} {args : List Value} {exit : Exit}
    (hread : ∀ r, Request.read method args ≠ .ok (some r))
    (settled : Settled Handling.failing log t exit) :
    ∃ outcome, Role.reply? (.request id method) exit = some (id, outcome) ∧ Right log t method args outcome := by
  rcases settled with ⟨e, rfl, ⟨reasons, rfl⟩, -⟩ | ⟨text, -, hcalls, -⟩
  · refine ⟨_, rfl, iff_of_true ⟨_, rfl⟩ ?_, fun r hr => absurd hr (hread r)⟩
    cases hr : Request.read method args with
    | error fault => exact Or.inr (Or.inl ⟨fault, rfl⟩)
    | ok found =>
      cases found with
      | none => exact Or.inl ((read_eq_none_iff method args).mp hr)
      | some r => exact absurd hr (hread r)
  · exact hcalls.elim

/-- A request that is understood fails exactly if code that its handler had called panicked. -/
theorem right_of_known {log : List Deed} {t : TaskId} {id : UInt32} {method : String} {args : List Value} {exit : Exit}
    {r : Request} (hread : Request.read method args = .ok (some r))
    (settled : Settled Handling.giving log t exit)
    (negative : Saw (Handling.declining r) log t → Settled (Handling.declining r) log t exit) :
    ∃ outcome, Role.reply? (.request id method) exit = some (id, outcome) ∧ Right log t method args outcome := by
  have hknown : ¬ method ∉ requestMethods := fun hmem => by
    rw [(read_eq_none_iff method args).mpr hmem] at hread
    simp at hread
  rcases settled with ⟨e, rfl, ⟨v, rfl⟩, hcalm⟩ | ⟨text, rfl, -, hpanicked⟩
  · refine ⟨.ok v, rfl, iff_of_false (by simp) ?_, fun r' hr' hsaw => ?_⟩
    · rintro (hunknown | ⟨fault, hfault⟩ | hpanicked)
      · exact hknown hunknown
      · simp [hread] at hfault
      · exact hcalm hpanicked
    · -- if nothing was registered, the value that it ended with is one of the negative ones
      obtain rfl := Option.some.inj (Except.ok.inj (hread.symm.trans hr'))
      rcases negative hsaw with ⟨_, hexit, ⟨v', rfl, hnegative⟩, -⟩ | ⟨_, _, hcalls, -⟩
      · obtain rfl := Ending.value.inj (Exit.ended.inj hexit)
        exact ⟨v, rfl, hnegative⟩
      · exact hcalls.elim
  · refine ⟨.error _, rfl, iff_of_true ⟨_, rfl⟩ (Or.inr (Or.inr hpanicked)), fun r' hr' hsaw => ?_⟩
    -- a handler that finds nothing registered calls no code, so it cannot have panicked
    obtain rfl := Option.some.inj (Except.ok.inj (hread.symm.trans hr'))
    rcases negative hsaw with ⟨_, hexit, -, -⟩ | ⟨_, _, hcalls, -⟩
    · cases hexit
    · exact hcalls.elim

/-- The reply of a handler that has ended is right. -/
theorem right_of_finished (setup : Setup) (moves : List Move) {t : TaskId} {id : UInt32} {method : String}
    {args : List Value} {exit : Exit}
    (haccepted : .accepted t (.request id method) args ∈ (Chronicle.after setup moves).log)
    (hfinished : .finished t (.request id method) exit ∈ (Chronicle.after setup moves).log) :
    ∃ outcome, Role.reply? (.request id method) exit = some (id, outcome) ∧
      Right (Chronicle.after setup moves).log t method args outcome := by
  have hsettled : ∀ c : Contract, Answers c (Handling.request method args) →
      Saw c (Chronicle.after setup moves).log t → Settled c (Chronicle.after setup moves).log t exit :=
    fun c answers saw => (keeps_after c setup moves haccepted rfl answers saw).2 _ _ hfinished
  by_cases hknown : ∃ r, Request.read method args = .ok (some r)
  · obtain ⟨r, hread⟩ := hknown
    exact right_of_known hread (hsettled _ (Handling.answers_giving hread) fun _ _ => trivial)
      (hsettled _ (Handling.answers_declining hread))
  · have hread : ∀ r, Request.read method args ≠ .ok (some r) := fun r hr => hknown ⟨r, hr⟩
    exact right_of_failed hread (hsettled _ (Handling.answers_failing hread) fun _ _ => trivial)

/-- **Each request is answered once.** In every history of a session the replies that were put on the queue are, in order, those of the
requests that were refused, which are failures, and of the handlers of requests that have ended. Every accepted request has a handler
of its own, whatever its id, and every handler of a request was accepted. It is unfinished and has no end, or it is over and has one;
then its reply has the id of the request and says what it should. -/
theorem one_reply_per_request (setup : Setup) (moves : List Move) :
    let c := Chronicle.after setup moves
    c.posted.filterMap Message.reply? = c.log.filterMap Deed.reply? ∧
    ((accepted c.log).map (·.1)).Nodup ∧
    (∀ t id method exit, .finished t (.request id method) exit ∈ c.log →
      ∃ args, .accepted t (.request id method) args ∈ c.log) ∧
    ∀ t id method args, .accepted t (.request id method) args ∈ c.log →
      ((∃ u ∈ c.session.live, u.id = t ∧ u.role = .request id method) ∧ ends c.log t = []) ∨
      ((∀ u ∈ c.session.live, u.id ≠ t) ∧ ∃ exit outcome, ends c.log t = [(t, .request id method, exit)] ∧
        Role.reply? (.request id method) exit = some (id, outcome) ∧ Right c.log t method args outcome) := by
  intro c
  have hkept := kept_after setup moves
  have hbalanced := balanced_after setup moves
  refine ⟨posted_replies setup moves, hbalanced.nodup hkept, ?_, ?_⟩
  · exact fun t id method exit hfinished => hbalanced.accepted_of_finished hfinished rfl
  · intro t id method args haccepted
    rcases hbalanced.standing hkept haccepted with hlive | ⟨hover, exit, hends⟩
    · exact Or.inl hlive
    · have hmem : (t, Role.request id method, exit) ∈ ends c.log t := hends ▸ List.mem_singleton_self _
      obtain ⟨outcome, hreply, hright⟩ :=
        right_of_finished setup moves haccepted (mem_finished.mp (List.mem_of_mem_filter hmem))
      exact Or.inr ⟨hover, exit, outcome, hends, hreply, hright⟩

/-- Three requests under one id, of which two find room: a context whose code panics, one that nobody registered, and a third. -/
def threeRequests : List Move :=
  [.perform (.keep (fun _ => .panic "gone") fun code => .change (Workspace.addContext "selection" code) (.finish .done)),
    .step, .step, .step, .step, .step, .step,
    .handOver 7 "askContext" [.string "selection", .string "=="],
    .handOver 7 "askContext" [.string "language", .string "=="],
    .handOver 7 "askContext" [.string "selection", .string "=="],
    .step, .step, .step, .step, .step, .step, .step, .step]

theorem three_requests_have_three_replies :
    let c := Chronicle.after { maxInFlight := 2 } threeRequests
    let failure : Outcome := .error (Handling.noAnswer "askContext")
    c.posted.filterMap Message.reply? = [(7, failure), (7, failure), (7, .ok (.bool false))] ∧
    Right c.log 1 "askContext" [.string "selection", .string "=="] failure ∧
    Right c.log 2 "askContext" [.string "language", .string "=="] (.ok (.bool false)) := by
  intro c failure
  obtain ⟨hposted, -, -, hstanding⟩ := one_reply_per_request { maxInFlight := 2 } threeRequests
  have hright : ∀ t args exit outcome, .accepted t (.request 7 "askContext") args ∈ c.log →
      ends c.log t = [(t, .request 7 "askContext", exit)] →
      Role.reply? (.request 7 "askContext") exit = some (7, outcome) → Right c.log t "askContext" args outcome := by
    intro t args exit outcome haccepted hends hreply
    rcases hstanding t 7 "askContext" args haccepted with ⟨-, hnone⟩ | ⟨-, exit', outcome', hends', hreply', hright⟩
    · exact absurd (hends.symm.trans hnone) (List.cons_ne_nil _ _)
    · obtain rfl : exit = exit' := by simpa using hends.symm.trans hends'
      obtain rfl : outcome = outcome' := (Prod.mk.inj (Option.some.inj (hreply.symm.trans hreply'))).2
      exact hright
  refine ⟨hposted.trans rfl, hright 1 _ (.panicked "gone") _ ?_ rfl rfl,
    hright 2 _ (.ended (.value (.bool false))) _ ?_ rfl rfl⟩
  -- the first two deeds are those of the task that registered the context
  · exact List.mem_of_getElem? (i := 2) rfl
  · exact List.mem_of_getElem? (i := 3) rfl

end Session
end EditorLink
