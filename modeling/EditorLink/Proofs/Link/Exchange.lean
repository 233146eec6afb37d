import EditorLink.Proofs.Link.Table
import EditorLink.Session.Step

/-!
# EditorLink.Proofs.Link.Exchange -- all histories of a link

An **exchange** is a link with what goes on around it: the message in the writer's hand, and whether the run has ended. Callers, the
writer, the reader and the embedding program **act** on it in any order whatever; an act that is not possible changes nothing, so that
every list of acts is a history. A write may fail at any time and for any reason, and so may a caller go away.

The **log** of an exchange says what happened, moment by moment, and which calls ended at each. Nothing in an act reads it. Statements
about a history are statements about its log: `Throughout P log` says that `P` holds at every moment of it.

A task gives way only where it waits. Between registering a call and queueing its request it waits for nothing, so the two are one act.
Every session has such an exchange, whose link and whose run are its own (`EditorLink.Session.mirrors_after`).
-/

namespace EditorLink

/-! ## Logs -/

/-- At every moment of a log, `P` holds of what came before and of the moment itself. -/
def Throughout {α : Type} (P : List α → α → Prop) (log : List α) : Prop :=
  ∀ older m newer, log = older ++ m :: newer → P older m

theorem throughout_nil {α : Type} {P : List α → α → Prop} : Throughout P [] := by
  intro older m newer h
  simp at h

theorem throughout_concat {α : Type} {P : List α → α → Prop} {log : List α} {m : α} :
    Throughout P (log ++ [m]) ↔ Throughout P log ∧ P log m := by
  constructor
  · intro h
    refine ⟨?_, h log m [] rfl⟩
    rintro older n newer rfl
    exact h older n (newer ++ [m]) (by simp)
  · rintro ⟨hlog, hm⟩ older n newer h
    -- the moment is the last one, or one of the log before
    rcases List.eq_nil_or_concat newer with rfl | ⟨rest, last, rfl⟩
    · obtain ⟨rfl, hn⟩ := List.append_inj' h rfl
      cases hn
      exact hm
    · have hsplit : log ++ [m] = (older ++ n :: rest) ++ [last] := by simpa using h
      exact hlog older n rest (List.append_inj' hsplit rfl).1

theorem Throughout.left {α : Type} {P : List α → α → Prop} {log more : List α}
    (h : Throughout P (log ++ more)) : Throughout P log := by
  rintro older m newer rfl
  exact h older m (newer ++ more) (by simp)

/-! ## What can happen -/

namespace Exchange

/-- What ends a run, apart from a reply that no call waits for. -/
inductive Halt where
  /-- The host stopped sending in good order. -/
  | hungUp
  /-- Receiving failed. -/
  | broken (e : TransportError)
  /-- A message came while too many handlers were unfinished. -/
  | exhausted (limit : Nat)
  /-- The run was asked to stop. -/
  | stopped

/-- The result of a run that ends so. -/
def Halt.result : Halt → Except Failure Unit
  | hungUp => .ok ()
  | broken e => .error (.transport e)
  | exhausted limit => .error (.dispatchExhausted limit)
  | stopped => .ok ()

inductive Act (Caller : Type) where
  | invoke (caller : Caller) (method : String) (args : List Value)
  /-- A caller goes away. -/
  | abandon (caller : Caller)
  | notify (method : String) (args : List Value)
  /-- A request of the host is answered. -/
  | answer (id : UInt32) (outcome : Outcome)
  /-- The writer takes the next message in hand. -/
  | take
  /-- The message in hand reaches the host. -/
  | write
  /-- The message in hand could not be written. -/
  | lose (reason : TransportError)
  /-- The reader processes a reply. -/
  | read (id : UInt32) (outcome : Outcome)
  | stop (cause : Halt)
  /-- The link is closed from the local side, whether or not a run goes on. -/
  | close (reason : TransportError)

inductive Event (Caller : Type) where
  /-- A call was registered, and its request queued. -/
  | called (call : PendingCall Caller) (args : List Value)
  /-- A call failed at once, for this reason. -/
  | refused (caller : Caller) (method : String) (reason : TransportError)
  | abandoned (caller : Caller)
  /-- A notification or a reply was queued. -/
  | posted (m : Message)
  | written (m : Message)
  | lost (m : Message) (reason : TransportError)
  | read (id : UInt32) (outcome : Outcome)
  | runEnded (result : Except Failure Unit)
  | closed (reason : TransportError)

/-- Something that happened, with the calls that ended at that moment. -/
structure Moment (Caller : Type) where
  event : Event Caller
  ended : List (Completion Caller) := []

end Exchange

structure Exchange (Caller : Type) where
  link : Link Caller := {}
  /-- The message that the writer has taken and not written yet. -/
  hand : Option Message := none
  runEnd : Option (Except Failure Unit) := none
  /-- What has happened, first things first. -/
  log : List (Exchange.Moment Caller) := []

namespace Exchange

variable {Caller : Type}

def note (x : Exchange Caller) (event : Event Caller) (ended : List (Completion Caller) := []) : Exchange Caller :=
  { x with log := x.log ++ [⟨event, ended⟩] }

/-- The end of a run fails all calls. -/
def endRun (x : Exchange Caller) (result : Except Failure Unit) : Exchange Caller :=
  let (ended, link) := x.link.close (Session.closeReason result)
  { x with link, runEnd := some result }.note (.runEnded result) ended

def act (x : Exchange Caller) : Act Caller → Exchange Caller
  | .invoke caller method args =>
    match x.link.invoke caller method args with
    | none => x
    | some (.error reason) => x.note (.refused caller method reason)
    | some (.ok (id, link)) => { x with link }.note (.called ⟨id, method, caller⟩ args)
  | .abandon caller => x.note (.abandoned caller)
  | .notify method args => { x with link := x.link.notify method args }.note (.posted (.notify method args))
  | .answer id outcome => { x with link := x.link.answer id outcome }.note (.posted (.reply id outcome))
  | .take =>
    match x.hand, x.link.takeOutbound with
    | none, some (m, link) => { x with link, hand := some m }
    | _, _ => x
  | .write =>
    match x.hand with
    | some m => { x with hand := none }.note (.written m)
    | none => x
  | .lose reason =>
    match x.hand with
    | some m =>
      let (ended, link) := x.link.writeFailed m reason
      { x with link, hand := none }.note (.lost m reason) ended.toList
    | none => x
  | .read id outcome =>
    if x.runEnd.isSome then x
    else
      match x.link.resolve id outcome with
      | .ok (ended, link) => { x with link }.note (.read id outcome) [ended]
      | .error e => (x.note (.read id outcome)).endRun (.error e)
  | .stop cause => if x.runEnd.isSome then x else x.endRun cause.result
  | .close reason =>
    let (ended, link) := x.link.close reason
    { x with link }.note (.closed reason) ended

/-- The exchange after some acts. -/
def after (acts : List (Act Caller)) : Exchange Caller :=
  acts.foldl act {}

@[simp] theorem after_nil : after ([] : List (Act Caller)) = {} := rfl

@[simp] theorem after_concat (acts : List (Act Caller)) (a : Act Caller) :
    after (acts ++ [a]) = (after acts).act a := by
  simp [after]

/-! ## Reading a log -/

def Event.call? : Event Caller → Option (PendingCall Caller)
  | called call _ => some call
  | _ => none

/-- The message that an event puts on the queue. -/
def Event.queued? : Event Caller → Option Message
  | called call args => some (.request call.id call.method args)
  | posted m => some m
  | _ => none

/-- The message that leaves the writer's hand. -/
def Event.sent? : Event Caller → Option Message
  | written m => some m
  | lost m _ => some m
  | _ => none

/-- The id of a request that reaches the host. -/
def Event.delivered? : Event Caller → Option UInt32
  | written m => m.requestId?
  | _ => none

/-- The id of a request whose write fails. -/
def Event.lost? : Event Caller → Option UInt32
  | lost m _ => m.requestId?
  | _ => none

/-- The id of a reply that is processed. -/
def Event.read? : Event Caller → Option UInt32
  | read id _ => some id
  | _ => none

/-- The reason that an event closes the link with. A run that ends because receiving failed passes on that failure. -/
def Event.closes? : Event Caller → Option TransportError
  | runEnded (.error (.transport e)) => some e
  | runEnded _ => some .closed
  | closed reason => some reason
  | _ => none

section Log

variable (log : List (Moment Caller))

/-- The calls that were registered, first things first. -/
def calls : List (PendingCall Caller) := log.filterMap (·.event.call?)

/-- The messages that were put on the queue. -/
def queued : List Message := log.filterMap (·.event.queued?)

/-- The messages that left the writer's hand, written or not. -/
def sent : List Message := log.filterMap (·.event.sent?)

/-- The ids of the requests that were put on the queue. -/
def requested : List UInt32 := (queued log).filterMap Message.requestId?

/-- The ids of the requests that reached the host. -/
def delivered : List UInt32 := log.filterMap (·.event.delivered?)

/-- The ids of the requests whose write failed. -/
def lost : List UInt32 := log.filterMap (·.event.lost?)

/-- The ids of the replies that were processed. -/
def replied : List UInt32 := log.filterMap (·.event.read?)

/-- The ends of calls. -/
def endings : List (Completion Caller) := log.flatMap (·.ended)

/-- The reason that the link was closed with first. -/
def firstClose : Option TransportError := log.findSome? (·.event.closes?)

/-- A call was registered and no call with its id has ended since. -/
def Outstanding (call : PendingCall Caller) : Prop :=
  ∃ older m newer args, log = older ++ m :: newer ∧ m.event = .called call args ∧
    ∀ n ∈ newer, ∀ c ∈ n.ended, c.call.id ≠ call.id

end Log

theorem not_outstanding_nil (call : PendingCall Caller) : ¬ Outstanding [] call := by
  rintro ⟨older, m, newer, args, h, -⟩
  simp at h

theorem outstanding_concat {log : List (Moment Caller)} {m : Moment Caller} {call : PendingCall Caller} :
    Outstanding (log ++ [m]) call ↔
      m.event.call? = some call ∨ Outstanding log call ∧ ∀ c ∈ m.ended, c.call.id ≠ call.id := by
  constructor
  · rintro ⟨older, n, newer, args, hlog, hn, hnewer⟩
    -- the call was registered at the last moment, or before and has outlived it
    rcases List.eq_nil_or_concat newer with rfl | ⟨rest, last, rfl⟩
    · obtain ⟨-, hm⟩ := List.append_inj' hlog rfl
      cases hm
      exact Or.inl (by rw [hn]; rfl)
    · have hsplit : log ++ [m] = (older ++ n :: rest) ++ [last] := by simpa using hlog
      obtain ⟨hold, hm⟩ := List.append_inj' hsplit rfl
      cases hm
      refine Or.inr ⟨⟨older, n, rest, args, hold, hn, ?_⟩, hnewer m (by simp)⟩
      exact fun k hk => hnewer k (by simp [hk])
  · rintro (hm | ⟨⟨older, n, newer, args, rfl, hn, hnewer⟩, hm⟩)
    · obtain ⟨event, ended⟩ := m
      cases event <;> simp only [Event.call?, Option.some.injEq, reduceCtorEq] at hm
      subst hm
      exact ⟨log, _, [], _, rfl, rfl, by simp⟩
    · refine ⟨older, n, newer ++ [m], args, by simp, hn, ?_⟩
      intro k hk
      rcases List.mem_append.mp hk with hk | hk
      · exact hnewer k hk
      · rw [List.mem_singleton.mp hk]
        exact hm

/-- An outstanding call was registered. -/
theorem Outstanding.mem_calls {log : List (Moment Caller)} {call : PendingCall Caller}
    (h : Outstanding log call) : call ∈ calls log := by
  obtain ⟨older, m, newer, args, rfl, hm, -⟩ := h
  simp [calls, hm, Event.call?]

theorem closes?_runEnded (result : Except Failure Unit) :
    (Event.runEnded result : Event Caller).closes? = some (Session.closeReason result) := by
  rcases result with e | _
  · cases e <;> rfl
  · rfl

end Exchange
end EditorLink
