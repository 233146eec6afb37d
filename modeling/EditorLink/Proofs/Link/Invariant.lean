import EditorLink.Proofs.Link.Exchange
import Mathlib.Data.List.Induction

/-!
# EditorLink.Proofs.Link.Invariant -- what every act on a link keeps

`Change` lists all that an act can do, once and for all; each invariant is a case analysis over it. Three of them hold of every history:

* `Table`: the table holds exactly the outstanding calls, under different ids, and is empty once the link is closed;
* the link is closed with the reason that the log gives first;
* the messages that left the writer's hand, the one in it and those on the queue are the messages that were queued, in order.
-/

namespace EditorLink.Exchange

variable {Caller : Type}

/-! ## What an act can do -/

inductive Change (x : Exchange Caller) : Exchange Caller → Prop
  | nothing : Change x x
  | called {caller : Caller} {method : String} {args : List Value} {id : UInt32} {link : Link Caller}
      (accepted : x.link.Accepted caller method args id link)
      (nextFree : x.link.holds x.link.nextId = false → id = x.link.nextId) :
      Change x ({ x with link }.note (.called ⟨id, method, caller⟩ args))
  | refused {reason : TransportError} (caller : Caller) (method : String)
      (wasClosed : x.link.closedWith = some reason) : Change x (x.note (.refused caller method reason))
  | abandoned (caller : Caller) : Change x (x.note (.abandoned caller))
  | posted {m : Message} (hm : m.requestId? = none) :
      Change x ({ x with link := x.link.send m }.note (.posted m))
  | taken {m : Message} {rest : List Message} (hand : x.hand = none) (next : x.link.outbound = m :: rest) :
      Change x { x with link := { x.link with outbound := rest }, hand := some m }
  | written {m : Message} (hand : x.hand = some m) : Change x ({ x with hand := none }.note (.written m))
  | lost {m : Message} {reason : TransportError} {ended : Option (Completion Caller)} {link : Link Caller}
      (hand : x.hand = some m) (fails : x.link.writeFailed m reason = (ended, link)) :
      Change x ({ x with link, hand := none }.note (.lost m reason) ended.toList)
  | answered {id : UInt32} {outcome : Outcome} {c : Completion Caller} {link : Link Caller}
      (reading : x.runEnd = none) (found : x.link.resolve id outcome = .ok (c, link)) :
      Change x ({ x with link }.note (.read id outcome) [c])
  | unmatched {id : UInt32} (outcome : Outcome) (reading : x.runEnd = none)
      (absent : ∀ call ∈ x.link.pending, call.id ≠ id) :
      Change x ((x.note (.read id outcome)).endRun (.error (.unmatchedReply id)))
  | halted (cause : Halt) (reading : x.runEnd = none) : Change x (x.endRun cause.result)
  | closed {reason : TransportError} {ended : List (Completion Caller)} {link : Link Caller}
      (closes : x.link.close reason = (ended, link)) :
      Change x ({ x with link }.note (.closed reason) ended)

theorem change_act (x : Exchange Caller) (a : Act Caller) : Change x (x.act a) := by
  cases a with
  | invoke caller method args =>
    rw [act]
    split
    · exact .nothing
    · rename_i reason hinvoke
      exact .refused caller method (Link.refused_of_invoke hinvoke)
    · rename_i id link hinvoke
      exact .called (Link.accepted_of_invoke hinvoke) fun hfree => Link.id_of_invoke hfree hinvoke
  | abandon caller => exact .abandoned caller
  | notify method args => exact .posted rfl
  | answer id outcome => exact .posted rfl
  | take =>
    rw [act]
    split
    · rename_i m link hhand htake
      obtain ⟨rest, hnext, rfl⟩ := Link.takeOutbound_eq_some_iff.mp htake
      exact .taken hhand hnext
    · exact .nothing
  | write =>
    rw [act]
    split
    · rename_i m hhand
      exact .written hhand
    · exact .nothing
  | lose reason =>
    rw [act]
    split
    · rename_i m hhand
      exact .lost hhand rfl
    · exact .nothing
  | read id outcome =>
    rw [act]
    split
    · exact .nothing
    · rename_i hreading
      have hreading : x.runEnd = none := by simpa using hreading
      split
      · rename_i c link hfound
        exact .answered hreading hfound
      · rename_i e herror
        obtain ⟨habsent, rfl⟩ := Link.resolve_eq_error_iff.mp herror
        exact .unmatched outcome hreading (Link.find?_eq_none_iff.mp habsent)
  | stop cause =>
    rw [act]
    split
    · exact .nothing
    · rename_i hreading
      exact .halted cause (by simpa using hreading)
  | close reason => exact .closed rfl

@[simp] theorem note_link (x : Exchange Caller) (event : Event Caller) (ended : List (Completion Caller)) :
    (x.note event ended).link = x.link := rfl

@[simp] theorem note_log (x : Exchange Caller) (event : Event Caller) (ended : List (Completion Caller)) :
    (x.note event ended).log = x.log ++ [⟨event, ended⟩] := rfl

@[simp] theorem endRun_runEnd (x : Exchange Caller) (result : Except Failure Unit) :
    (x.endRun result).runEnd = some result := rfl

theorem endRun_link (x : Exchange Caller) (result : Except Failure Unit) :
    (x.endRun result).link = (x.link.close (Session.closeReason result)).2 := rfl

theorem endRun_log (x : Exchange Caller) (result : Except Failure Unit) :
    (x.endRun result).log =
      x.log ++ [⟨.runEnded result, (x.link.close (Session.closeReason result)).1⟩] := rfl

/-- What holds at the start and is kept by every change holds after every history. -/
theorem after_induction {P : Exchange Caller → Prop} (start : P {}) (step : ∀ x y, Change x y → P x → P y)
    (acts : List (Act Caller)) : P (after acts) := by
  induction acts using List.reverseRecOn with
  | nil => exact start
  | append_singleton acts a ih =>
    rw [after_concat]
    exact step _ _ (change_act _ a) ih

/-- A log only grows. -/
theorem Change.log_grows {x y : Exchange Caller} (h : Change x y) : ∃ more, y.log = x.log ++ more := by
  cases h with
  | nothing => exact ⟨[], by simp⟩
  | taken _ _ => exact ⟨[], by simp⟩
  | @unmatched id outcome _ _ =>
    exact ⟨_, by rw [endRun_log, note_log, List.append_assoc]⟩
  | _ => exact ⟨_, rfl⟩

/-! ## The table -/

/-- The table holds exactly the outstanding calls. -/
structure Table (x : Exchange Caller) : Prop where
  ordered : x.link.Ordered
  mem_pending : ∀ call, call ∈ x.link.pending ↔ Outstanding x.log call
  closed : x.link.closedWith ≠ none → x.link.pending = []

theorem table_start : Table ({} : Exchange Caller) where
  ordered := List.Pairwise.nil
  mem_pending := by
    intro call
    simpa using not_outstanding_nil call
  closed := fun _ => rfl

/-- The outstanding calls after a moment at which some calls ended and none was registered. -/
theorem Table.mem_settled {x : Exchange Caller} (h : x.Table) {ended : List (Completion Caller)}
    {link : Link Caller} (hsettles : x.link.Settles ended link) {e : Event Caller}
    (hevent : e.call? = none) (call : PendingCall Caller) :
    call ∈ link.pending ↔ Outstanding (x.log ++ [⟨e, ended⟩]) call := by
  rw [hsettles.mem_pending, h.mem_pending, outstanding_concat]
  simp [hevent]

/-- A moment that concerns no call. -/
theorem Table.note {x y : Exchange Caller} (h : x.Table) {e : Event Caller} (hevent : e.call? = none)
    (hpending : y.link.pending = x.link.pending) (hclosed : y.link.closedWith = x.link.closedWith)
    (hlog : y.log = x.log ++ [⟨e, []⟩]) : y.Table where
  ordered := by
    rw [Link.Ordered, hpending]
    exact h.ordered
  mem_pending := by
    intro call
    rw [hpending, hlog, h.mem_pending, outstanding_concat]
    simp [hevent]
  closed := by
    rw [hpending, hclosed]
    exact h.closed

/-- A moment at which some calls ended. -/
theorem Table.settle {x y : Exchange Caller} (h : x.Table) {ended : List (Completion Caller)}
    (hsettles : x.link.Settles ended y.link) {e : Event Caller} (hevent : e.call? = none)
    (hclosed : y.link.closedWith ≠ none → x.link.closedWith ≠ none ∨ y.link.pending = [])
    (hlog : y.log = x.log ++ [⟨e, ended⟩]) : y.Table where
  ordered := hsettles.ordered
  mem_pending := by
    intro call
    rw [hlog]
    exact h.mem_settled hsettles hevent call
  closed := by
    intro hy
    -- either the link was closed before, and ending calls adds none, or it was closed just now
    rcases hclosed hy with hx | hempty
    · refine List.eq_nil_iff_forall_not_mem.mpr fun call hcall => ?_
      simpa [h.closed hx] using ((hsettles.mem_pending call).mp hcall).1
    · exact hempty

theorem Table.endRun {x : Exchange Caller} (h : x.Table) (result : Except Failure Unit) :
    (x.endRun result).Table := by
  obtain ⟨hsettles, hempty, -⟩ := Link.close_spec h.ordered rfl
  exact h.settle (e := .runEnded result) hsettles rfl (fun _ => Or.inr hempty) rfl

theorem Table.change {x y : Exchange Caller} (h : x.Table) (hxy : Change x y) : y.Table := by
  cases hxy with
  | nothing => exact h
  | @called caller method args id link accepted _ =>
    refine ⟨?_, ?_, ?_⟩
    · rw [Link.Ordered, note_link, accepted.pending]
      exact Link.pairwise_insertCall h.ordered accepted.free
    · intro call
      rw [note_link, note_log, accepted.pending, Link.mem_insertCall, h.mem_pending, outstanding_concat]
      simp [Event.call?, eq_comm]
    · intro hclosed
      exact absurd accepted.closedWith hclosed
  | refused caller method _ => exact h.note (e := .refused ..) rfl rfl rfl rfl
  | abandoned caller => exact h.note (e := .abandoned caller) rfl rfl rfl rfl
  | posted _ => exact h.note (e := .posted _) rfl rfl rfl rfl
  | taken _ _ => exact ⟨h.ordered, h.mem_pending, h.closed⟩
  | written _ => exact h.note (e := .written _) rfl rfl rfl rfl
  | lost _ fails =>
    obtain ⟨hsettles, hclosed, -⟩ := Link.writeFailed_spec h.ordered fails
    exact h.settle (e := .lost ..) hsettles rfl (fun hy => Or.inl (by rwa [note_link, hclosed] at hy)) rfl
  | answered _ found =>
    obtain ⟨hsettles, hclosed, -⟩ := Link.resolve_spec h.ordered found
    exact h.settle (e := .read ..) hsettles rfl (fun hy => Or.inl (by rwa [note_link, hclosed] at hy)) rfl
  | @unmatched id outcome _ _ =>
    -- the reply ends no call; what it does is to end the run
    have hread := h.note (y := x.note (.read id outcome)) (e := .read id outcome) rfl rfl rfl rfl
    exact hread.endRun _
  | halted cause _ => exact h.endRun _
  | closed closes =>
    obtain ⟨hsettles, hempty, -⟩ := Link.close_spec h.ordered closes
    exact h.settle (e := .closed _) hsettles rfl (fun _ => Or.inr hempty) rfl

/-- In every history the table holds exactly the outstanding calls. -/
theorem table_after (acts : List (Act Caller)) : (after acts).Table :=
  after_induction table_start (fun _ _ hxy h => h.change hxy) acts

/-- What every change keeps of an exchange whose table is in order holds after every history. -/
theorem table_induction {P : Exchange Caller → Prop} (start : P {})
    (step : ∀ x y, x.Table → Change x y → P x → P y) (acts : List (Act Caller)) : P (after acts) := by
  have hboth : (after acts).Table ∧ P (after acts) := by
    refine after_induction (P := fun x => x.Table ∧ P x) ⟨table_start, start⟩ ?_ acts
    rintro x y hxy ⟨htable, hx⟩
    exact ⟨htable.change hxy, step x y htable hxy hx⟩
  exact hboth.2

/-! ## The reason for closing -/

theorem firstClose_concat (log : List (Moment Caller)) (m : Moment Caller) :
    firstClose (log ++ [m]) = (firstClose log).or m.event.closes? := by
  simp [firstClose]

theorem closedWith_endRun {x : Exchange Caller} (h : x.link.closedWith = firstClose x.log)
    (result : Except Failure Unit) :
    (x.endRun result).link.closedWith = firstClose (x.endRun result).log := by
  rw [endRun_log, firstClose_concat, closes?_runEnded, ← h]
  rfl

theorem closedWith_change {x y : Exchange Caller} (hordered : x.link.Ordered)
    (h : x.link.closedWith = firstClose x.log) (hxy : Change x y) : y.link.closedWith = firstClose y.log := by
  -- an event that does not close leaves both sides as they are
  have hkept : ∀ {z : Exchange Caller} {e : Event Caller} {ended : List (Completion Caller)},
      e.closes? = none → z.link.closedWith = x.link.closedWith → z.log = x.log ++ [⟨e, ended⟩] →
      z.link.closedWith = firstClose z.log := by
    intro z e ended hevent hz hlog
    rw [hz, hlog, firstClose_concat, hevent, Option.or_none, h]
  cases hxy with
  | nothing => exact h
  | called accepted _ =>
    exact hkept (e := .called ..) rfl (accepted.closedWith.trans accepted.wasOpen.symm) rfl
  | refused caller method _ => exact hkept (e := .refused ..) rfl rfl rfl
  | abandoned caller => exact hkept (e := .abandoned _) rfl rfl rfl
  | posted _ => exact hkept (e := .posted _) rfl rfl rfl
  | taken _ _ => exact h
  | written _ => exact hkept (e := .written _) rfl rfl rfl
  | lost _ fails => exact hkept (e := .lost ..) rfl (Link.writeFailed_spec hordered fails).2.1 rfl
  | answered _ found => exact hkept (e := .read ..) rfl (Link.resolve_spec hordered found).2.1 rfl
  | @unmatched id outcome _ _ =>
    exact closedWith_endRun (hkept (z := x.note (.read id outcome)) (e := .read id outcome) rfl rfl rfl) _
  | halted cause _ => exact closedWith_endRun h _
  | closed closes =>
    obtain ⟨-, -, hclosed, -⟩ := Link.close_spec hordered closes
    rw [note_link, note_log, firstClose_concat, hclosed, h]
    rfl

/-- In every history a link is closed with the reason that was given first. -/
theorem closedWith_after (acts : List (Act Caller)) :
    (after acts).link.closedWith = firstClose (after acts).log :=
  table_induction (P := fun x => x.link.closedWith = firstClose x.log) rfl
    (fun _ _ htable hxy h => closedWith_change htable.ordered h hxy) acts

/-! ## The queue -/

/-- What was queued is what left the writer's hand, what is in it, and what waits to be taken. -/
def Queue (x : Exchange Caller) : Prop :=
  sent x.log ++ x.hand.toList ++ x.link.outbound = queued x.log

/-- A moment that neither queues a message nor sends one. -/
theorem Queue.note {x y : Exchange Caller} (h : x.Queue) {e : Event Caller}
    {ended : List (Completion Caller)} (hqueued : e.queued? = none) (hsent : e.sent? = none)
    (houtbound : y.link.outbound = x.link.outbound) (hhand : y.hand = x.hand)
    (hlog : y.log = x.log ++ [⟨e, ended⟩]) : y.Queue := by
  rw [Queue, hlog, houtbound, hhand]
  simpa [Queue, sent, queued, hqueued, hsent] using h

/-- A message is put on the queue. -/
theorem Queue.post {x y : Exchange Caller} (h : x.Queue) {e : Event Caller} {m : Message}
    (hqueued : e.queued? = some m) (hsent : e.sent? = none)
    (houtbound : y.link.outbound = x.link.outbound ++ [m]) (hhand : y.hand = x.hand)
    (hlog : y.log = x.log ++ [⟨e, []⟩]) : y.Queue := by
  have h : sent x.log ++ (x.hand.toList ++ x.link.outbound) = queued x.log := by
    simpa [Queue] using h
  rw [Queue, hlog, houtbound, hhand]
  simp only [sent, queued, List.filterMap_append] at h ⊢
  simp [hqueued, hsent, ← h]

/-- The message in hand leaves it. -/
theorem Queue.send {x y : Exchange Caller} (h : x.Queue) {e : Event Caller} {m : Message}
    {ended : List (Completion Caller)} (hx : x.hand = some m) (hy : y.hand = none)
    (hqueued : e.queued? = none) (hsent : e.sent? = some m)
    (houtbound : y.link.outbound = x.link.outbound) (hlog : y.log = x.log ++ [⟨e, ended⟩]) : y.Queue := by
  rw [Queue, hx] at h
  rw [Queue, hlog, houtbound, hy]
  simpa [sent, queued, hqueued, hsent] using h

theorem Queue.change {x y : Exchange Caller} (htable : x.Table) (h : x.Queue) (hxy : Change x y) : y.Queue := by
  cases hxy with
  | nothing => exact h
  | @called caller method args id link accepted _ =>
    exact h.post (e := .called ⟨id, method, caller⟩ args) rfl rfl accepted.outbound rfl rfl
  | refused caller method _ => exact h.note (e := .refused ..) rfl rfl rfl rfl rfl
  | abandoned caller => exact h.note (e := .abandoned _) rfl rfl rfl rfl rfl
  | posted _ => exact h.post (e := .posted _) rfl rfl rfl rfl rfl
  | taken hand next =>
    rw [Queue, hand, next] at h
    simpa [Queue] using h
  | written hand => exact h.send (e := .written _) hand rfl rfl rfl rfl rfl
  | lost hand fails =>
    have houtbound := (Link.writeFailed_spec htable.ordered fails).1.outbound
    exact h.send (e := .lost ..) hand rfl rfl rfl houtbound rfl
  | answered _ found =>
    have houtbound := (Link.resolve_spec htable.ordered found).1.outbound
    exact h.note (e := .read ..) rfl rfl houtbound rfl rfl
  | @unmatched id outcome _ _ =>
    have hread := h.note (y := x.note (.read id outcome)) (e := .read id outcome) rfl rfl rfl rfl rfl
    exact hread.note (e := .runEnded _) rfl rfl rfl rfl rfl
  | halted cause _ => exact h.note (e := .runEnded _) rfl rfl rfl rfl rfl
  | closed closes =>
    have houtbound := (Link.close_spec htable.ordered closes).1.outbound
    exact h.note (e := .closed _) rfl rfl houtbound rfl rfl

/-- In every history messages leave in the order in which they were queued, each once. -/
theorem queue_after (acts : List (Act Caller)) : (after acts).Queue :=
  table_induction (P := Queue) rfl (fun _ _ htable hxy h => h.change htable hxy) acts

end EditorLink.Exchange
