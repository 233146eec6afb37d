import EditorLink.Proofs.Session.Delivery
import EditorLink.Wire.Outlet

/-!
# EditorLink.Proofs.Session.Outflow -- from the queue to the pipe

An **outflow** is an exchange whose writer sends through an outlet. Callers, the reader and the embedding program act on the link as they
do in every exchange; beside them the writer, whoever closes the connection, and the pipe act on the outlet, in any order whatever, and
each of them may stop at each place where it has to wait. So a close may come at any point of a message that is being sent, and the pipe
may be full for as long as it likes. As in an exchange, an act that is not possible changes nothing, so that every list of acts is a
history.
-/

namespace EditorLink

open Wire

/-! ## Outflows -/

structure Outflow (Caller : Type) where
  /-- What has happened on the link. -/
  acts : List (Exchange.Act Caller) := []
  outlet : Outlet
  /-- The messages that came while the connection was not closed, first things first. Nothing in an act reads this, nor the two below. -/
  passed : List Message := []
  /-- The messages whose bytes were put into the buffer. -/
  begun : List Message := []
  /-- A write failed before the connection was closed. -/
  broke : Bool := false

namespace Outflow

variable {Caller : Type}

def exchange (x : Outflow Caller) : Exchange Caller :=
  Exchange.after x.acts

inductive Act (Caller : Type) where
  /-- Somebody else than the writer acts on the link. -/
  | link (a : Exchange.Act Caller)
  /-- The writer takes the next message in hand. -/
  | take
  /-- The message in hand comes to be sent. -/
  | pass
  | lock
  | begin
  | flow (count : Nat)
  | finish
  | fail (text : String)
  | hear
  | close
  | lockToClose
  | shutDown
  | giveUp

def act (x : Outflow Caller) : Act Caller → Outflow Caller
  | .link a => if a.quiet then { x with acts := x.acts ++ [a] } else x
  | .take => { x with acts := x.acts ++ [.take] }
  | .pass =>
    match x.outlet.sending, x.exchange.hand with
    | .idle, some m =>
      match x.outlet.pass m with
      | .ok outlet => { x with outlet, passed := x.passed ++ [m] }
      | .error reason => { x with acts := x.acts ++ [.lose reason] }
    | _, _ => x
  | .lock => x.outlet.lock.elim x fun outlet => { x with outlet }
  | .begin => x.outlet.begin.elim x fun outlet => { x with outlet, begun := x.begun ++ outlet.sending.begun?.toList }
  | .flow count => (x.outlet.flow count).elim x fun outlet => { x with outlet }
  | .finish => x.outlet.finish.elim x fun outlet => { x with outlet, acts := x.acts ++ [.write] }
  | .fail text => x.outlet.fail.elim x fun outlet =>
      { x with outlet, acts := x.acts ++ [.lose (.sendFailed text)], broke := x.broke || !x.outlet.closed }
  | .hear => { x with outlet := x.outlet.hear }
  | .close => { x with outlet := x.outlet.close }
  | .lockToClose => x.outlet.lockToClose.elim x fun outlet => { x with outlet }
  | .shutDown => x.outlet.shutDown.elim x fun outlet => { x with outlet }
  | .giveUp => x.outlet.giveUp.elim x fun outlet => { x with outlet }

/-- The outflow after some acts. -/
def after (format : Format) (as : List (Act Caller)) : Outflow Caller :=
  as.foldl act { outlet := { format } }

@[simp] theorem after_concat (format : Format) (as : List (Act Caller)) (a : Act Caller) :
    after format (as ++ [a]) = (after format as).act a := by
  simp [after]

/-- The messages that were put on the queue, first things first. -/
def queued (x : Outflow Caller) : List Message :=
  Exchange.queued x.exchange.log

/-- The messages that the writer is done with, written or not. -/
def sent (x : Outflow Caller) : List Message :=
  Exchange.sent x.exchange.log

/-- The message in hand, unless it has been begun, and what is still on the queue. -/
def waiting (x : Outflow Caller) : List Message :=
  (if x.outlet.sending.begun?.isSome then [] else x.exchange.hand.toList) ++ x.exchange.link.outbound

theorem queued_eq (x : Outflow Caller) : x.queued = x.sent ++ x.exchange.hand.toList ++ x.exchange.link.outbound :=
  (Exchange.queue_after x.acts).symm

/-! ## One act -/

/-- After these acts on the link the message has left the writer's hand, if it was there. -/
def Leaves (x : Outflow Caller) (m : Message) (acts : List (Exchange.Act Caller)) : Prop :=
  x.exchange.hand = some m → Exchange.sent (Exchange.after acts).log = x.sent ++ [m] ∧ (Exchange.after acts).hand = none

/-- All that an act can do. -/
inductive Moves (x : Outflow Caller) : Outflow Caller → Prop
  /-- On the link only, and not the writer: nothing leaves its hand, which may have been empty. -/
  | beside {acts : List (Exchange.Act Caller)} (sent : Exchange.sent (Exchange.after acts).log = x.sent)
      (hand : (Exchange.after acts).hand = x.exchange.hand ∨ x.exchange.hand = none) : Moves x { x with acts }
  | passes {m : Message} (idle : x.outlet.sending = .idle) (hand : x.exchange.hand = some m) (opened : x.outlet.closed = false) :
      Moves x { x with outlet := { x.outlet with sending := .passed m }, passed := x.passed ++ [m] }
  | refused {m : Message} {acts : List (Exchange.Act Caller)} (leaves : x.Leaves m acts) (idle : x.outlet.sending = .idle)
      (hand : x.exchange.hand = some m) (closed : x.outlet.closed = true) : Moves x { x with acts }
  | locks {m : Message} (passed : x.outlet.sending = .passed m) :
      Moves x { x with outlet := { x.outlet with sending := .locked m } }
  | begins {m : Message} (locked : x.outlet.sending = .locked m) :
      Moves x { x with
        outlet := { x.outlet with sending := .begun m, buffer := x.outlet.buffer ++ encode x.outlet.format m }
        begun := x.begun ++ [m] }
  | flows (count : Nat) (opened : x.outlet.shut = false) :
      Moves x { x with
        outlet := { x.outlet with
          written := x.outlet.written ++ x.outlet.buffer.take count
          buffer := x.outlet.buffer.drop count } }
  | finishes {m : Message} {acts : List (Exchange.Act Caller)} (leaves : x.Leaves m acts) (begun : x.outlet.sending = .begun m) :
      Moves x { x with outlet := { x.outlet with sending := .idle }, acts }
  | fails {m : Message} {acts : List (Exchange.Act Caller)} (leaves : x.Leaves m acts)
      (sending : x.outlet.sending.message? = some m) :
      Moves x { x with outlet := { x.outlet with sending := .idle }, acts, broke := x.broke || !x.outlet.closed }
  /-- The flag is set, or the first close goes on. -/
  | closes {closed : Bool} {closing : Closing} (kept : x.outlet.closed = true → closed = true)
      (flagged : closing ≠ .notYet → x.outlet.closing ≠ .notYet ∨ closed = true)
      (done : x.outlet.closing = .over → closing = .over) :
      Moves x { x with outlet := { x.outlet with closed, closing } }
  | shutsDown (locked : x.outlet.closing = .locked) (empty : x.outlet.buffer = []) :
      Moves x { x with outlet := { x.outlet with closing := .over, shut := true } }

/-- What no act of others changes. -/
theorem hand_of_quiet (x : Exchange Caller) {a : Exchange.Act Caller} (quiet : a.quiet = true) : (x.act a).hand = x.hand := by
  cases a with
  | take => cases quiet
  | write => cases quiet
  | lose reason => cases quiet
  | invoke caller method args =>
    rw [Exchange.act]
    split <;> rfl
  | read id outcome =>
    rw [Exchange.act]
    split
    · rfl
    · split <;> rfl
  | stop cause =>
    rw [Exchange.act]
    split <;> rfl
  | _ => rfl

/-- The writer takes a message if its hand is empty. -/
theorem exchange_take (x : Exchange Caller) :
    (x.act .take).log = x.log ∧ ((x.act .take).hand = x.hand ∨ x.hand = none) := by
  rw [Exchange.act]
  split
  · next hhand _ => exact ⟨rfl, Or.inr hhand⟩
  · exact ⟨rfl, Or.inl rfl⟩

theorem leaves_write (x : Outflow Caller) (m : Message) : x.Leaves m (x.acts ++ [.write]) := by
  intro hand
  rw [Exchange.after_concat]
  show Exchange.sent (x.exchange.act .write).log = _ ∧ (x.exchange.act .write).hand = none
  rw [Exchange.act, hand]
  exact ⟨Exchange.sent_concat _ _, rfl⟩

theorem leaves_lose (x : Outflow Caller) (m : Message) (reason : TransportError) : x.Leaves m (x.acts ++ [.lose reason]) := by
  intro hand
  rw [Exchange.after_concat]
  show Exchange.sent (x.exchange.act (.lose reason)).log = _ ∧ (x.exchange.act (.lose reason)).hand = none
  rw [Exchange.act, hand]
  exact ⟨Exchange.sent_concat _ _, rfl⟩

theorem moves_act (x : Outflow Caller) (a : Act Caller) : Moves x (x.act a) := by
  have hnothing : Moves x x := by
    have hsame : Moves x { x with acts := x.acts } := .beside rfl (Or.inl rfl)
    exact hsame
  cases a with
  | link a =>
    rw [act]
    split
    · next quiet =>
      refine .beside ?_ (Or.inl ?_)
      · rw [Exchange.after_concat]
        exact (Exchange.sameFate_act _ quiet).sent
      · rw [Exchange.after_concat]
        exact hand_of_quiet _ quiet
    · exact hnothing
  | take =>
    refine .beside ?_ ?_
    · rw [Exchange.after_concat, (exchange_take _).1]
      rfl
    · rw [Exchange.after_concat]
      exact (exchange_take _).2
  | pass =>
    rw [act]
    split
    · next m idle hand =>
      rw [Outlet.pass]
      by_cases hclosed : x.outlet.closed = true
      · rw [if_pos hclosed]
        exact .refused (x.leaves_lose m _) idle hand hclosed
      · rw [if_neg hclosed]
        exact .passes idle hand (by simpa using hclosed)
    · exact hnothing
  | lock =>
    rw [act, Outlet.lock]
    split
    · next m hpassed =>
      split
      · exact hnothing
      · exact .locks hpassed
    · exact hnothing
  | begin =>
    rw [act, Outlet.begin]
    split
    · next m hlocked => exact .begins hlocked
    · exact hnothing
  | flow count =>
    rw [act, Outlet.flow]
    split
    · next hopen => exact .flows count hopen.2
    · exact hnothing
  | finish =>
    rw [act, Outlet.finish]
    split
    · next m hbegun hempty => exact .finishes (x.leaves_write m) hbegun
    · exact hnothing
  | fail text =>
    rw [act, Outlet.fail]
    split
    · next m hlocked => exact .fails (x.leaves_lose m _) (by rw [hlocked]; rfl)
    · next m hbegun => exact .fails (x.leaves_lose m _) (by rw [hbegun]; rfl)
    · exact hnothing
  | hear => exact .closes (fun _ => rfl) (fun _ => Or.inr rfl) id
  | close =>
    refine .closes (fun _ => rfl) (fun _ => Or.inr rfl) fun hover => ?_
    rw [hover]
    rfl
  | lockToClose =>
    rw [act, Outlet.lockToClose]
    split
    · next hwaiting => exact .closes id (fun _ => Or.inl (by simp [hwaiting.1])) (by simp [hwaiting.1])
    · exact hnothing
  | shutDown =>
    rw [act, Outlet.shutDown]
    split
    · next hlocked => exact .shutsDown hlocked.1 hlocked.2
    · exact hnothing
  | giveUp =>
    rw [act, Outlet.giveUp]
    split
    · next hclosing => exact .closes id (fun _ => Or.inl (by rcases hclosing with h | h <;> simp [h])) fun _ => rfl
    · exact hnothing

/-! ## The stream -/

/-- What is in the pipe and before it. -/
structure Streams (x : Outflow Caller) : Prop where
  /-- What is being sent is in the writer's hand. -/
  hand : ∀ m, x.outlet.sending.message? = some m → x.exchange.hand = some m
  stream : x.outlet.written ++ x.outlet.buffer = encodeAll x.outlet.format x.begun
  /-- The pipe was shut down behind a whole message. -/
  whole : x.outlet.shut = true → ∃ messages, messages <+: x.begun ∧ x.outlet.written = encodeAll x.outlet.format messages
  flagged : x.outlet.closing ≠ .notYet → x.outlet.closed = true
  done : x.outlet.shut = true → x.outlet.closing = .over

theorem Streams.move {x y : Outflow Caller} (h : Streams x) (moves : Moves x y) : Streams y := by
  cases moves with
  | beside sent hand =>
    refine ⟨fun m hm => ?_, h.stream, h.whole, h.flagged, h.done⟩
    rcases hand with hsame | hnone
    · exact hsame.trans (h.hand m hm)
    · have hhand := h.hand m hm
      rw [hnone] at hhand
      cases hhand
  | passes idle hand opened => exact ⟨fun m hm => Option.some.inj hm ▸ hand, h.stream, h.whole, h.flagged, h.done⟩
  | refused _ idle hand closed =>
    refine ⟨fun m hm => ?_, h.stream, h.whole, h.flagged, h.done⟩
    rw [show x.outlet.sending = .idle from idle] at hm
    cases hm
  | locks passed =>
    exact ⟨fun m hm => h.hand m (by rw [passed]; exact hm), h.stream, h.whole, h.flagged, h.done⟩
  | @begins m locked =>
    refine ⟨fun m hm => h.hand m (by rw [locked]; exact hm), ?_, fun hshut => ?_, h.flagged, h.done⟩
    · show x.outlet.written ++ (x.outlet.buffer ++ encode x.outlet.format m) = encodeAll x.outlet.format (x.begun ++ [m])
      rw [← List.append_assoc, h.stream]
      simp [encodeAll]
    · obtain ⟨messages, hfirst, hwritten⟩ := h.whole hshut
      exact ⟨messages, hfirst.trans (List.prefix_append _ _), hwritten⟩
  | flows count opened =>
    refine ⟨h.hand, ?_, fun hshut => ?_, h.flagged, h.done⟩
    · show (x.outlet.written ++ x.outlet.buffer.take count) ++ x.outlet.buffer.drop count = _
      rw [List.append_assoc, List.take_append_drop]
      exact h.stream
    · exact absurd (opened.symm.trans hshut) Bool.false_ne_true
  | finishes _ _ => exact ⟨by simp [Sending.message?], h.stream, h.whole, h.flagged, h.done⟩
  | fails _ _ => exact ⟨by simp [Sending.message?], h.stream, h.whole, h.flagged, h.done⟩
  | closes kept flagged done =>
    refine ⟨h.hand, h.stream, h.whole, fun hclosing => ?_, fun hshut => done (h.done hshut)⟩
    exact (flagged hclosing).elim (fun hbefore => kept (h.flagged hbefore)) id
  | shutsDown locked empty =>
    refine ⟨h.hand, h.stream, fun _ => ⟨x.begun, List.prefix_rfl, ?_⟩, fun _ => h.flagged (by simp [locked]), fun _ => rfl⟩
    have hstream := h.stream
    rwa [empty, List.append_nil] at hstream

/-! ## The order -/

/-- Messages pass in the order of the queue and are begun in the order in which they passed. While messages may pass, or one that has
passed is being sent, none of them has been left out. -/
structure InOrder (x : Outflow Caller) : Prop where
  passed : x.passed <+: x.sent ++ x.exchange.hand.toList
  begun : x.begun <+: x.passed
  complete : x.outlet.closed = false ∨ x.outlet.sending ≠ .idle →
    x.passed = x.sent ++ x.outlet.sending.message?.toList ∧ x.begun = x.sent ++ x.outlet.sending.begun?.toList

theorem InOrder.move {x y : Outflow Caller} (streams : Streams x) (h : InOrder x) (moves : Moves x y) (sound : y.broke = false) :
    InOrder y := by
  cases moves with
  | @beside acts sent hand =>
    have hsent : Outflow.sent { x with acts } = x.sent := sent
    refine ⟨?_, h.begun, ?_⟩
    · rw [hsent]
      rcases hand with hsame | hnone
      · show x.passed <+: x.sent ++ (Exchange.after acts).hand.toList
        rw [hsame]
        exact h.passed
      · refine List.IsPrefix.trans ?_ (List.prefix_append _ _)
        simpa [hnone] using h.passed
    · rw [hsent]
      exact h.complete
  | @passes m idle hand opened =>
    obtain ⟨hpassed, hbegun⟩ := h.complete (Or.inl opened)
    have hall : x.passed = x.sent := by simpa [idle, Sending.message?] using hpassed
    have hnone : x.begun = x.sent := by simpa [idle, Sending.begun?] using hbegun
    refine ⟨?_, h.begun.trans (List.prefix_append _ _), fun _ => ⟨?_, ?_⟩⟩
    · show x.passed ++ [m] <+: x.sent ++ x.exchange.hand.toList
      rw [hall, hand]
      exact List.prefix_rfl
    · show x.passed ++ [m] = x.sent ++ [m]
      rw [hall]
    · show x.begun = x.sent ++ []
      rw [hnone, List.append_nil]
  | @refused m acts leaves idle hand closed =>
    obtain ⟨hsent, hleft⟩ := leaves hand
    refine ⟨?_, h.begun, fun hcan => ?_⟩
    · show x.passed <+: Exchange.sent (Exchange.after acts).log ++ (Exchange.after acts).hand.toList
      have hpassed := h.passed
      rw [hand] at hpassed
      rw [hsent, hleft]
      exact hpassed.trans (List.prefix_append _ _)
    · rcases hcan with hopened | hsending
      · exact absurd (hopened.symm.trans closed) Bool.false_ne_true
      · exact absurd idle hsending
  | @locks m passed =>
    have hcomplete := h.complete (Or.inr (by simp [passed]))
    rw [passed] at hcomplete
    exact ⟨h.passed, h.begun, fun _ => hcomplete⟩
  | @begins m locked =>
    obtain ⟨hpassed, hbegun⟩ := h.complete (Or.inr (by simp [locked]))
    have hnone : x.begun = x.sent := by simpa [locked, Sending.begun?] using hbegun
    have hall : x.passed = x.sent ++ [m] := by simpa [locked, Sending.message?] using hpassed
    refine ⟨h.passed, ?_, fun _ => ⟨hall, ?_⟩⟩
    · show x.begun ++ [m] <+: x.passed
      rw [hnone, hall]
    · show x.begun ++ [m] = x.sent ++ [m]
      rw [hnone]
  | flows count opened => exact ⟨h.passed, h.begun, h.complete⟩
  | @finishes m acts leaves begun =>
    obtain ⟨hpassed, hbegun⟩ := h.complete (Or.inr (by simp [begun]))
    rw [begun] at hpassed hbegun
    obtain ⟨hsent, hleft⟩ := leaves (streams.hand m (by rw [begun]; rfl))
    have hall : x.passed = Exchange.sent (Exchange.after acts).log := hpassed.trans hsent.symm
    have hnone : x.begun = Exchange.sent (Exchange.after acts).log := hbegun.trans hsent.symm
    refine ⟨?_, h.begun, fun _ => ⟨?_, ?_⟩⟩
    · show x.passed <+: Exchange.sent (Exchange.after acts).log ++ _
      rw [hall]
      exact List.prefix_append _ _
    · exact hall.trans (List.append_nil _).symm
    · exact hnone.trans (List.append_nil _).symm
  | @fails m acts leaves sending =>
    -- it is closed already, so that nothing else passes
    have hclosed : x.outlet.closed = true := by simpa using (Bool.or_eq_false_iff.mp sound).2
    obtain ⟨hpassed, -⟩ := h.complete (Or.inr (by intro hidle; simp [hidle, Sending.message?] at sending))
    rw [sending] at hpassed
    obtain ⟨hsent, hleft⟩ := leaves (streams.hand m sending)
    refine ⟨?_, h.begun, fun hcan => ?_⟩
    · show x.passed <+: Exchange.sent (Exchange.after acts).log ++ _
      rw [hsent, hpassed]
      exact List.prefix_append _ _
    · rcases hcan with hopened | hsending
      · exact absurd (hopened.symm.trans hclosed) Bool.false_ne_true
      · exact absurd rfl hsending
  | closes kept flagged done =>
    exact ⟨h.passed, h.begun, fun hcan => h.complete (hcan.imp_left fun hopened => eq_false_of_imp hopened kept)⟩
  | shutsDown locked empty => exact ⟨h.passed, h.begun, h.complete⟩

/-! ## Histories -/

theorem Moves.format {x y : Outflow Caller} (h : Moves x y) : y.outlet.format = x.outlet.format := by
  cases h <;> rfl

theorem Moves.broke {x y : Outflow Caller} (h : Moves x y) (sound : y.broke = false) : x.broke = false := by
  cases h with
  | fails _ _ => exact (Bool.or_eq_false_iff.mp sound).1
  | _ => exact sound

/-- Nothing passes once the flag is set, and no write that fails then counts. -/
theorem Moves.of_closed {x y : Outflow Caller} (h : Moves x y) (closed : x.outlet.closed = true) :
    y.outlet.closed = true ∧ y.passed = x.passed ∧ y.broke = x.broke := by
  cases h with
  | passes idle hand opened => exact absurd (opened.symm.trans closed) Bool.false_ne_true
  | fails _ _ => exact ⟨closed, rfl, by simp [closed]⟩
  | closes kept _ _ => exact ⟨kept closed, rfl, rfl⟩
  | _ => exact ⟨closed, rfl, rfl⟩

/-- A pipe that has been shut down takes nothing. -/
theorem Moves.of_shut {x y : Outflow Caller} (h : Moves x y) (shut : x.outlet.shut = true) :
    y.outlet.shut = true ∧ y.outlet.written = x.outlet.written := by
  cases h with
  | flows count opened => exact absurd (opened.symm.trans shut) Bool.false_ne_true
  | shutsDown locked empty => exact ⟨rfl, rfl⟩
  | _ => exact ⟨shut, rfl⟩

section History

variable (format : Format)

theorem format_after (as : List (Act Caller)) : (after format as).outlet.format = format := by
  induction as using List.reverseRecOn with
  | nil => rfl
  | append_singleton as a ih =>
    rw [after_concat]
    exact (moves_act _ a).format.trans ih

theorem streams_after (as : List (Act Caller)) : Streams (after format as) := by
  induction as using List.reverseRecOn with
  | nil => exact ⟨by simp [after, Sending.message?], rfl, by simp [after], by simp [after], by simp [after]⟩
  | append_singleton as a ih =>
    rw [after_concat]
    exact ih.move (moves_act _ a)

theorem inOrder_after {as : List (Act Caller)} (sound : (after format as).broke = false) : InOrder (after format as) := by
  induction as using List.reverseRecOn with
  | nil => exact ⟨List.nil_prefix, List.nil_prefix, fun _ => ⟨rfl, rfl⟩⟩
  | append_singleton as a ih =>
    have hmoves := moves_act (after format as) a
    rw [after_concat] at sound ⊢
    exact (ih (hmoves.broke sound)).move (streams_after format as) hmoves sound

theorem closed_after {as : List (Act Caller)} (closed : (after format as).outlet.closed = true) (more : List (Act Caller)) :
    (after format (as ++ more)).outlet.closed = true ∧ (after format (as ++ more)).passed = (after format as).passed ∧
      (after format (as ++ more)).broke = (after format as).broke := by
  induction more using List.reverseRecOn with
  | nil =>
    rw [List.append_nil]
    exact ⟨closed, rfl, rfl⟩
  | append_singleton more a ih =>
    obtain ⟨hclosed, hpassed, hbroke⟩ := ih
    obtain ⟨hclosed', hpassed', hbroke'⟩ := (moves_act (after format (as ++ more)) a).of_closed hclosed
    rw [← List.append_assoc, after_concat]
    exact ⟨hclosed', hpassed'.trans hpassed, hbroke'.trans hbroke⟩

theorem shut_after {as : List (Act Caller)} (shut : (after format as).outlet.shut = true) (more : List (Act Caller)) :
    (after format (as ++ more)).outlet.shut = true ∧
      (after format (as ++ more)).outlet.written = (after format as).outlet.written := by
  induction more using List.reverseRecOn with
  | nil =>
    rw [List.append_nil]
    exact ⟨shut, rfl⟩
  | append_singleton more a ih =>
    obtain ⟨hshut, hwritten⟩ := ih
    obtain ⟨hshut', hwritten'⟩ := (moves_act (after format (as ++ more)) a).of_shut hshut
    rw [← List.append_assoc, after_concat]
    exact ⟨hshut', hwritten'.trans hwritten⟩

end History

/-! ## What the host is sent -/

theorem encodeAll_append (format : Format) (messages more : List Message) :
    encodeAll format (messages ++ more) = encodeAll format messages ++ encodeAll format more := by
  simp [encodeAll]

theorem encodeAll_prefix {messages more : List Message} (h : messages <+: more) (format : Format) :
    encodeAll format messages <+: encodeAll format more := by
  obtain ⟨rest, rfl⟩ := h
  rw [encodeAll_append]
  exact List.prefix_append _ _

section Sound

variable {format : Format} {as : List (Act Caller)} (sound : (after format as).broke = false)

include sound

/-- The messages that have passed are the first ones of the queue. -/
theorem passed_prefix : (after format as).passed <+: (after format as).queued := by
  rw [queued_eq]
  exact (inOrder_after format sound).passed.trans (List.prefix_append _ _)

theorem written_prefix : (after format as).outlet.written <+: encodeAll format (after format as).passed := by
  have hstream := (streams_after format as).stream
  rw [format_after] at hstream
  have hbegun := encodeAll_prefix (inOrder_after format sound).begun format
  rw [← hstream] at hbegun
  exact (List.prefix_append _ _).trans hbegun

/-- Until the connection is closed, what is not in the pipe yet is in the buffer, or waits. -/
theorem nothing_lost (opened : (after format as).outlet.closed = false) :
    (after format as).outlet.written ++ (after format as).outlet.buffer ++ encodeAll format (after format as).waiting =
      encodeAll format (after format as).queued := by
  have hstream := (streams_after format as).stream
  rw [format_after] at hstream
  obtain ⟨-, hbegun⟩ := (inOrder_after format sound).complete (Or.inl opened)
  rw [hstream, ← encodeAll_append, queued_eq, hbegun, waiting]
  congr 1
  cases hsending : (after format as).outlet.sending with
  | begun m =>
    have hhand := (streams_after format as).hand m (by rw [hsending]; rfl)
    simp [Sending.begun?, hhand]
  | _ => simp [Sending.begun?]

end Sound

/-! ## Without waiting -/

section Straight

variable {x : Outflow Caller} {m : Message}

/-- A message goes all the way through an outlet that is free. -/
theorem sends (hand : x.exchange.hand = some m) (idle : x.outlet.sending = .idle)
    (free : x.outlet.closing = .notYet) (opened : x.outlet.closed = false) (flows : x.outlet.shut = false) (empty : x.outlet.buffer = []) :
    [.pass, .lock, .begin, .flow (encode x.outlet.format m).length, .finish].foldl act x =
      { x with
        outlet := { x.outlet with written := x.outlet.written ++ encode x.outlet.format m }
        acts := x.acts ++ [.write]
        passed := x.passed ++ [m]
        begun := x.begun ++ [m] } := by
  simp [act, hand, idle, free, opened, flows, empty, Outlet.pass, Outlet.lock, Outlet.begin, Outlet.flow, Outlet.finish, Outlet.isLocked,
    Sending.begun?]

/-- The pipe fails before it has taken anything of a message. -/
theorem fails (hand : x.exchange.hand = some m) (idle : x.outlet.sending = .idle)
    (free : x.outlet.closing = .notYet) (opened : x.outlet.closed = false) (text : String) :
    [.pass, .lock, .fail text].foldl act x =
      { x with acts := x.acts ++ [.lose (.sendFailed text)], passed := x.passed ++ [m], broke := true } := by
  have houtlet : x.outlet = { x.outlet with closed := false, sending := .idle, closing := .notYet } := by
    rw [← idle, ← free, ← opened]
  rw [houtlet]
  simp [act, hand, idle, free, opened, Outlet.pass, Outlet.lock, Outlet.fail, Outlet.isLocked]

theorem refuses (hand : x.exchange.hand = some m) (idle : x.outlet.sending = .idle)
    (closed : x.outlet.closed = true) : x.act .pass = { x with acts := x.acts ++ [.lose .closed] } := by
  simp [act, hand, idle, closed, Outlet.pass]

/-- A free outlet is closed, and shut down unless something is left in the buffer. -/
theorem closes (idle : x.outlet.sending = .idle) (free : x.outlet.closing = .notYet) :
    [.close, .lockToClose, .shutDown, .giveUp].foldl act x =
      { x with outlet := { x.outlet with closed := true, closing := .over, shut := x.outlet.shut || x.outlet.buffer.isEmpty } } := by
  by_cases hempty : x.outlet.buffer = []
  · simp [act, idle, free, hempty, Outlet.close, Outlet.lockToClose, Outlet.shutDown, Outlet.giveUp, Outlet.isLocked]
  · simp [act, idle, free, hempty, Outlet.close, Outlet.lockToClose, Outlet.shutDown, Outlet.giveUp, Outlet.isLocked]

theorem links (x : Outflow Caller) {as : List (Exchange.Act Caller)} (quiet : ∀ a ∈ as, a.quiet = true) :
    (as.map Act.link).foldl act x = { x with acts := x.acts ++ as } := by
  induction as generalizing x with
  | nil => simp
  | cons a as ih =>
    rw [List.map_cons, List.foldl_cons, act, if_pos (quiet a List.mem_cons_self), ih _ fun b hb => quiet b (List.mem_cons_of_mem _ hb)]
    simp
end Straight

end Outflow
end EditorLink
