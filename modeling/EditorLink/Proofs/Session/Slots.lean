import Mathlib
import EditorLink.Proofs.Session.Aside

/-!
# EditorLink.Proofs.Session.Slots -- handlers and the slots that they hold

A session has room for so many unfinished handlers, and counts those that there are. A move takes a slot for a handler, gives one back,
turns a message away because there is none, or has nothing to do with slots (`Booking`). So the count is always that of the handlers
that were accepted and have not ended (`Booked`), however they end and whatever was turned away before, and it never passes the limit.
-/

namespace EditorLink.Session

open Extension Wire

/-! ## What a move has to do with slots -/

/-- Some deeds that neither take a slot nor give one back nor find none. -/
structure Plain (deeds : List Deed) : Prop where
  accepted : accepted deeds = []
  finished : finished deeds = []
  refused : ∀ role args, .refused role args ∉ deeds

theorem plain_nil : Plain [] :=
  ⟨rfl, rfl, by simp⟩

theorem plain_link (a : Exchange.Act TaskId) : Plain [.link a] :=
  ⟨rfl, rfl, by simp⟩

theorem Plain.append {deeds more : List Deed} (h : Plain deeds) (hmore : Plain more) : Plain (deeds ++ more) where
  accepted := by rw [accepted_append, h.accepted, hmore.accepted, List.append_nil]
  finished := by rw [finished_append, h.finished, hmore.finished, List.append_nil]
  refused := by
    intro role args hmem
    exact (List.mem_append.mp hmem).elim (h.refused role args) (hmore.refused role args)

/-- How many handlers may be unfinished at one time, and how many are. -/
def slots (s : Session) : Nat × Nat :=
  (s.limit, s.inFlight)

/-- All that a move can do to the slots, with the deeds that tell of it. -/
inductive Booking (s s' : Session) : List Deed → Prop
  | none {deeds : List Deed} (plain : Plain deeds) (same : s'.slots = s.slots) : Booking s s' deeds
  | taken {t : TaskId} {role : Role} {args : List Value} (free : s.inFlight < s.limit)
      (more : s'.slots = (s.limit, s.inFlight + 1)) : Booking s s' [.accepted t role args]
  | refused {role : Role} {args : List Value} {rest : List Deed} (full : s.limit ≤ s.inFlight) (plain : Plain rest)
      (same : s'.slots = s.slots) : Booking s s' (.refused role args :: rest)
  | ended {t : TaskId} {role : Role} {exit : Exit} {rest : List Deed} (plain : Plain rest)
      (less : s'.slots = (s.limit, if role.handler?.isSome then s.inFlight - 1 else s.inFlight)) :
      Booking s s' (.finished t role exit :: rest)

/-- What does not change the slots before a move makes no difference. -/
theorem Booking.from_slots {s t s' : Session} {deeds : List Deed} (h : Booking t s' deeds) (hslots : t.slots = s.slots) :
    Booking s s' deeds := by
  obtain ⟨hlimit, hinFlight⟩ := Prod.mk.inj hslots
  cases h with
  | none plain same => exact .none plain (same.trans hslots)
  | taken free more => exact .taken (hlimit ▸ hinFlight ▸ free) (by rw [more, hlimit, hinFlight])
  | refused full plain same => exact .refused (hlimit ▸ hinFlight ▸ full) plain (same.trans hslots)
  | ended plain less => exact .ended plain (by rw [less, hlimit, hinFlight])

/-- What spares a run spares the slots. -/
theorem Spares.slots {s s' : Session} (h : Spares s s') : s'.slots = s.slots :=
  congrArg (fun standing => (standing.limit, standing.inFlight)) h.standing

theorem Spares.booking {s s' : Session} {deeds : List Deed} (h : Spares s s') (plain : Plain deeds) : Booking s s' deeds :=
  .none plain h.slots

/-! ## Steps -/

theorem slots_endReading (s : Session) (result : Except Failure Unit) : (s.endReading result).slots = s.slots := by
  have hclose := (Spares.closeWith s (closeReason result)).slots
  unfold endReading
  cases result <;> exact hclose

theorem slots_stopRun (s : Session) : s.stopRun.slots = s.slots :=
  (Spares.closeWith (s.report .stopRequested) .closed).slots

/-- A request that is handed over takes a slot, or is turned away and answered. -/
theorem booking_dispatchRequest (s : Session) (id : UInt32) (method : String) (args : List Value) :
    (∃ s', s.dispatchRequest id method args = .ok s' ∧ ¬ s.limit ≤ s.inFlight ∧ Booking s s' (s.requestDeeds id method args)) ∨
    (∃ s', s.dispatchRequest id method args = .error s' ∧ s.limit ≤ s.inFlight ∧ s'.slots = s.slots ∧
      Booking s s' (s.requestDeeds id method args)) := by
  unfold requestDeeds
  rcases s.dispatchRequest_spec id method args with ⟨hfull, due, journal, writerDue, herror⟩ | ⟨hfree, hok⟩
  · rw [if_pos hfull]
    exact Or.inr ⟨_, herror, hfull, rfl, .refused hfull (plain_link _) rfl⟩
  · rw [if_neg hfree]
    exact Or.inl ⟨_, hok, hfree, .taken (Nat.lt_of_not_le hfree) rfl⟩

theorem booking_handle (s : Session) (m : Message) : Booking s (s.handle m) (s.readDeeds (.message m)) := by
  cases m with
  | reply id outcome =>
    refine .none (plain_link _) ?_
    have hlink : (s.report (.replyReceived id outcome.isOk)).link = s.link := rfl
    simp only [handle, hlink]
    cases s.link.resolve id outcome with
    | error e => exact slots_endReading _ _
    | ok found =>
      obtain ⟨c, link⟩ := found
      -- whether the caller is gone shows in a notice only
      show (complete (if _ then _ else _) c).slots = _
      split
      · exact (Spares.complete _ c).slots
      · exact (Spares.complete _ c).slots
  | notify method args =>
    simp only [handle, dispatch, readDeeds]
    by_cases hfull : s.limit ≤ s.inFlight
    · simp only [if_pos hfull]
      exact .refused hfull (plain_link _) (slots_endReading _ _)
    · simp only [if_neg hfull]
      exact .taken (Nat.lt_of_not_le hfull) rfl
  | request id method args =>
    simp only [handle, readDeeds]
    rcases s.booking_dispatchRequest id method args with ⟨t, hok, hfree, hbooking⟩ | ⟨t, herror, hfull, hsame, -⟩
    · rw [hok, if_neg hfree, List.append_nil]
      exact hbooking
    · rw [herror, if_pos hfull, requestDeeds, if_pos hfull]
      exact .refused hfull ((plain_link _).append (plain_link _)) ((slots_endReading _ _).trans hsame)

theorem booking_readStep (s : Session) : Booking s s.readStep (s.readDeeds s.connection.receive.1) := by
  unfold readStep
  generalize s.connection.receive = received
  obtain ⟨received, connection⟩ := received
  cases received with
  | message m => exact (booking_handle { s with connection } m).from_slots rfl
  | again => exact .none plain_nil rfl
  | blocked => exact .none plain_nil rfl
  | finished => exact .none (plain_link _) (slots_endReading _ _)
  | failed e => exact .none (plain_link _) (slots_endReading _ _)

theorem plain_writeDeeds (s : Session) : Plain s.writeDeeds := by
  unfold writeDeeds
  split
  · exact plain_nil
  · split <;> exact (plain_link _).append (plain_link _)

/-- Code that ends gives a slot back if it is the handler itself. -/
theorem booking_leave {s : Session} {t : TaskId} {role : Role} {exit : Exit} {outer : List (Exit → Program)} :
    Booking s (s.leave t role exit outer) (leaveDeeds t role exit outer) := by
  cases outer with
  | cons next outer =>
    refine .none ?_ rfl
    cases outer <;> exact ⟨rfl, rfl, by simp [leaveDeeds]⟩
  | nil =>
    obtain ⟨hstanding, -⟩ := conclude_standing { s with focus := .idle } exit role
    refine .ended ?_ (congrArg (fun standing => (standing.limit, standing.inFlight)) hstanding)
    cases role.reply? exit with
    | none => exact plain_nil
    | some reply => exact plain_link _

theorem plain_runDeeds (s : Session) (t : TaskId) (role : Role) (outer : List (Exit → Program)) {p : Program}
    (hgoes : ∀ exit : Exit, p ≠ exit.program) : Plain (s.runDeeds t role outer p) := by
  cases p with
  | finish e => exact absurd rfl (hgoes (.ended e))
  | panic text => exact absurd rfl (hgoes (.panicked text))
  | access change next =>
    rw [runDeeds]
    split
    · exact ⟨rfl, rfl, by simp⟩
    · exact plain_nil
  | notify method args next => exact plain_link _
  | invoke method args release next => exact plain_link _
  | _ => exact plain_nil

theorem booking_runStep {s : Session} {t : TaskId} {role : Role} {p : Program} {outer : List (Exit → Program)}
    (running : s.focus = .running t role p outer) : Booking s (s.runStep t role outer p) (s.runDeeds t role outer p) := by
  by_cases hends : ∃ exit : Exit, p = exit.program
  · obtain ⟨exit, rfl⟩ := hends
    cases exit <;> exact booking_leave
  · have hgoes : ∀ exit : Exit, p ≠ exit.program := fun exit hexit => hends ⟨exit, hexit⟩
    exact (Spares.runStep running hgoes).booking (s.plain_runDeeds t role outer hgoes)

theorem booking_begin (s : Session) (turn : Turn) : Booking s (s.begin turn) (s.beginDeeds turn) := by
  cases turn with
  | writer => exact .none plain_nil rfl
  | task id =>
    refine .none plain_nil ?_
    rw [begin]
    split <;> rfl
  | reader =>
    rw [begin, beginDeeds]
    by_cases hdue : s.reader = .due
    · rw [if_neg (not_not.mpr hdue)]
      by_cases hstop : s.stopping = true
      · rw [if_pos hstop, if_pos ⟨hdue, hstop⟩]
        exact .none (plain_link _) s.slots_stopRun
      · rw [if_neg hstop, if_neg (by simp [hstop])]
        exact .none plain_nil rfl
    · rw [if_pos hdue, if_neg (by simp [hdue])]
      exact .none plain_nil rfl

theorem booking_step {s s' : Session} (h : s.step = some s') : Booking s s' s.stepDeeds := by
  unfold step at h
  split at h
  · next hfocus =>
    have hdeeds : s.stepDeeds = s.readDeeds s.connection.receive.1 := by rw [stepDeeds, hfocus]
    rw [hdeeds, ← Option.some.inj h]
    exact s.booking_readStep
  · next hfocus =>
    have hdeeds : s.stepDeeds = s.writeDeeds := by rw [stepDeeds, hfocus]
    rw [hdeeds, ← Option.some.inj h]
    exact (Spares.writeStep hfocus).booking s.plain_writeDeeds
  · next t role p outer hfocus =>
    have hdeeds : s.stepDeeds = s.runDeeds t role outer p := by rw [stepDeeds, hfocus]
    rw [hdeeds, ← Option.some.inj h]
    exact booking_runStep hfocus
  · next hfocus =>
    split at h
    · cases h
    · next turn rest hready =>
      have hdeeds : s.stepDeeds = s.beginDeeds turn := by rw [stepDeeds, hfocus, hready]
      rw [hdeeds, ← Option.some.inj h]
      exact (booking_begin { s with ready := rest } turn).from_slots rfl

/-! ## Moves -/

/-- **Every move takes a slot, gives one back, finds none, or leaves the slots alone**, and its record says which. -/
theorem booking_move (s : Session) (m : Move) : Booking s (s.move m) (s.moveDeeds m) := by
  have hwake : ∀ t : Session, t.slots = s.slots → Booking s t.wakeReader [] :=
    fun t ht => .none plain_nil ((Spares.wakeReader t).slots.trans ht)
  cases m with
  | step =>
    rw [move, moveDeeds]
    cases hstep : s.step with
    | none =>
      rw [stepDeeds_of_none hstep]
      exact .none plain_nil rfl
    | some s' => exact booking_step hstep
  | start =>
    show Booking s (if s.reader = .notStarted then _ else s) []
    split <;> exact .none plain_nil rfl
  | shutdown => exact (Spares.closeWith s .closed).booking (plain_link _)
  | requestStop => exact hwake _ rfl
  | abandon tag =>
    rw [move, abandon, moveDeeds]
    cases s.tasks.find? (hasTag tag) with
    | none => exact .none plain_nil rfl
    | some t => exact .none (plain_link _) rfl
  | openGate gate => exact .none plain_nil (Spares.resumeGate { s with openGates := gate :: s.openGates } gate).slots
  | handOver id method args =>
    rw [move, moveDeeds]
    rcases s.booking_dispatchRequest id method args with ⟨t, hok, -, hbooking⟩ | ⟨t, herror, -, -, hbooking⟩
    · rw [hok]
      exact hbooking
    · rw [herror]
      exact hbooking
  | hostSend m =>
    rw [move, hostSend]
    by_cases hclosed : s.host.closed = true
    · rw [if_pos hclosed]
      exact .none plain_nil rfl
    · rw [if_neg hclosed]
      exact hwake _ rfl
  | hostWrite bytes => exact hwake _ rfl
  | hostHangUp => exact hwake _ rfl
  | hostLeave => exact hwake _ rfl
  | _ => exact .none plain_nil rfl

/-! ## Handlers that have not ended -/

/-- The handlers that were accepted and have not ended. -/
def unended (log : List Deed) : List (TaskId × Role) :=
  (accepted log).filter fun h => h.1 ∉ (finished log).map (·.1)

/-- They are the unfinished tasks that are handlers. -/
theorem Balanced.unended_perm {s : Session} {log : List Deed} (kept : Kept s log) (h : Balanced s log) :
    (unended log).Perm (unfinished s) := by
  have hlive : ∀ key ∈ unfinished s, key.1 ∉ (finished log).map (·.1) := by
    intro key hkey hover
    obtain ⟨u, hu, rfl⟩ := List.mem_map.mp (List.mem_of_mem_filter hkey)
    exact (List.nodup_append.mp kept.nodup).2.2 u.id hover u.id (List.mem_map.mpr ⟨u, hu, rfl⟩) rfl
  have hover : ∀ key ∈ handlers (overKeys log), ¬ key.1 ∉ (finished log).map (·.1) := by
    intro key hkey
    obtain ⟨f, hf, rfl⟩ := List.mem_map.mp (List.mem_of_mem_filter hkey)
    exact not_not.mpr (List.mem_map.mpr ⟨f, hf, rfl⟩)
  have hgone : (handlers (overKeys log)).filter (fun key => key.1 ∉ (finished log).map (·.1)) = [] :=
    List.filter_eq_nil_iff.mpr fun key hkey => by simpa only [decide_eq_true_eq] using hover key hkey
  have hleft : (unfinished s).filter (fun key => key.1 ∉ (finished log).map (·.1)) = unfinished s :=
    List.filter_eq_self.mpr fun key hkey => decide_eq_true (hlive key hkey)
  have hall : (accepted log).Perm (unfinished s ++ handlers (overKeys log)) := h
  have hsplit := hall.filter fun key => key.1 ∉ (finished log).map (·.1)
  rwa [List.filter_append, hleft, hgone, List.append_nil] at hsplit

/-- How many of the tasks that have ended were handlers. -/
def overCount (log : List Deed) : Nat :=
  (handlers (overKeys log)).length

theorem overCount_append (log more : List Deed) : overCount (log ++ more) = overCount log + overCount more := by
  rw [overCount, overKeys_append, handlers_append, List.length_append]
  rfl

theorem Plain.overCount {deeds : List Deed} (h : Plain deeds) : overCount deeds = 0 := by
  rw [Session.overCount, overKeys, h.finished]
  rfl

theorem overCount_finished (t : TaskId) (role : Role) (exit : Exit) :
    overCount [.finished t role exit] = if role.handler?.isSome then 1 else 0 := by
  have hkeys : overKeys [.finished t role exit] = [(t, role)] := rfl
  rw [overCount, hkeys, handlers]
  cases handles : role.handler?.isSome <;> simp [handles]

/-- Of the handlers that were accepted each has ended or has not. -/
theorem Balanced.length_accepted {s : Session} {log : List Deed} (kept : Kept s log) (h : Balanced s log) :
    (accepted log).length = (unended log).length + overCount log := by
  rw [List.Perm.length_eq h, List.length_append, (h.unended_perm kept).length_eq]
  rfl

/-- The books are right: a slot is held for every handler that was accepted, until it has ended. -/
structure Booked (s : Session) (log : List Deed) : Prop where
  balance : s.inFlight + overCount log = (accepted log).length
  within : s.inFlight ≤ s.limit

/-- What a move does to the slots it does to the books. -/
theorem Booked.move {s s' : Session} {log deeds : List Deed} (h : Booked s log) (booking : Booking s s' deeds)
    (kept : Kept s' (log ++ deeds)) (balanced : Balanced s' (log ++ deeds)) : Booked s' (log ++ deeds) := by
  obtain ⟨hbalance, hwithin⟩ := h
  have hlength := balanced.length_accepted kept
  rw [accepted_append, List.length_append, overCount_append] at hlength
  suffices hnow : s'.inFlight + overCount deeds = s.inFlight + (accepted deeds).length ∧ s'.inFlight ≤ s'.limit by
    refine ⟨?_, hnow.2⟩
    rw [accepted_append, List.length_append, overCount_append]
    omega
  cases booking with
  | none plain same =>
    obtain ⟨hlimit, hinFlight⟩ := Prod.mk.inj same
    rw [plain.accepted, plain.overCount, hlimit, hinFlight]
    exact ⟨rfl, hwithin⟩
  | refused full plain same =>
    obtain ⟨hlimit, hinFlight⟩ := Prod.mk.inj same
    rw [← List.singleton_append, overCount_append, plain.overCount, accepted_append, plain.accepted, hlimit, hinFlight]
    exact ⟨rfl, hwithin⟩
  | taken free more =>
    obtain ⟨hlimit, hinFlight⟩ := Prod.mk.inj more
    rw [hlimit, hinFlight]
    exact ⟨rfl, free⟩
  | @ended t role exit rest plain less =>
    obtain ⟨hlimit, hinFlight⟩ := Prod.mk.inj less
    rw [← List.singleton_append, overCount_append, plain.overCount, overCount_finished, accepted_append, plain.accepted] at hlength ⊢
    rw [hlimit, hinFlight]
    -- the handler that ends is one of those that were accepted and had not ended, so that its slot is held
    have hnone : accepted [.finished t role exit] = [] := rfl
    rw [hnone] at hlength ⊢
    by_cases handles : role.handler?.isSome = true
    · simp only [if_pos handles] at hlength ⊢
      simp only [List.length_nil, List.append_nil] at hlength ⊢
      omega
    · simp only [if_neg handles]
      exact ⟨rfl, hwithin⟩

theorem booked_after (setup : Setup) (moves : List Move) :
    Booked (Chronicle.after setup moves).session (Chronicle.after setup moves).log := by
  induction moves using List.reverseRecOn with
  | nil => exact ⟨rfl, Nat.zero_le _⟩
  | append_singleton moves m ih =>
    have hkept := kept_after setup (moves ++ [m])
    have hbalanced := balanced_after setup (moves ++ [m])
    rw [Chronicle.after_concat] at hkept hbalanced ⊢
    exact ih.move (booking_move _ m) hkept hbalanced

/-- The count of a session is the number of its unended handlers. -/
theorem Booked.inFlight_eq {s : Session} {log : List Deed} (h : Booked s log) (kept : Kept s log)
    (balanced : Balanced s log) : s.inFlight = (unended log).length := by
  have hlength := balanced.length_accepted kept
  have hbalance := h.balance
  omega

/-! ## The limit -/

theorem Booking.limit_eq {s s' : Session} {deeds : List Deed} (h : Booking s s' deeds) : s'.limit = s.limit := by
  cases h with
  | none plain same => exact (Prod.mk.inj same).1
  | taken free more => exact (Prod.mk.inj more).1
  | refused full plain same => exact (Prod.mk.inj same).1
  | ended plain less => exact (Prod.mk.inj less).1

/-- A session keeps the limit that it was set up with. -/
theorem limit_after (setup : Setup) (moves : List Move) :
    (Chronicle.after setup moves).session.limit = setup.maxInFlight := by
  induction moves using List.reverseRecOn with
  | nil => rfl
  | append_singleton moves m ih =>
    rw [Chronicle.after_concat]
    exact (booking_move _ m).limit_eq.trans ih

/-- A message that was turned away found no slot, and nothing else has happened to them. -/
theorem Booking.of_refused {s s' : Session} {deeds : List Deed} (h : Booking s s' deeds) {role : Role} {args : List Value}
    (hmem : .refused role args ∈ deeds) :
    s.limit ≤ s.inFlight ∧ accepted deeds = [] ∧ finished deeds = [] ∧ s'.inFlight = s.inFlight := by
  cases h with
  | none plain same => exact absurd hmem (plain.refused role args)
  | taken free more => simp at hmem
  | refused full plain same => exact ⟨full, plain.accepted, plain.finished, (Prod.mk.inj same).2⟩
  | ended plain less =>
    rcases List.mem_cons.mp hmem with hmem | hmem
    · cases hmem
    · exact absurd hmem (plain.refused role args)

/-- A message that got a handler found a slot, and has it. -/
theorem Booking.of_accepted {s s' : Session} {deeds : List Deed} (h : Booking s s' deeds) {t : TaskId} {role : Role}
    {args : List Value} (hmem : .accepted t role args ∈ deeds) : s.inFlight < s.limit ∧ s'.inFlight = s.inFlight + 1 := by
  have haccepted := mem_accepted.mpr ⟨args, hmem⟩
  cases h with
  | taken free more => exact ⟨free, (Prod.mk.inj more).2⟩
  | none plain same => exact absurd haccepted (List.eq_nil_iff_forall_not_mem.mp plain.accepted _)
  | refused full plain same => exact absurd haccepted (List.eq_nil_iff_forall_not_mem.mp plain.accepted _)
  | ended plain less => exact absurd haccepted (List.eq_nil_iff_forall_not_mem.mp plain.accepted _)

/-- A move ends one handler at most, and begins none then. -/
theorem Booking.of_finished {s s' : Session} {deeds : List Deed} (h : Booking s s' deeds) {t : TaskId} {role : Role}
    {exit : Exit} (hmem : .finished t role exit ∈ deeds) (handles : role.handler?.isSome = true) :
    accepted deeds = [] ∧ overCount deeds = 1 := by
  have hfinished := mem_finished.mpr hmem
  cases h with
  | none plain same => exact absurd hfinished (List.eq_nil_iff_forall_not_mem.mp plain.finished _)
  | taken free more => exact absurd hfinished List.not_mem_nil
  | refused full plain same => exact absurd hfinished (List.eq_nil_iff_forall_not_mem.mp plain.finished _)
  | @ended u own how rest plain less =>
    have honly : finished (.finished u own how :: rest) = [(u, own, how)] := by
      rw [← List.singleton_append, finished_append, plain.finished]
      rfl
    rw [honly, List.mem_singleton] at hfinished
    obtain ⟨rfl, rfl, rfl⟩ := hfinished
    refine ⟨plain.accepted, ?_⟩
    rw [← List.singleton_append, overCount_append, plain.overCount, overCount_finished, if_pos handles]

/-- Where no handler begins or ends the count stays. -/
theorem Booking.of_neither {s s' : Session} {deeds : List Deed} (h : Booking s s' deeds) (haccepted : accepted deeds = [])
    (hfinished : ∀ t role exit, .finished t role exit ∈ deeds → role.handler?.isSome = false) :
    s'.inFlight = s.inFlight := by
  cases h with
  | none plain same => exact (Prod.mk.inj same).2
  | taken free more => cases haccepted
  | refused full plain same => exact (Prod.mk.inj same).2
  | @ended t role exit rest plain less =>
    rw [hfinished t role exit List.mem_cons_self, if_neg Bool.false_ne_true] at less
    exact (Prod.mk.inj less).2

/-! ## The room that there is -/

/-- A request that is handed over takes a slot if there is one. -/
theorem inFlight_handOver {s : Session} (within : s.inFlight ≤ s.limit) (id : UInt32) (method : String)
    (args : List Value) : (s.move (.handOver id method args)).inFlight = min s.limit (s.inFlight + 1) := by
  have hbooking := booking_move s (.handOver id method args)
  have hdeeds : s.moveDeeds (.handOver id method args) = s.requestDeeds id method args := rfl
  rw [hdeeds, requestDeeds] at hbooking
  by_cases hfull : s.limit ≤ s.inFlight
  · rw [if_pos hfull] at hbooking
    have hsame := (hbooking.of_refused List.mem_cons_self).2.2.2
    omega
  · rw [if_neg hfull] at hbooking
    have hmore := (hbooking.of_accepted List.mem_cons_self).2
    omega

/-- Some requests, handed over one after the other. -/
def handOvers (requests : List (UInt32 × String × List Value)) : List Move :=
  requests.map fun (id, method, args) => .handOver id method args

/-- Requests take the slots that are free, whatever has happened before. -/
theorem inFlight_handOvers (setup : Setup) (moves : List Move) (requests : List (UInt32 × String × List Value)) :
    (Chronicle.after setup (moves ++ handOvers requests)).session.inFlight =
      min setup.maxInFlight ((Chronicle.after setup moves).session.inFlight + requests.length) := by
  induction requests using List.reverseRecOn with
  | nil =>
    have hwithin := (booked_after setup moves).within
    rw [limit_after] at hwithin
    simp only [handOvers, List.map_nil, List.append_nil, List.length_nil, Nat.add_zero]
    omega
  | append_singleton requests request ih =>
    obtain ⟨id, method, args⟩ := request
    have hmoves : moves ++ handOvers (requests ++ [(id, method, args)]) =
        (moves ++ handOvers requests) ++ [.handOver id method args] := by simp [handOvers]
    rw [hmoves, Chronicle.after_concat, List.length_append, List.length_singleton]
    show ((Chronicle.after setup (moves ++ handOvers requests)).session.move _).inFlight = _
    rw [inFlight_handOver (booked_after setup _).within, limit_after, ih]
    omega

/-! ## Every handler has its slot until it ends -/

/-- **A slot is held by each handler that was accepted and has not ended, and by nothing else.** In every history the count of a session
is the number of those handlers, and never passes the limit that the session was set up with. A message is turned away exactly when the
count is at the limit; then no handler begins and the count stays. A handler that begins takes one slot, one that ends gives back one,
whether it returns or panics, and every other move leaves the count alone. So after every history there is room for as many handlers as
the limit leaves. -/
theorem slots_are_held_until_the_end (setup : Setup) (moves : List Move) :
    let c := Chronicle.after setup moves
    c.session.inFlight = (unended c.log).length ∧ c.session.inFlight ≤ setup.maxInFlight ∧
    (∀ method role p,
      c.session.dispatch method role p =
        if c.session.inFlight = setup.maxInFlight then .error (c.session.report (.limitReached method setup.maxInFlight))
        else .ok ({ c.session with inFlight := c.session.inFlight + 1 }.spawn role p)) ∧
    (∀ m, let deeds := c.session.moveDeeds m
      let c' := c.move m
      (∀ role args, .refused role args ∈ deeds → c.session.inFlight = setup.maxInFlight ∧
        unended c'.log = unended c.log ∧ c'.session.inFlight = c.session.inFlight) ∧
      (∀ t role args, .accepted t role args ∈ deeds → c.session.inFlight < setup.maxInFlight ∧
        c'.session.inFlight = c.session.inFlight + 1) ∧
      (∀ t role exit, .finished t role exit ∈ deeds → role.handler?.isSome = true →
        c'.session.inFlight + 1 = c.session.inFlight) ∧
      (accepted deeds = [] → (∀ t role exit, .finished t role exit ∈ deeds → role.handler?.isSome = false) →
        c'.session.inFlight = c.session.inFlight)) ∧
    ∀ requests, (Chronicle.after setup (moves ++ handOvers requests)).session.inFlight =
      min setup.maxInFlight (c.session.inFlight + requests.length) := by
  intro c
  have hbooked := booked_after setup moves
  have hlimit : c.session.limit = setup.maxInFlight := limit_after setup moves
  have hwithin : c.session.inFlight ≤ setup.maxInFlight := hlimit ▸ hbooked.within
  refine ⟨hbooked.inFlight_eq (kept_after setup moves) (balanced_after setup moves), hwithin, ?_, ?_,
    inFlight_handOvers setup moves⟩
  · intro method role p
    by_cases hfull : c.session.inFlight = setup.maxInFlight
    · rw [dispatch, if_pos (by omega), if_pos hfull, hlimit]
    · rw [dispatch, if_neg (by omega), if_neg hfull]
  · intro m deeds c'
    have hbooking : Booking c.session c'.session deeds := booking_move c.session m
    have hlog : c'.log = c.log ++ deeds := rfl
    refine ⟨?_, ?_, ?_, hbooking.of_neither⟩
    · intro role args hmem
      obtain ⟨hfull, haccepted, hfinished, hsame⟩ := hbooking.of_refused hmem
      refine ⟨by omega, ?_, hsame⟩
      rw [unended, hlog, accepted_append, finished_append, haccepted, hfinished, List.append_nil, List.append_nil]
      rfl
    · intro t role args hmem
      exact hlimit ▸ hbooking.of_accepted hmem
    · intro t role exit hmem handles
      obtain ⟨haccepted, hover⟩ := hbooking.of_finished hmem handles
      have hafter : Booked c'.session (c.log ++ deeds) := by
        have hall := booked_after setup (moves ++ [m])
        rwa [Chronicle.after_concat] at hall
      have hbalance := hafter.balance
      rw [accepted_append, haccepted, List.append_nil, overCount_append, hover] at hbalance
      have hbefore : c.session.inFlight + overCount c.log = (accepted c.log).length := hbooked.balance
      omega

/-- A request for the context `x`, handed over. -/
def askFor (id : UInt32) : Move :=
  .handOver id "askContext" [.string "x", .string "=="]

/-- A context is registered that panics, and there is a request for it. -/
def asked : List Move :=
  .perform (Facade.registerContext "x" (fun _ => .panic "boom") (.finish .done)) :: List.replicate 10 .step ++ [askFor 5]

/-- Another request follows, and the handler of the first one runs until it is about to panic. -/
def panicking : List Move :=
  asked ++ askFor 6 :: List.replicate 4 .step

theorem panic_and_refusal_leave_the_room :
    let setup : Setup := { maxInFlight := 1 }
    let c := Chronicle.after setup panicking
    (Chronicle.after setup asked).session.moveDeeds (askFor 6) =
      [.refused (.request 6 "askContext") [.string "x", .string "=="],
        .link (.answer 6 (.error (Handling.noAnswer "askContext")))] ∧
    (unended ((Chronicle.after setup asked).move (askFor 6)).log).length = 1 ∧
    c.session.moveDeeds .step = [.finished 1 (.request 5 "askContext") (.panicked "boom"),
      .link (.answer 5 (.error (Handling.noAnswer "askContext")))] ∧
    (c.move .step).session.inFlight = 0 ∧
    (Chronicle.after setup (panicking ++ handOvers (List.replicate 3 (7, "askContext", [])))).session.inFlight = 1 := by
  intro setup c
  obtain ⟨hcount, -, -, hasked, -⟩ := slots_are_held_until_the_end setup asked
  obtain ⟨-, -, -, hpanics, hroom⟩ := slots_are_held_until_the_end setup panicking
  obtain ⟨hrefuses, -, -, -⟩ := hasked (askFor 6)
  obtain ⟨-, -, hends, -⟩ := hpanics .step
  obtain ⟨hnow, hrefusal, hdeeds⟩ : c.session.inFlight = 1 ∧
      (Chronicle.after setup asked).session.moveDeeds (askFor 6) =
        [.refused (.request 6 "askContext") [.string "x", .string "=="],
          .link (.answer 6 (.error (Handling.noAnswer "askContext")))] ∧
      c.session.moveDeeds .step = [.finished 1 (.request 5 "askContext") (.panicked "boom"),
        .link (.answer 5 (.error (Handling.noAnswer "askContext")))] := by
    -- one evaluation of the runs for all of it
    cbv
  obtain ⟨hfull, hsame, -⟩ := hrefuses (.request 6 "askContext") [.string "x", .string "=="] (hrefusal ▸ List.mem_cons_self)
  refine ⟨hrefusal, ?_, hdeeds, ?_, ?_⟩
  · rw [hsame, ← hcount, hfull]
  · have hfreed := hends 1 (.request 5 "askContext") (.panicked "boom") (hdeeds ▸ List.mem_cons_self) rfl
    exact Nat.succ.inj (hfreed.trans hnow)
  · rw [hroom, show (Chronicle.after setup panicking).session.inFlight = 1 from hnow]
    rfl

end EditorLink.Session
