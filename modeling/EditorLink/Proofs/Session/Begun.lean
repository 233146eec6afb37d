import EditorLink.Proofs.Session.Lasting
import EditorLink.Proofs.Session.Slots

/-!
# EditorLink.Proofs.Session.Begun -- accepted requests come to their first turn

A request that is accepted has a task from that very move on, with all of its program before it (`unbegun_of_accepted`). Nothing can be done to
that task but to give it its turn. So in every history it waits for its first turn, or there is a step with which it began.
-/

namespace EditorLink.Session

open Extension

/-- The task of a request has all of its program before it. -/
def unbegun (t : TaskId) (id : UInt32) (method : String) (args : List Value) : Task :=
  ⟨t, .request id method, .turn (Handling.request method args), []⟩

section Requests

variable {setup : Setup} {t : TaskId} {id : UInt32} {method : String} {args : List Value}

theorem mem_live_spawn (s : Session) (role : Role) (p : Program) : (⟨s.nextTask, role, .turn p, []⟩ : Task) ∈ (s.spawn role p).live :=
  (s.live_spawn role p).mem_iff.mpr List.mem_cons_self

/-- No program accepts a message. -/
theorem accepted_runDeeds (s : Session) (own : TaskId) (role : Role) (outer : List (Exit → Program)) (p : Program) :
    accepted (s.runDeeds own role outer p) = [] := by
  have hleave : ∀ exit, accepted (leaveDeeds own role exit outer) = [] := by
    intro exit
    cases outer with
    | nil => cases hreply : role.reply? exit <;> simp [leaveDeeds, hreply, accepted, Deed.accepted?]
    | cons next outer => cases outer <;> rfl
  by_cases hends : ∃ exit : Exit, p = exit.program
  · obtain ⟨exit, rfl⟩ := hends
    cases exit with
    | ended e => exact hleave (.ended e)
    | panicked text => exact hleave (.panicked text)
  · exact (s.plain_runDeeds own role outer fun exit hexit => hends ⟨exit, hexit⟩).accepted

/-- A request that is accepted when it is handed over gets its task. -/
theorem unbegun_of_requestDeeds {s : Session} {id' : UInt32} {method' : String} {args' : List Value}
    (h : .accepted t (.request id method) args ∈ s.requestDeeds id' method' args') :
    ∃ s', s.dispatchRequest id' method' args' = .ok s' ∧ unbegun t id method args ∈ s'.live := by
  unfold requestDeeds at h
  rcases s.dispatchRequest_spec id' method' args' with ⟨hfull, -⟩ | ⟨hfree, hok⟩
  · simp [hfull] at h
  · rw [if_neg hfree, List.mem_singleton, Deed.accepted.injEq, Role.request.injEq] at h
    obtain ⟨rfl, ⟨rfl, rfl⟩, rfl⟩ := h
    exact ⟨_, hok, mem_live_spawn _ _ _⟩

/-- So does one that is read. -/
theorem unbegun_of_readDeeds {s : Session} (h : .accepted t (.request id method) args ∈ s.readDeeds s.connection.receive.1) :
    unbegun t id method args ∈ s.readStep.live := by
  unfold readStep
  generalize s.connection.receive = received at h
  obtain ⟨received, connection⟩ := received
  cases received with
  | message message =>
    cases message with
    | reply id' outcome => simp [readDeeds] at h
    | notify method' args' =>
      rw [readDeeds] at h
      split at h <;> simp at h
    | request id' method' args' =>
      have hdeeds : .accepted t (.request id method) args ∈ ({ s with connection } : Session).requestDeeds id' method' args' := by
        rw [readDeeds] at h
        rcases List.mem_append.mp h with h | h
        · exact h
        · split at h <;> simp at h
      obtain ⟨s', hok, hmem⟩ := unbegun_of_requestDeeds hdeeds
      show _ ∈ (handle { s with connection } (.request id' method' args')).live
      rw [handle, hok]
      exact hmem
  | _ => simp [readDeeds] at h

/-- **A request that a move accepts has its task right after the move.** -/
theorem unbegun_of_accepted {s : Session} {m : Move} (h : .accepted t (.request id method) args ∈ s.moveDeeds m) :
    unbegun t id method args ∈ (s.move m).live := by
  have hnothing : accepted (s.moveDeeds m) ≠ [] := List.ne_nil_of_mem (mem_accepted.mpr ⟨args, h⟩)
  cases m with
  | step =>
    rw [moveDeeds, stepDeeds] at h hnothing
    rw [move, step]
    cases hfocus : s.focus with
    | reading =>
      rw [hfocus] at h
      exact unbegun_of_readDeeds h
    | writing =>
      rw [hfocus] at hnothing
      exact absurd s.plain_writeDeeds.accepted hnothing
    | running own role p outer =>
      rw [hfocus] at hnothing
      exact absurd (s.accepted_runDeeds own role outer p) hnothing
    | idle =>
      simp only [hfocus] at h
      split at h
      · simp at h
      · next turn rest _ =>
        cases turn with
        | reader =>
          rw [beginDeeds] at h
          split at h <;> simp at h
        | _ => simp [beginDeeds] at h
  | handOver id' method' args' =>
    obtain ⟨s', hok, hmem⟩ := unbegun_of_requestDeeds (s := s) h
    rw [move, hok]
    exact hmem
  | _ => simp [moveDeeds] at h

/-- **An accepted request waits for its first turn, or has had it.** -/
theorem begun_of_accepted {moves : List Move} (h : .accepted t (.request id method) args ∈ (Chronicle.after setup moves).log) :
    unbegun t id method args ∈ (Chronicle.after setup moves).session.live ∨
      ∃ before later, moves = before ++ .step :: later ∧
        (Chronicle.after setup before).session.focus = .running t (.request id method) (Handling.request method args) [] := by
  induction moves using List.reverseRecOn with
  | nil => simp at h
  | append_singleton moves m ih =>
    rw [Chronicle.after_concat] at h ⊢
    rcases List.mem_append.mp h with hold | hnew
    · rcases ih hold with waits | ⟨before, later, rfl, begins⟩
      · cases lot_move (sound_after setup moves) m waits with
        | @lasts u aside live goes =>
          cases goes with
          | same => exact Or.inl live
          | reply result waits => cases waits
          | gate waits => cases waits
        | works step due focus after =>
          subst step
          obtain rfl := Wait.turn.inj due
          exact Or.inr ⟨moves, [], rfl, focus⟩
        | @dropped tag gone found =>
          have htag := List.find?_some found
          simp [hasTag, unbegun] at htag
      · exact Or.inr ⟨before, later ++ [m], by simp, begins⟩
    · exact Or.inl (unbegun_of_accepted hnew)

end Requests

end EditorLink.Session
