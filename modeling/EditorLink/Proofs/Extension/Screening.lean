import EditorLink.Proofs.Extension.Dispatches
import EditorLink.Proofs.Session.Begun
import EditorLink.Proofs.Session.Order

/-!
# EditorLink.Proofs.Extension.Screening -- what filters make of a command

Before the host runs a command it asks the filters of commands. The handler makes an event of the command's name and arguments, shows it to one
filter after the other until one matches, and replies with what the event says then. The filters share the fields of the event, each of them may
wait for as long as it likes, and the session goes on meanwhile. Yet the reply is that of a fold over the filters (`screen`), in every
history in which filters do to the fields what is said of them (`ActsAs`) and nobody changes the fields while no filter is under way (`LeftAlone`).
-/

namespace EditorLink.Extension

open Registry

/-! ## Filters as functions -/

/-- What a filter makes of the fields that it is shown, and whether it matches. -/
abbrev Rewrite := Fields → Bool × Fields

/-- What filters make of fields, one after the other up to the first that matches, and whether one does. -/
def screen (effect : CodeId → Rewrite) : List CodeId → Rewrite
  | [], fields => (false, fields)
  | code :: rest, fields => if (effect code fields).1 then effect code fields else screen effect rest (effect code fields).2

variable {effect : CodeId → Rewrite} {code : CodeId} {rest : List CodeId} {fields after : Fields}

@[simp] theorem screen_nil : screen effect [] fields = (false, fields) := rfl

theorem screen_of_match (h : effect code fields = (true, after)) : screen effect (code :: rest) fields = (true, after) := by
  rw [screen, h, if_pos rfl]

theorem screen_of_pass (h : effect code fields = (false, after)) : screen effect (code :: rest) fields = screen effect rest after := by
  rw [screen, h, if_neg Bool.false_ne_true]

/-- The fields of the event that a command is made of. -/
def commandFields (name : String) (value : Value) : Fields :=
  Keyed.ofList [("name", .string name), ("args", value)]

theorem commandFields_eq (name : String) (value : Value) : commandFields name value = [("args", value), ("name", .string name)] := by
  simp [commandFields, Keyed.ofList, List.mergeSort, Keyed.keepLast, Keyed.pushUnlessHead]

namespace Handling

/-- A command that nobody has touched is told as it was. -/
theorem rewritten_commandFields (isMatch : Bool) (name : String) (value : Value) :
    rewritten isMatch (commandFields name value) = .array [.bool isMatch, .string name, value] := by
  rw [commandFields_eq]
  rfl

/-- Other fields are not told. -/
theorem rewritten_insert (isMatch : Bool) {key : String} (hname : key ≠ "name") (hargs : key ≠ "args") (value : Value) (fields : Fields) :
    rewritten isMatch (Keyed.insert key value fields) = rewritten isMatch fields := by
  rw [rewritten, rewritten, Keyed.get?_insert, Keyed.get?_insert, if_neg hname, if_neg hargs]

/-- What comes after the filters. -/
def reply (event : EventId) (isMatch : Bool) : Program :=
  .look fun w => .finish (.value (rewritten isMatch (w.eventFields event)))

end Handling
end EditorLink.Extension

namespace EditorLink.Session

open Extension Registry Walk Host

/-! ## What can be seen of filters -/

/-- Filters do what is said of them. Whatever was called with some fields in the event and has come back did not panic, and its answer and the
fields that it left are those that its effect has. -/
def ActsAs (effect : CodeId → Rewrite) (seen : List (Note × Fields)) : Prop :=
  ∀ code input before exit after, [(.called code input, before), (.returned exit, after)] <:+: seen →
    ∃ e, exit = .ended e ∧ effect code before = (e.isMatch, after)

theorem ActsAs.of_append {effect : CodeId → Rewrite} {seen more : List (Note × Fields)} (h : ActsAs effect (seen ++ more)) : ActsAs effect seen :=
  fun code input before exit after infix' => h code input before exit after (infix'.trans (List.prefix_append seen more).isInfix)

/-- The last that was called has come back. -/
theorem ActsAs.last {effect : CodeId → Rewrite} {older : List (Note × Fields)} {code : CodeId} {input : Input} {before after : Fields} {exit : Exit}
    (h : ActsAs effect (older ++ [(.called code input, before)] ++ [(.returned exit, after)])) :
    ∃ e, exit = .ended e ∧ effect code before = (e.isMatch, after) := by
  refine h code input before exit after ⟨older, [], ?_⟩
  simp

/-- What happens between two steps. -/
def Move.isAside : Move → Bool
  | .step => false
  | _ => true

/-- The filters of commands that are registered at the next step. -/
def filtersAt (setup : Setup) (base later : List Move) : List CodeId :=
  (Chronicle.after setup (base ++ later.takeWhile Move.isAside)).session.workspace.listeners.of Listeners.runCommandType

theorem ne_step_of_aside {m : Move} (h : m.isAside = true) : m ≠ .step := by
  rintro rfl
  cases h

/-- Some moves begin with what happens before the next step, and then comes that step if there is one. -/
theorem cases_on_step (later : List Move) :
    (∀ m ∈ later.takeWhile Move.isAside, m ≠ .step) ∧
      (later = later.takeWhile Move.isAside ∨ ∃ more, later = later.takeWhile Move.isAside ++ .step :: more) := by
  have hsplit : later.takeWhile Move.isAside ++ later.dropWhile Move.isAside = later := List.takeWhile_append_dropWhile
  refine ⟨fun m hm => ne_step_of_aside (List.mem_takeWhile_imp hm), ?_⟩
  cases hrest : later.dropWhile Move.isAside with
  | nil =>
    rw [hrest, List.append_nil] at hsplit
    exact Or.inl hsplit.symm
  | cons m more =>
    have hhead : m.isAside = false := by simpa [hrest] using List.head?_dropWhile_not Move.isAside later
    rw [hrest] at hsplit
    cases m with
    | step => exact Or.inr ⟨more, hsplit.symm⟩
    | _ => cases hhead

namespace Dispatch

/-- The dispatch of a handler that is asked about a command. -/
def ofCommand (t : TaskId) (id : UInt32) (event : EventId) : Dispatch :=
  ⟨t, .request id "cmdEventFilter", [], .any event (Handling.reply event)⟩

/-- The fields of the event that a dispatch shows. -/
def fields (d : Dispatch) (s : Session) : Fields :=
  s.workspace.eventFields d.walk.event

/-- What is noted of a dispatch, with the fields of the event as they are then. -/
def sights (d : Dispatch) (s : Session) (m : Move) : List (Note × Fields) :=
  (d.notes s m).map fun note => (note, d.fields s)

/-- The dispatch, and not what it has called, is at work. -/
def AtWork (d : Dispatch) (s : Session) : Prop :=
  ∃ p, s.focus = .running d.task d.role p d.outer

/-- Nobody else changes the fields of the event while the dispatch itself is at work. -/
def LeftAlone (d : Dispatch) (setup : Setup) (base moves : List Move) : Prop :=
  ∀ during m later, moves = during ++ m :: later → m ≠ .step → d.AtWork (Chronicle.after setup (base ++ during)).session →
    d.fields (Chronicle.after setup (base ++ during ++ [m])).session = d.fields (Chronicle.after setup (base ++ during)).session

/-- Where nobody gives a call up, only steps change the fields of events. -/
theorem leftAlone_of_kept {d : Dispatch} {setup : Setup} {base moves : List Move} (kept : ∀ m ∈ moves, ∀ tag, m ≠ .abandon tag) :
    d.LeftAlone setup base moves := by
  rintro during m later rfl hm -
  rw [Chronicle.after_concat]
  show d.fields ((Chronicle.after setup (base ++ during)).session.move m) = _
  cases (Chronicle.after setup (base ++ during)).session.handles_move m with
  | works step _ _ => exact absurd step hm
  | lets gone => exact absurd gone (kept m (by simp) _)
  | tends h => rw [Dispatch.fields, h.workspace]; rfl

variable {d : Dispatch} {s : Session} {m : Move}

/-- Calls and returns do not touch the workspace themselves. -/
theorem workspace_of_noted (h : d.notes s m ≠ []) : (s.move m).workspace = s.workspace := by
  cases m with
  | step =>
    cases hfocus : s.focus with
    | running id role p outer =>
      have hchange : p.change? = none := by
        cases p with
        | access change next => simp [notes, hfocus, programNotes] at h
        | ensure change next => simp [notes, hfocus, programNotes] at h
        | _ => rfl
      rw [move_of_running hfocus, workspace_runStep, hchange]
      rfl
    | _ => simp [notes, hfocus] at h
  | _ => simp [notes] at h

/-! ## The walk along the filters -/

/-- The handler is about to end with this reply. -/
def Tells (d : Dispatch) (s : Session) (v : Value) : Prop :=
  s.focus = .running d.task d.role (.finish (.value v)) d.outer

/-- How far the handler has come since it asked for the filters, by what has been seen so far: what is still to come makes of the fields that
the event has now what is to come of the whole list. -/
inductive Screens (d : Dispatch) (effect : CodeId → Rewrite) (target : Bool × Fields) (s : Session) (seen : List (Note × Fields)) : Prop
  | before {code : CodeId} {rest : List CodeId} (stands : Stands d s (.before code rest))
      (comes : screen effect (code :: rest) (d.fields s) = target) : Screens d effect target s seen
  | inside {code : CodeId} {rest : List CodeId} {older : List (Note × Fields)} {fields : Fields} (stands : Stands d s (.inside code rest))
      (last : seen = older ++ [(.called code (.event d.walk.event), fields)]) (comes : screen effect (code :: rest) fields = target) :
      Screens d effect target s seen
  | ended {isMatch : Bool} (stands : Stands d s (.ended isMatch)) (comes : (isMatch, d.fields s) = target) : Screens d effect target s seen
  | tells (tells : d.Tells s (Handling.rewritten target.1 target.2)) : Screens d effect target s seen

/-- The task of a handler is not dropped. -/
theorem not_dropped (handler : ∀ tag, d.role ≠ .caller tag) (sound : Sound s) {code : CodeId} {rest : List CodeId}
    (stands : Stands d s (.inside code rest)) : ¬ Dropped d s m := by
  cases stands with
  | @inside _ _ t inner live own role outer =>
    intro dropped
    cases dropped with
    | @intro tag f found task =>
      have hf : f ∈ s.live := List.mem_append_left _ (List.mem_of_find?_eq_some found)
      obtain rfl := sound.eq_of_id live hf (task.trans own.symm)
      have htag := List.find?_some found
      rw [hasTag, role] at htag
      cases hrole : d.role with
      | caller other => exact handler other hrole
      | _ => simp [hrole] at htag

section Handler

variable {t : TaskId} {id : UInt32} {event : EventId} {effect : CodeId → Rewrite} {target : Bool × Fields} {seen : List (Note × Fields)}

/-- A walk that has come to some filters. -/
theorem Screens.along {left : List CodeId} (stands : Stands d s (.along left)) (comes : screen effect left (d.fields s) = target) :
    Screens d effect target s seen := by
  cases left with
  | nil => exact .ended stands comes
  | cons code rest => exact .before stands comes

theorem before_step {code : CodeId} {rest : List CodeId} (stands : Stands d s (.before code rest)) :
    Stands d (s.move .step) (.inside code rest) ∧ d.notes s .step = [.called code (.event d.walk.event)] := by
  cases stands with
  | before focus =>
    rw [move_of_running focus, notes_of_running focus]
    exact ⟨.inside [] (running_mem rfl) rfl rfl rfl, if_pos rfl⟩

theorem ended_step {isMatch : Bool} (stands : Stands (ofCommand t id event) s (.ended isMatch)) :
    (ofCommand t id event).Tells (s.move .step) (Handling.rewritten isMatch ((ofCommand t id event).fields s)) := by
  cases stands with
  | ended focus =>
    rw [Tells, move_of_running focus]
    rfl

/-- Some notes are seen with the fields that the event has then. -/
theorem sights_of_notes {notes : List Note} (h : d.notes s m = notes) : d.sights s m = notes.map fun note => (note, d.fields s) := by
  rw [sights, h]

/-- A filter that is under way may come back, and then it has done what is said of it. -/
theorem Screens.inside_move {code : CodeId} {rest : List CodeId} {older : List (Note × Fields)} {fields : Fields} (sound : Sound s)
    (stands : Stands (ofCommand t id event) s (.inside code rest))
    (acts : ActsAs effect (older ++ [(.called code (.event event), fields)] ++ (ofCommand t id event).sights s m))
    (comes : screen effect (code :: rest) fields = target) :
    Screens (ofCommand t id event) effect target (s.move m)
      (older ++ [(.called code (.event event), fields)] ++ (ofCommand t id event).sights s m) := by
  rcases stands.move rfl sound m with ⟨status', stands', goes⟩ | ⟨dropped, -⟩
  · generalize hnotes : (ofCommand t id event).notes s m = notes at goes
    rw [sights_of_notes hnotes] at acts ⊢
    -- a filter that comes back leaves the fields as they are in that very move
    have hfields : notes ≠ [] → (ofCommand t id event).fields (s.move m) = (ofCommand t id event).fields s := by
      intro hsome
      rw [Dispatch.fields, workspace_of_noted (hnotes ▸ hsome)]
      rfl
    cases goes with
    | rests => exact .inside stands' (List.append_nil _) comes
    | @stops _ _ e stops =>
      obtain ⟨e', he, heffect⟩ := acts.last
      obtain rfl := Exit.ended.inj he
      rw [show e.isMatch = true from stops] at heffect
      rw [screen_of_match heffect] at comes
      exact .ended stands' (by rw [hfields (by simp)]; exact comes)
    | @passes _ _ e passes =>
      obtain ⟨e', he, heffect⟩ := acts.last
      obtain rfl := Exit.ended.inj he
      rw [show e.isMatch = false from passes] at heffect
      rw [screen_of_pass heffect] at comes
      exact .along stands' (by rw [hfields (by simp)]; exact comes)
    | panics _ _ text =>
      obtain ⟨e, he, -⟩ := acts.last
      cases he
  · exact absurd dropped (not_dropped nofun sound stands)

/-- **What one move does to a handler that asks filters**, whatever move it is. -/
theorem Screens.move (h : Screens (ofCommand t id event) effect target s seen) (sound : Sound s)
    (acts : ActsAs effect (seen ++ (ofCommand t id event).sights s m))
    (alone : m ≠ .step → (ofCommand t id event).AtWork s → (ofCommand t id event).fields (s.move m) = (ofCommand t id event).fields s) :
    Screens (ofCommand t id event) effect target (s.move m) (seen ++ (ofCommand t id event).sights s m) ∨
      m = .step ∧ (ofCommand t id event).Tells s (Handling.rewritten target.1 target.2) := by
  cases h with
  | @before code rest stands comes =>
    refine Or.inl ?_
    by_cases hm : m = .step
    · subst hm
      obtain ⟨stands', hnotes⟩ := before_step stands
      rw [sights_of_notes hnotes]
      exact .inside stands' rfl comes
    · cases stands with
      | before focus =>
        refine .before (.before ((focus_move hm).trans focus)) ?_
        rwa [alone hm ⟨_, focus⟩]
  | @inside code rest older fields stands last comes =>
    subst last
    exact Or.inl (inside_move sound stands acts comes)
  | @ended isMatch stands comes =>
    refine Or.inl ?_
    by_cases hm : m = .step
    · subst hm
      subst comes
      exact .tells (ended_step stands)
    · cases stands with
      | ended focus =>
        refine .ended (.ended ((focus_move hm).trans focus)) ?_
        rwa [alone hm ⟨_, focus⟩]
  | tells tells =>
    by_cases hm : m = .step
    · exact Or.inr ⟨hm, tells⟩
    · exact Or.inl (.tells ((focus_move hm).trans tells))

/-! ## Whole histories -/

/-- The handler has come to ask the filters of commands, and the event is as it was made. -/
structure Asks (d : Dispatch) (start : Fields) (s : Session) : Prop where
  focus : s.focus = .running d.task d.role (.any Listeners.runCommandType d.walk.event (Handling.reply d.walk.event)) d.outer
  fields : d.fields s = start

/-- In some moves after others, the handler has ended, once, and its reply to the request has this value. -/
def Replies (d : Dispatch) (id : UInt32) (v : Value) (setup : Setup) (base moves : List Move) : Prop :=
  ends (Chronicle.after setup (base ++ moves)).log d.task = [(d.task, d.role, .ended (.value v))] ∧
    ∃ during later, moves = during ++ .step :: later ∧
      let s := (Chronicle.after setup (base ++ during)).session
      (s.move .step).link = s.link.answer id (.ok v)

variable {setup : Setup} {base moves : List Move} {start : Fields}

theorem LeftAlone.of_append {more : List Move} (h : d.LeftAlone setup base (moves ++ more)) : d.LeftAlone setup base moves :=
  fun during m later split => h during m (later ++ more) (by rw [split]; simp)

theorem LeftAlone.behind {more : List Move} (h : d.LeftAlone setup base (moves ++ more)) : d.LeftAlone setup (base ++ moves) more := by
  intro during m later split
  have halone := h (moves ++ during) m later (by rw [split]; simp)
  simpa only [List.append_assoc] using halone

theorem LeftAlone.last (h : d.LeftAlone setup base (moves ++ [m])) (hm : m ≠ .step) (work : d.AtWork (Chronicle.after setup (base ++ moves)).session) :
    d.fields ((Chronicle.after setup (base ++ moves)).session.move m) = d.fields (Chronicle.after setup (base ++ moves)).session := by
  have halone := h moves m [] rfl hm work
  rwa [Chronicle.after_concat] at halone

/-- Until its next step the handler is about to ask. -/
theorem Asks.aside (h : Asks d start (Chronicle.after setup base).session) {aside : List Move} (hsteps : ∀ m ∈ aside, m ≠ .step)
    (alone : d.LeftAlone setup base aside) :
    Asks d start (Chronicle.after setup (base ++ aside)).session ∧ (Chronicle.after setup base).along d.sights aside = [] := by
  induction aside using List.reverseRecOn with
  | nil => exact ⟨by rwa [List.append_nil], rfl⟩
  | append_singleton aside m ih =>
    obtain ⟨asks, seen⟩ := ih (fun m' hm' => hsteps m' (List.mem_append_left _ hm')) alone.of_append
    have hm : m ≠ .step := hsteps m (by simp)
    rw [← List.append_assoc, Chronicle.after_concat, Chronicle.along_concat, seen, List.nil_append]
    refine ⟨⟨(focus_move hm).trans asks.focus, (alone.last hm ⟨_, asks.focus⟩).trans asks.fields⟩, ?_⟩
    exact sights_of_notes (notes_of_aside fun hstep => absurd hstep hm)

/-- The handler asks, and the walk along the filters begins. -/
theorem Asks.step (h : Asks (ofCommand t id event) start s) :
    Screens (ofCommand t id event) effect (screen effect (s.workspace.listeners.of Listeners.runCommandType) start) (s.move .step) [] ∧
      (ofCommand t id event).sights s .step = [] := by
  have hmove := move_of_running h.focus
  have hwalk : (s.move .step).focus = .running (ofCommand t id event).task (ofCommand t id event).role
      ((ofCommand t id event).walk.program (s.workspace.listeners.of Listeners.runCommandType)) (ofCommand t id event).outer := by
    rw [ofCommand, Walk.any_program, hmove]
    rfl
  have hfields : (ofCommand t id event).fields (s.move .step) = start := by
    rw [← h.fields, hmove]
    rfl
  refine ⟨.along (stands_along hwalk) (by rw [hfields]), ?_⟩
  rw [sights_of_notes (notes_of_running h.focus)]
  rfl

/-- **From the moment when the handler asks, the filters are a fold**: it is on its way to the reply that they make, or has come to it. -/
theorem screens_after (asks : Asks (ofCommand t id event) start (Chronicle.after setup base).session) (more : List Move)
    (acts : ActsAs effect ((Chronicle.after setup base).along (ofCommand t id event).sights (.step :: more)))
    (alone : (ofCommand t id event).LeftAlone setup base (.step :: more)) :
    let target := screen effect ((Chronicle.after setup base).session.workspace.listeners.of Listeners.runCommandType) start
    Screens (ofCommand t id event) effect target (Chronicle.after setup (base ++ .step :: more)).session
        ((Chronicle.after setup base).along (ofCommand t id event).sights (.step :: more)) ∨
      ∃ during later, more = during ++ .step :: later ∧
        (ofCommand t id event).Tells (Chronicle.after setup (base ++ .step :: during)).session (Handling.rewritten target.1 target.2) := by
  intro target
  induction more using List.reverseRecOn with
  | nil =>
    obtain ⟨screens, seen⟩ := asks.step
    rw [Chronicle.after_concat, Chronicle.along, Chronicle.along, seen]
    exact Or.inl screens
  | append_singleton more m ih =>
    rw [← List.cons_append] at acts alone ⊢
    rw [Chronicle.along_concat] at acts ⊢
    rw [← List.append_assoc, Chronicle.after_concat]
    rcases ih acts.of_append alone.of_append with screens | ⟨during, later, rfl, tells⟩
    · have hsession : (List.foldl Chronicle.move (Chronicle.after setup base) (.step :: more)) =
          Chronicle.after setup (base ++ .step :: more) := (Chronicle.after_append ..).symm
      rw [hsession] at acts ⊢
      rcases screens.move (sound_after setup _) acts alone.last with screens' | ⟨rfl, tells⟩
      · exact Or.inl screens'
      · exact Or.inr ⟨more, [], rfl, tells⟩
    · exact Or.inr ⟨during, later ++ [m], by simp, tells⟩

/-- The handler ends with its reply. -/
theorem Tells.link {v : Value} (h : (ofCommand t id event).Tells s v) : (s.move .step).link = s.link.answer id (.ok v) := by
  obtain ⟨due, journal, writerDue, inFlight, runEnd, hconclude⟩ :=
    conclude_spec { s with focus := .idle } (.ended (.value v)) (.request id "cmdEventFilter")
  have hmove : s.move .step = conclude { s with focus := .idle } (.ended (.value v)) (.request id "cmdEventFilter") := move_of_running h
  rw [hmove, hconclude]
  rfl

theorem replies_of_tells {v : Value} {during : List Move} (tells : (ofCommand t id event).Tells (Chronicle.after setup (base ++ during)).session v)
    (later : List Move) : (ofCommand t id event).Replies id v setup base (during ++ .step :: later) := by
  refine ⟨?_, during, later, rfl, tells.link⟩
  have hfinished : Deed.finished t (.request id "cmdEventFilter") (.ended (.value v)) ∈
      moveDeeds (Chronicle.after setup (base ++ during)).session .step := by
    rw [moveDeeds, stepDeeds, tells]
    exact List.mem_cons_self
  refine (kept_after setup _).ends_eq ?_
  rw [log_eq_told, ← List.append_assoc]
  exact mem_told hfinished later

/-- The handler has replied, or a filter that it has called has not come back. -/
def Settled (d : Dispatch) (id : UInt32) (v : Value) (setup : Setup) (base moves : List Move) : Prop :=
  d.Replies id v setup base moves ∨ ∃ code rest, Stands d (Chronicle.after setup (base ++ moves)).session (.inside code rest)

/-- With a step or two the handler comes to its end or to the next filter. -/
theorem Screens.settles (h : Screens (ofCommand t id event) effect target (Chronicle.after setup (base ++ moves)).session seen) :
    ∃ k ≤ 2, (ofCommand t id event).Settled id (Handling.rewritten target.1 target.2) setup base (moves ++ List.replicate k .step) := by
  cases h with
  | @before code rest stands comes =>
    refine ⟨1, by omega, Or.inr ⟨code, rest, ?_⟩⟩
    rw [List.replicate_one, ← List.append_assoc, Chronicle.after_concat]
    exact (before_step stands).1
  | @inside code rest older fields stands last comes =>
    refine ⟨0, by omega, Or.inr ⟨code, rest, ?_⟩⟩
    rwa [List.replicate_zero, List.append_nil]
  | @ended isMatch stands comes =>
    subst comes
    have htells : (ofCommand t id event).Tells (Chronicle.after setup (base ++ (moves ++ [.step]))).session
        (Handling.rewritten isMatch ((ofCommand t id event).fields (Chronicle.after setup (base ++ moves)).session)) := by
      rw [← List.append_assoc, Chronicle.after_concat]
      exact ended_step stands
    have hreplies := replies_of_tells htells []
    rw [List.append_assoc] at hreplies
    exact ⟨2, le_rfl, Or.inl hreplies⟩
  | tells tells => exact ⟨1, by omega, Or.inl (replies_of_tells tells [])⟩

/-- **A handler that is about to ask** replies by the fold over the filters that it finds, unless one of them keeps it waiting. -/
theorem Asks.settles (asks : Asks (ofCommand t id event) start (Chronicle.after setup base).session) (later : List Move)
    (acts : ActsAs effect ((Chronicle.after setup base).along (ofCommand t id event).sights later))
    (alone : (ofCommand t id event).LeftAlone setup base later) :
    let result := screen effect (filtersAt setup base later) start
    ∃ k ≤ 3, (ofCommand t id event).Settled id (Handling.rewritten result.1 result.2) setup base (later ++ List.replicate k .step) := by
  intro result
  obtain ⟨hsteps, hlater⟩ := cases_on_step later
  rw [show result = screen effect (filtersAt setup base later) start from rfl, filtersAt]
  generalize later.takeWhile Move.isAside = aside at hsteps hlater ⊢
  rcases hlater with rfl | ⟨more, rfl⟩
  · -- it asks with the first step that is still to come
    have screens : Screens (ofCommand t id event) effect
        (screen effect ((Chronicle.after setup (base ++ later)).session.workspace.listeners.of Listeners.runCommandType) start)
        (Chronicle.after setup (base ++ (later ++ [.step]))).session [] := by
      rw [← List.append_assoc, Chronicle.after_concat]
      exact (asks.aside hsteps alone).1.step.1
    obtain ⟨k, hk, settled⟩ := screens.settles
    rw [List.append_assoc] at settled
    exact ⟨k + 1, by omega, settled⟩
  · obtain ⟨asks', seen⟩ := asks.aside hsteps alone.of_append
    rw [Chronicle.along_append, seen, List.nil_append, ← Chronicle.after_append] at acts
    rcases screens_after asks' more acts alone.behind with screens | ⟨during, rest, rfl, tells⟩
    · rw [List.append_assoc] at screens
      obtain ⟨k, hk, settled⟩ := screens.settles
      exact ⟨k, by omega, settled⟩
    · rw [List.append_assoc] at tells
      refine ⟨0, by omega, Or.inl ?_⟩
      simpa using replies_of_tells tells rest

end Handler
end Dispatch

/-! ## Requests to filter a command -/

/-- The handler of a command makes its event and is about to ask. -/
theorem asks_of_begun {s : Session} {t : TaskId} {id : UInt32} {args : List Value} {name : String} {value : Value}
    (reads : Request.read "cmdEventFilter" args = .ok (some (.cmdEventFilter name value)))
    (focus : s.focus = .running t (.request id "cmdEventFilter") (Handling.request "cmdEventFilter" args) []) :
    (Dispatch.ofCommand t id s.workspace.nextEvent).Asks (commandFields name value) (s.move .step) := by
  rw [Handling.request, reads] at focus
  rw [move_of_running focus]
  refine ⟨rfl, ?_⟩
  show (s.workspace.addEvent (commandFields name value)).eventFields s.workspace.nextEvent = commandFields name value
  simp [Workspace.eventFields, Workspace.addEvent, Workspace.nextEvent]

/-- **Filters of commands are a fold.** A request to filter a command that is accepted waits for its first turn until it gets one. Its
handler makes an event of the name and the arguments and asks for the filters that are registered. Take any history from there on in which
filters do what is said of them and nobody changes the event between their calls. Then the handler ends with the reply that says whether a
filter matched, and the name and the arguments that all filters up to the first match have made of the command, unless a filter that it has
called has not come back; it takes three steps of its own at most. A command that no filter touches is told as it was, and other fields of the event
make no difference to what is told. -/
theorem commands_are_filtered_in_order (setup : Setup) {id : UInt32} {args : List Value} {name : String} {value : Value}
    (reads : Request.read "cmdEventFilter" args = .ok (some (.cmdEventFilter name value))) (effect : CodeId → Rewrite) :
    (∀ moves t, .accepted t (.request id "cmdEventFilter") args ∈ (Chronicle.after setup moves).log →
      unbegun t id "cmdEventFilter" args ∈ (Chronicle.after setup moves).session.live ∨
        ∃ before later, moves = before ++ .step :: later ∧ (Chronicle.after setup before).session.focus =
          .running t (.request id "cmdEventFilter") (Handling.request "cmdEventFilter" args) []) ∧
    (∀ before later t, (Chronicle.after setup before).session.focus =
        .running t (.request id "cmdEventFilter") (Handling.request "cmdEventFilter" args) [] →
      let d := Dispatch.ofCommand t id (Chronicle.after setup before).session.workspace.nextEvent
      let begun := before ++ [.step]
      let result := screen effect (filtersAt setup begun later) (commandFields name value)
      ActsAs effect ((Chronicle.after setup begun).along d.sights later) → d.LeftAlone setup begun later →
        ∃ k ≤ 3, d.Settled id (Handling.rewritten result.1 result.2) setup begun (later ++ List.replicate k .step)) ∧
    (∀ isMatch, Handling.rewritten isMatch (commandFields name value) = .array [.bool isMatch, .string name, value]) ∧
    ∀ isMatch key v fields, key ≠ "name" → key ≠ "args" →
      Handling.rewritten isMatch (Keyed.insert key v fields) = Handling.rewritten isMatch fields := by
  refine ⟨fun moves t accepted => begun_of_accepted accepted, ?_, fun isMatch => Handling.rewritten_commandFields isMatch name value,
    fun isMatch key v fields hname hargs => Handling.rewritten_insert isMatch hname hargs v fields⟩
  intro before later t focus d begun result acts alone
  have asks : d.Asks (commandFields name value) (Chronicle.after setup begun).session := by
    rw [Chronicle.after_concat]
    exact asks_of_begun reads focus
  exact asks.settles later acts alone

/-- A filter that waits, gives the command another name and does not match. -/
def renamer : Input → Program
  | .event e => .await "g" <| .change (Workspace.setField e "name" (.string "saveAll")) <| .finish (.value (.bool false))
  | _ => .finish .done

/-- A filter that makes a note in the event and matches. -/
def noter : Input → Program
  | .event e => .change (Workspace.setField e "note" (.bool true)) <| .finish (.value (.bool true))
  | _ => .finish .done

/-- What these two do to an event. -/
def effects : CodeId → Rewrite
  | 0, fields => (false, Keyed.insert "name" (.string "saveAll") fields)
  | _, fields => (true, Keyed.insert "note" (.bool true) fields)

/-- Three filters are registered, the last of which is never called, and a request arrives and has its first turn. -/
def saving : List Move :=
  .callFacade "x" (Facade.on "runCommand" "a" renamer <| Facade.on "runCommand" "b" noter <|
      Facade.on "runCommand" "c" (fun _ => .panic "no") <| .finish .done) ::
    List.replicate 16 .step ++ [.handOver 7 "cmdEventFilter" [.string "save"], .step]

/-- The first filter waits while another one is registered. -/
def saved : List Move :=
  List.replicate 3 .step ++ [.callFacade "y" (Facade.on "runCommand" "d" renamer (.finish .done))] ++ List.replicate 6 .step ++ [.openGate "g"] ++
    List.replicate 8 .step

theorem renamed_command_is_told :
    Request.read "cmdEventFilter" [.string "save"] = .ok (some (.cmdEventFilter "save" .null)) ∧
    (Chronicle.after {} saving).session.focus = .running 1 (.request 7 "cmdEventFilter") (Handling.request "cmdEventFilter" [.string "save"]) [] ∧
    ∃ k ≤ 3, (Dispatch.ofCommand 1 7 0).Settled 7 (.array [.bool true, .string "saveAll", .null]) {} (saving ++ [.step])
      (saved ++ List.replicate k .step) := by
  have hreads : Request.read "cmdEventFilter" [.string "save"] = .ok (some (.cmdEventFilter "save" .null)) := rfl
  have hfocus : (Chronicle.after {} saving).session.focus =
      .running 1 (.request 7 "cmdEventFilter") (Handling.request "cmdEventFilter" [.string "save"]) [] := rfl
  let named : Fields := Keyed.insert "name" (.string "saveAll") (commandFields "save" .null)
  have hseen : (Chronicle.after {} (saving ++ [.step])).along (Dispatch.ofCommand 1 7 0).sights saved =
      [(.called 0 (.event 0), commandFields "save" .null), (.returned (.ended (.value (.bool false))), named),
        (.called 1 (.event 0), named), (.returned (.ended (.value (.bool true))), Keyed.insert "note" (.bool true) named)] := rfl
  have hacts : ActsAs effects ((Chronicle.after {} (saving ++ [.step])).along (Dispatch.ofCommand 1 7 0).sights saved) := by
    rw [hseen]
    intro code input before exit after h
    simp only [List.infix_cons_iff, List.cons_prefix_cons, List.nil_prefix, List.infix_nil, List.prefix_nil, Prod.mk.injEq, Note.called.injEq,
      Note.returned.injEq, reduceCtorEq, List.cons_ne_nil, and_true, and_false, false_and, or_false, false_or] at h
    rcases h with ⟨⟨⟨rfl, -⟩, rfl⟩, rfl, rfl⟩ | ⟨⟨⟨rfl, -⟩, rfl⟩, rfl, rfl⟩
    · exact ⟨_, rfl, rfl⟩
    · exact ⟨_, rfl, rfl⟩
  have halone : (Dispatch.ofCommand 1 7 0).LeftAlone {} (saving ++ [.step]) saved := Dispatch.leftAlone_of_kept (by simp [saved])
  have hfilters : filtersAt {} (saving ++ [.step]) saved = [0, 1, 2] := rfl
  have hreply : screen effects (filtersAt {} (saving ++ [.step]) saved) (commandFields "save" .null) = (true, Keyed.insert "note" (.bool true) named) := by
    rw [hfilters]
    rfl
  obtain ⟨-, hsettles, -⟩ := commands_are_filtered_in_order {} hreads effects
  have hsettled := hsettles saving saved 1 hfocus hacts halone
  have htold : Handling.rewritten true (Keyed.insert "note" (.bool true) named) = .array [.bool true, .string "saveAll", .null] := by
    rw [Handling.rewritten_insert true (by decide) (by decide), Handling.rewritten, Keyed.get?_insert, Keyed.get?_insert, commandFields_eq]
    rfl
  rw [hreply, htold] at hsettled
  exact ⟨hreads, hfocus, hsettled⟩

end EditorLink.Session
