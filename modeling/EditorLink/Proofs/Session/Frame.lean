import EditorLink.Session.Control
import Mathlib.Data.List.Nodup
import Mathlib.Data.List.Perm.Basic

/-!
# EditorLink.Proofs.Session.Frame -- what the parts of a step leave alone

Each part of a step is described once, as the session with a few fields changed. What happens to tasks that wait is the same
everywhere: some of them fall due, and nothing else about them changes. That is `Eased`.
-/

namespace EditorLink.Session

open Extension

/-! ## Unfinished tasks -/

/-- The task that runs. -/
def Focus.task? : Focus → Option Task
  | .running id role p outer => some ⟨id, role, .turn p, outer⟩
  | _ => none

/-- The unfinished tasks; the one that runs comes last. -/
def live (s : Session) : List Task :=
  s.tasks ++ s.focus.task?.toList

/-- Which task it is, and what it is for. -/
def Task.key (t : Task) : TaskId × Role :=
  (t.id, t.role)

theorem map_fst_key (tasks : List Task) : (tasks.map Task.key).map (·.1) = tasks.map (·.id) := by
  simp [Task.key, Function.comp_def]

/-- Of tasks with different ids, one that has the id of another is that other. -/
theorem eq_of_id_eq {tasks : List Task} (hnodup : (tasks.map (·.id)).Nodup) {t u : Task} (ht : t ∈ tasks)
    (hu : u ∈ tasks) (heq : u.id = t.id) : u = t :=
  List.inj_on_of_nodup_map hnodup hu ht heq

/-! ## Falling due -/

/-- What a task waited for may have come. -/
inductive Task.Eases (t : Task) : Task → Prop
  | same : t.Eases t
  | woken (p : Program) (waits : ∀ q, t.wait ≠ .turn q) : t.Eases { t with wait := .turn p }

theorem Task.Eases.key_eq {t u : Task} (h : t.Eases u) : u.key = t.key := by
  cases h <;> rfl

theorem Task.Eases.trans {t u v : Task} (htu : t.Eases u) (huv : u.Eases v) : t.Eases v := by
  cases huv with
  | same => exact htu
  | woken p waits =>
    cases htu with
    | same => exact .woken p waits
    | woken q _ => exact absurd rfl (waits q)

/-- The same tasks, some of which have fallen due. That they are the same is only claimed of tasks with different ids. -/
structure Eased (old new : List Task) : Prop where
  eases : ∀ u ∈ new, ∃ t ∈ old, t.Eases u
  keys : (old.map (·.id)).Nodup → (new.map Task.key).Perm (old.map Task.key)

theorem Eased.ids {old new : List Task} (h : Eased old new) (hnodup : (old.map (·.id)).Nodup) :
    (new.map (·.id)).Perm (old.map (·.id)) := by
  rw [← map_fst_key, ← map_fst_key]
  exact (h.keys hnodup).map _

theorem Eased.refl (tasks : List Task) : Eased tasks tasks :=
  ⟨fun u hu => ⟨u, hu, .same⟩, fun _ => .rfl⟩

theorem Eased.trans {a b c : List Task} (hab : Eased a b) (hbc : Eased b c) : Eased a c where
  eases := by
    intro v hv
    obtain ⟨u, hu, huv⟩ := hbc.eases v hv
    obtain ⟨t, ht, htu⟩ := hab.eases u hu
    exact ⟨t, ht, htu.trans huv⟩
  keys := by
    intro hnodup
    have hb : (b.map (·.id)).Nodup := (hab.ids hnodup).nodup_iff.mpr hnodup
    exact (hbc.keys hb).trans (hab.keys hnodup)

/-- Tasks beside those that are eased do not matter. -/
theorem Eased.append {old new : List Task} (h : Eased old new) (others : List Task) :
    Eased (old ++ others) (new ++ others) where
  eases := by
    intro u hu
    rcases List.mem_append.mp hu with hu | hu
    · obtain ⟨t, ht, htu⟩ := h.eases u hu
      exact ⟨t, List.mem_append_left _ ht, htu⟩
    · exact ⟨u, List.mem_append_right _ hu, .same⟩
  keys := by
    intro hnodup
    rw [List.map_append] at hnodup
    rw [List.map_append, List.map_append]
    exact (h.keys (List.nodup_append.mp hnodup).1).append_right _

/-- One more task falls due. -/
theorem Eased.resume {old now : List Task} (h : Eased old now) {t : Task} (ht : t ∈ old)
    (waits : ∀ q, t.wait ≠ .turn q) (p : Program) :
    Eased old (now.map fun u => if u.id = t.id then { t with wait := .turn p } else u) where
  eases := by
    intro v hv
    obtain ⟨u, hu, rfl⟩ := List.mem_map.mp hv
    by_cases hid : u.id = t.id
    · rw [if_pos hid]
      exact ⟨t, ht, .woken p waits⟩
    · rw [if_neg hid]
      exact h.eases u hu
  keys := by
    intro hnodup
    have hsame : (now.map fun u => if u.id = t.id then { t with wait := .turn p } else u).map Task.key =
        now.map Task.key := by
      rw [List.map_map]
      refine List.map_congr_left fun u hu => ?_
      by_cases hid : u.id = t.id
      · -- the task with that id is the one that was looked up
        obtain ⟨v, hv, hvu⟩ := h.eases u hu
        have hvid : v.id = t.id := (congrArg Prod.fst hvu.key_eq).symm.trans hid
        obtain rfl := eq_of_id_eq hnodup ht hv hvid
        simp only [Function.comp_apply, if_pos hid]
        exact hvu.key_eq.symm
      · simp [hid]
    rw [hsame]
    exact h.keys hnodup

/-- Taking out the tasks of an id takes out one task. -/
theorem perm_cons_filter {tasks : List Task} {t : Task} (ht : t ∈ tasks) (hnodup : (tasks.map (·.id)).Nodup) :
    tasks.Perm (t :: tasks.filter (·.id ≠ t.id)) := by
  obtain ⟨before, later, rfl⟩ := List.append_of_mem ht
  rw [List.map_append, List.map_cons, List.nodup_append, List.nodup_cons] at hnodup
  obtain ⟨-, ⟨hlater, -⟩, hbefore⟩ := hnodup
  have hothers : (before ++ t :: later).filter (·.id ≠ t.id) = before ++ later := by
    rw [List.filter_append, List.filter_cons_of_neg (by simp), List.filter_eq_self.mpr, List.filter_eq_self.mpr]
    · intro u hu
      simpa using fun heq : u.id = t.id => hlater (heq ▸ List.mem_map.mpr ⟨u, hu, rfl⟩)
    · intro u hu
      simpa using hbefore u.id (List.mem_map.mpr ⟨u, hu, rfl⟩) t.id List.mem_cons_self
  rw [hothers]
  exact List.perm_middle

/-- A task that is taken out and put at the end is the same task. -/
theorem Eased.pick {tasks : List Task} {t : Task} (ht : t ∈ tasks) :
    Eased tasks (tasks.filter (·.id ≠ t.id) ++ [t]) where
  eases := by
    intro u hu
    rcases List.mem_append.mp hu with hu | hu
    · exact ⟨u, List.mem_of_mem_filter hu, .same⟩
    · exact ⟨u, List.mem_singleton.mp hu ▸ ht, .same⟩
  keys := by
    intro hnodup
    exact (List.perm_append_comm.trans (perm_cons_filter ht hnodup).symm).map _

/-! ## Waking -/

theorem wakeReader_eq (s : Session) : s.wakeReader =
    { s with
      reader := if s.reader = .waiting then .due else s.reader
      ready := if s.reader = .waiting then s.ready ++ [.reader] else s.ready } := by
  unfold wakeReader
  split <;> rfl

theorem sending_eq (s : Session) (l : Link TaskId) : s.sending l =
    { s with
      link := l
      writerDue := true
      ready := s.ready ++ if s.writerDue then [] else [.writer] } := by
  obtain ⟨⟩ := s
  simp only [sending, wakeWriter]
  split
  · next hdue => simp only [hdue, List.append_nil]
  · rfl

/-! ## Tasks that wait -/

theorem mem_of_task? {s : Session} {id : TaskId} {t : Task} (h : s.task? id = some t) :
    t ∈ s.tasks ∧ t.id = id :=
  ⟨List.mem_of_find?_eq_some h, by simpa using List.find?_some h⟩

/-- An ended call makes at most its caller fall due. -/
theorem complete_spec (s : Session) (c : Completion TaskId) :
    ∃ tasks due, s.complete c = { s with tasks, ready := s.ready ++ due } ∧ Eased s.tasks tasks := by
  have hnobody : s = { s with tasks := s.tasks, ready := s.ready ++ [] } := by rw [List.append_nil]
  unfold complete
  cases hfind : s.task? c.call.caller with
  | none => exact ⟨s.tasks, [], hnobody, .refl _⟩
  | some t =>
    obtain ⟨hmem, -⟩ := mem_of_task? hfind
    obtain ⟨id, role, wait, outer⟩ := t
    cases wait with
    | turn p => exact ⟨s.tasks, [], hnobody, .refl _⟩
    | gate name p => exact ⟨s.tasks, [], hnobody, .refl _⟩
    | reply call release next =>
      by_cases hcall : call = c.call.id
      · simp only [if_pos hcall]
        exact ⟨_, _, rfl, (Eased.refl _).resume hmem (by simp) _⟩
      · simp only [if_neg hcall]
        exact ⟨s.tasks, [], hnobody, .refl _⟩

/-- A task falls due if it waits for this gate. -/
def wakeAt (gate : String) (s : Session) (t : Task) : Session :=
  match t.wait with
  | .gate name next => if name = gate then s.resume t next else s
  | _ => s

theorem resumeGate_eq (s : Session) (gate : String) : s.resumeGate gate = s.tasks.foldl (wakeAt gate) s :=
  rfl

/-- An opened gate makes only tasks fall due that waited for it. -/
theorem resumeGate_spec (s : Session) (gate : String) :
    ∃ tasks due, s.resumeGate gate = { s with tasks, ready := s.ready ++ due } ∧ Eased s.tasks tasks := by
  -- over the tasks still to be looked at; those resumed before have fallen due
  have hfold : ∀ (todo : List Task), (∀ t ∈ todo, t ∈ s.tasks) → ∀ tasks due, Eased s.tasks tasks →
      ∃ tasks' due', todo.foldl (wakeAt gate) { s with tasks, ready := s.ready ++ due } =
          { s with tasks := tasks', ready := s.ready ++ due' } ∧ Eased s.tasks tasks' := by
    intro todo
    induction todo with
    | nil => exact fun _ tasks due h => ⟨tasks, due, rfl, h⟩
    | cons t todo ih =>
      intro hmem tasks due h
      have htodo : ∀ u ∈ todo, u ∈ s.tasks := fun u hu => hmem u (List.mem_cons_of_mem _ hu)
      rw [List.foldl_cons, wakeAt]
      cases hwait : t.wait with
      | turn p => exact ih htodo tasks due h
      | reply id release next => exact ih htodo tasks due h
      | gate name next =>
        by_cases hname : name = gate
        · simp only [hname, if_true]
          have hnext := ih htodo _ (due ++ [.task t.id]) (h.resume (hmem t List.mem_cons_self) (by simp [hwait]) next)
          rwa [← List.append_assoc] at hnext
        · simp only [hname, if_false]
          exact ih htodo tasks due h
  have hstart := hfold s.tasks (fun _ h => h) s.tasks [] (.refl _)
  rw [List.append_nil] at hstart
  rw [resumeGate_eq]
  exact hstart

/-! ## Closing -/

/-- Closing ends the pending calls and the connection; their callers fall due. -/
theorem closeWith_spec (s : Session) (reason : TransportError) :
    ∃ tasks due journal, s.closeWith reason =
      { s with
        link := (s.link.close reason).2
        tasks
        ready := s.ready ++ due
        journal
        connection := s.connection.close
        host := { s.host with inlet := s.host.inlet.finish } } ∧ Eased s.tasks tasks := by
  -- over the calls that end; the link is closed already, and each end is reported before its caller falls due
  have hfold : ∀ (ended : List (Completion TaskId)) (link : Link TaskId) (tasks : List Task) (due : List Turn)
      (journal : Journal), Eased s.tasks tasks →
      ∃ tasks' due' journal',
        ended.foldl (fun s c => (s.report (.rejectingCall c.call.method reason)).complete c)
          { s with link, tasks, ready := s.ready ++ due, journal } =
            { s with link, tasks := tasks', ready := s.ready ++ due', journal := journal' } ∧
        Eased s.tasks tasks' := by
    intro ended
    induction ended with
    | nil => exact fun link tasks due journal h => ⟨tasks, due, journal, rfl, h⟩
    | cons c ended ih =>
      intro link tasks due journal h
      rw [List.foldl_cons]
      obtain ⟨tasks', due', hcomplete, heased⟩ :=
        complete_spec (report { s with link, tasks, ready := s.ready ++ due, journal } (.rejectingCall c.call.method reason)) c
      have hnext := ih link tasks' (due ++ due') (report { s with journal } (.rejectingCall c.call.method reason)).journal
        (h.trans heased)
      rw [← List.append_assoc] at hnext
      rw [hcomplete]
      exact hnext
  have hstart := hfold (s.link.close reason).1 (s.link.close reason).2 s.tasks [] s.journal (.refl _)
  rw [List.append_nil] at hstart
  obtain ⟨tasks, due, journal, hended, heased⟩ := hstart
  unfold closeWith
  simp only [hended]
  split
  · exact ⟨tasks, due, journal, rfl, heased⟩
  · exact ⟨tasks, due, _, rfl, heased⟩

/-- A message that is lost ends its call if it is a request. -/
theorem lose_spec (s : Session) (m : Message) (reason : TransportError) :
    ∃ tasks due journal, s.lose m reason =
      { s with link := (s.link.writeFailed m reason).2, tasks, ready := s.ready ++ due, journal } ∧ Eased s.tasks tasks := by
  unfold lose
  cases hfails : s.link.writeFailed m reason with
  | mk ended link =>
    cases ended with
    | some c =>
      obtain ⟨tasks, due, hcomplete, heased⟩ := complete_spec { s with link } c
      exact ⟨tasks, due, s.journal, hcomplete, heased⟩
    | none =>
      simp only
      split
      · exact ⟨s.tasks, [], s.journal, by rw [List.append_nil], .refl _⟩
      · exact ⟨s.tasks, [], _, by rw [List.append_nil]; rfl, .refl _⟩

/-! ## Responders -/

/-- A responder that goes away unused queues a failure, and a used one nothing. -/
theorem dropResponder_spec (s : Session) (r : Responder) :
    ∃ due journal writerDue, s.dropResponder r =
      { s with
        link := if r.replied then s.link else s.link.answer r.id (.error (Handling.noAnswer r.method))
        ready := s.ready ++ due
        journal
        writerDue } := by
  unfold dropResponder
  cases r.replied with
  | true => exact ⟨[], s.journal, s.writerDue, by rw [List.append_nil]; rfl⟩
  | false =>
    simp only [useResponder, sending_eq]
    exact ⟨_, _, _, rfl⟩

/-- The reply that the end of a handler stands for. -/
def Role.reply? : Role → Exit → Option (UInt32 × Outcome)
  | .request id _, .ended e => some (id, Handling.outcome e)
  | .request id method, .panicked _ => some (id, .error (Handling.noAnswer method))
  | _, _ => none

/-- The link after the end of a task. -/
def answered (l : Link TaskId) : Option (UInt32 × Outcome) → Link TaskId
  | some (id, outcome) => l.answer id outcome
  | none => l

/-- The end of a task queues its reply, if it is the handler of a request. -/
theorem conclude_spec (s : Session) (exit : Exit) (role : Role) :
    ∃ due journal writerDue inFlight runEnd, s.conclude exit role =
      { s with
        link := answered s.link (role.reply? exit)
        ready := s.ready ++ due
        journal
        writerDue
        inFlight
        runEnd } := by
  have hnobody : s.ready ++ [] = s.ready := List.append_nil s.ready
  cases role with
  | caller tag => exact ⟨[], _, _, _, _, by rw [hnobody]; rfl⟩
  | direct => exact ⟨[], _, _, _, _, by rw [hnobody]; rfl⟩
  | farewell result => exact ⟨[], _, _, _, _, by rw [hnobody]; rfl⟩
  | notification method =>
    cases exit with
    | ended e => exact ⟨[], _, _, _, _, by rw [hnobody]; rfl⟩
    | panicked text => exact ⟨[], _, _, _, _, by rw [hnobody]; rfl⟩
  | request id method =>
    cases exit with
    | ended e =>
      simp only [conclude, useResponder, dropResponder, sending_eq, if_true]
      exact ⟨_, _, _, _, _, rfl⟩
    | panicked text =>
      obtain ⟨due, journal, writerDue, hdrop⟩ := dropResponder_spec s { id, method }
      simp only [conclude, hdrop]
      exact ⟨_, _, _, _, _, rfl⟩

/-- A request that is handed over gets a handler, or a failure when there are too many. -/
theorem dispatchRequest_spec (s : Session) (id : UInt32) (method : String) (args : List Value) :
    (s.limit ≤ s.inFlight ∧ ∃ due journal writerDue, s.dispatchRequest id method args = .error
      { s with link := s.link.answer id (.error (Handling.noAnswer method)), ready := s.ready ++ due, journal, writerDue }) ∨
    (¬ s.limit ≤ s.inFlight ∧ s.dispatchRequest id method args = .ok
      ({ s with inFlight := s.inFlight + 1 }.spawn (.request id method) (Handling.request method args))) := by
  unfold dispatchRequest dispatch
  by_cases hfull : s.limit ≤ s.inFlight
  · obtain ⟨due, journal, writerDue, hdrop⟩ :=
      dropResponder_spec (s.report (.limitReached method s.limit)) { id, method }
    refine Or.inl ⟨hfull, due, journal, writerDue, ?_⟩
    simp only [if_pos hfull, hdrop]
    rfl
  · exact Or.inr ⟨hfull, by simp only [if_neg hfull]⟩

end EditorLink.Session
