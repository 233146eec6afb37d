import EditorLink.Proofs.Session.Turns
import EditorLink.Proofs.Session.Verdict

/-!
# EditorLink.Proofs.Session.Order -- arrival order is effect order

Handlers get ids in the order in which their messages arrive, and their first turns stand on the agenda in that order (`InTurn`). So they
begin in that order; and one that never waits has ended before a later one begins, whatever else waits or goes on meanwhile. What programs
do they do in their turns only. So the effects of a handler that does not wait all come before those of later ones, its reply among them.
-/

namespace EditorLink.Session

open Extension

/-! ## Work -/

/-- A program does one thing, in the turn of its task. -/
structure Work where
  task : TaskId
  /-- The session as it is before. -/
  before : Session

namespace Work

/-- The session as it is afterwards. -/
def after (w : Work) : Session :=
  w.before.move .step

def deeds (w : Work) : List Deed :=
  w.before.stepDeeds

end Work

/-- What a program does in a move. -/
def work? (s : Session) (m : Move) : Option Work :=
  (s.worker? m).map fun t => ⟨t, s⟩

/-- All that programs did, first things first. -/
def work (setup : Setup) (moves : List Move) : List Work :=
  told (fun s m => (s.work? m).toList) setup moves

/-- The tasks that did it. -/
def workers (setup : Setup) (moves : List Move) : List TaskId :=
  (work setup moves).map (·.task)

theorem work_concat (setup : Setup) (moves : List Move) (m : Move) :
    work setup (moves ++ [m]) = work setup moves ++ ((Chronicle.after setup moves).session.work? m).toList :=
  told_concat _ setup moves m

theorem workers_concat (setup : Setup) (moves : List Move) (m : Move) :
    workers setup (moves ++ [m]) = workers setup moves ++ ((Chronicle.after setup moves).session.worker? m).toList := by
  rw [workers, work_concat, List.map_append, work?]
  cases (Chronicle.after setup moves).session.worker? m <;> rfl

/-! ## Arrival -/

/-- The handlers in the order in which their messages arrived. -/
def arrivals (log : List Deed) : List TaskId :=
  (accepted log).map (·.1)

theorem arrivals_append (log more : List Deed) : arrivals (log ++ more) = arrivals log ++ arrivals more := by
  simp [arrivals]

theorem Kept.arrivals_lt {s : Session} {log : List Deed} (h : Kept s log) : ∀ t ∈ arrivals log, t < s.nextTask := by
  intro t ht
  obtain ⟨⟨u, role⟩, hu, rfl⟩ := List.mem_map.mp ht
  obtain ⟨args, hmem⟩ := mem_accepted.mp hu
  exact h.named _ hmem u rfl

/-- The record tells of the deeds of all moves. -/
theorem log_eq_told (setup : Setup) (moves : List Move) : (Chronicle.after setup moves).log = told moveDeeds setup moves := by
  induction moves using List.reverseRecOn with
  | nil => rfl
  | append_singleton moves m ih =>
    rw [Chronicle.after_concat, told_concat, ← ih]
    rfl

/-- A handler that has arrived is unfinished or has finished. -/
theorem Balanced.arrival {s : Session} {log : List Deed} (kept : Kept s log) (h : Balanced s log) {t : TaskId}
    (ht : t ∈ arrivals log) : (∃ u ∈ s.live, u.id = t) ∨ ∃ f ∈ finished log, f.1 = t := by
  obtain ⟨⟨u, role⟩, hu, rfl⟩ := List.mem_map.mp ht
  obtain ⟨args, hmem⟩ := mem_accepted.mp hu
  rcases h.standing kept hmem with ⟨⟨v, hv, hid, -⟩, -⟩ | ⟨-, exit, hends⟩
  · exact Or.inl ⟨v, hv, hid⟩
  · have hend : (u, role, exit) ∈ ends log u := hends ▸ List.mem_singleton_self _
    exact Or.inr ⟨_, List.mem_of_mem_filter hend, rfl⟩

/-! ## One move -/

section Turnover

variable {s s' : Session} {worker : Option TaskId} {deeds : List Deed}

theorem Turnover.running (h : Turnover s s' worker deeds) : ∀ t ∈ worker, s.running? = some t := by
  cases h with
  | goesOn _ _ _ _ works _ => exact works
  | givesWay running _ _ _ _ _ => exact fun t ht => Option.some.inj ht ▸ running
  | _ => simp

theorem Turnover.next_le (h : Turnover s s' worker deeds) : s.nextTask ≤ s'.nextTask := by
  cases h with
  | goesOn _ _ _ next _ _ => exact next.ge
  | born _ _ next _ _ => exact next ▸ Nat.le_succ _
  | leads _ _ _ next _ _ => exact next ▸ Nat.le_succ _
  | skips _ _ _ _ next => exact next.ge
  | givesWay _ _ _ next _ _ => exact next.ge

/-- A handler that arrives has the next id, and nobody works then. -/
theorem Turnover.arrives (h : Turnover s s' worker deeds) :
    arrivals deeds = [] ∨
    arrivals deeds = [s.nextTask] ∧ worker = none ∧ s'.agenda = s.agenda ++ [s.nextTask] ∧ s'.nextTask = s.nextTask + 1 := by
  cases h with
  | goesOn _ _ _ _ _ steady => exact Or.inl (by rw [arrivals, steady.accepted]; rfl)
  | born agenda _ next accepts _ =>
    rcases List.sublist_singleton.mp accepts with hnone | hone
    · exact Or.inl hnone
    · exact Or.inr ⟨hone, rfl, agenda, next⟩
  | leads _ _ _ _ _ steady => exact Or.inl (by rw [arrivals, steady.accepted]; rfl)
  | skips _ _ _ _ _ => exact Or.inl rfl
  | givesWay _ _ _ _ accepted _ => exact Or.inl (by rw [arrivals, accepted]; rfl)

/-- Only a new id arrives. -/
theorem Turnover.arrived_before {log : List Deed} (h : Turnover s s' worker deeds) {t : TaskId}
    (ht : t ∈ arrivals (log ++ deeds)) (hlt : t < s.nextTask) : t ∈ arrivals log := by
  rw [arrivals_append] at ht
  rcases List.mem_append.mp ht with ht | ht
  · exact ht
  · rcases h.arrives with hnone | ⟨hone, -⟩
    · simp [hnone] at ht
    · rw [hone, List.mem_singleton] at ht
      exact absurd ht (Nat.ne_of_lt hlt)

/-- A task that ends is the one that works. -/
theorem Turnover.ends (h : Turnover s s' worker deeds) : ∀ f ∈ finished deeds, worker = some f.1 := by
  intro f hf
  cases h with
  | goesOn _ _ _ _ _ steady => simp [steady.finished] at hf
  | born _ _ _ _ finished => simp [finished] at hf
  | leads _ _ _ _ _ steady => simp [steady.finished] at hf
  | skips _ _ _ _ _ => cases hf
  | @givesWay t _ _ _ _ _ _ ends =>
    have hmem := ends.subset (List.mem_map.mpr ⟨f, hf, rfl⟩)
    exact congrArg some (List.mem_singleton.mp hmem).symm

/-- A task that waits has waited before, or has just worked. -/
theorem Turnover.waiting (h : Turnover s s' worker deeds) : ∀ u ∈ s'.tasks, u.Waits → u ∈ s.tasks ∨ worker = some u.id := by
  have heased : ∀ u : Task, (∃ t ∈ s.tasks, t.Eases u) → u.Waits → u ∈ s.tasks := by
    rintro u ⟨t, ht, heases⟩ hwaits
    exact heases.waits hwaits ▸ ht
  intro u hu hwaits
  cases h with
  | goesOn _ _ tasks _ _ _ => exact Or.inl (heased u (tasks u hu) hwaits)
  | born _ tasks _ _ _ => exact (tasks u hu).imp (heased u · hwaits) fun hnew => absurd hwaits hnew.2
  | leads _ _ tasks _ _ _ => exact Or.inl (heased u (tasks u hu) hwaits)
  | skips _ _ _ tasks _ => exact Or.inl (tasks ▸ hu)
  | givesWay _ _ tasks _ _ _ => exact (tasks u hu).imp id fun hown => congrArg some hown.1.symm

end Turnover

/-! ## The order of arrival -/

/-- What is said of every place in a list is said of the places before the last one and of the last one. -/
theorem split_concat {α : Type} {list earlier later : List α} {x u : α} (h : list ++ [x] = earlier ++ u :: later) :
    (list = earlier ∧ x = u ∧ later = []) ∨ ∃ rest, list = earlier ++ u :: rest ∧ later = rest ++ [x] := by
  rcases List.eq_nil_or_concat' later with rfl | ⟨rest, y, rfl⟩
  · obtain ⟨hlist, hlast⟩ := List.append_inj' h rfl
    exact Or.inl ⟨hlist, List.head_eq_of_cons_eq hlast, rfl⟩
  · rw [← List.cons_append, ← List.append_assoc] at h
    obtain ⟨hlist, hlast⟩ := List.append_inj' h rfl
    obtain rfl := List.head_eq_of_cons_eq hlast
    exact Or.inr ⟨rest, hlist, rfl⟩

/-- Handlers that have not worked yet have their turns in the order of their arrival, and each works first after all that arrived before. -/
structure InTurn (s : Session) (log : List Deed) (workers : List TaskId) : Prop where
  due : ∀ t ∈ s.agenda, t < s.nextTask
  below : ∀ t ∈ workers, t < s.nextTask
  waited : ∀ u ∈ s.tasks, u.Waits → u.id ∈ workers
  ended : ∀ f ∈ finished log, f.1 ∈ workers
  sorted : (arrivals log).Pairwise (· < ·)
  fresh : s.agenda.filter (fun t => t ∈ arrivals log ∧ t ∉ workers) = (arrivals log).filter (· ∉ workers)
  firsts : ∀ t ∈ arrivals log, ∀ u ∈ arrivals log, t < u → ∀ earlier later, workers = earlier ++ u :: later → t ∈ earlier

namespace InTurn

variable {s s' : Session} {log deeds : List Deed} {workers : List TaskId} {worker : Option TaskId}

/-- A turn that is passed over is not that of a handler that has not worked yet. -/
theorem stale (h : InTurn s log workers) (kept : Kept s log) (balanced : Balanced s log) {id : TaskId} (idle : s.focus = .idle)
    (stale : ∀ t, s.task? id = some t → t.Waits) (harrived : id ∈ arrivals log) : id ∈ workers := by
  rcases balanced.arrival kept harrived with ⟨u, hu, hid⟩ | ⟨f, hf, hid⟩
  · have htasks : u ∈ s.tasks := by simpa [live, idle, Focus.task?] using hu
    have hfound : (s.task? id).isSome = true := List.find?_isSome.mpr ⟨u, htasks, decide_eq_true hid⟩
    obtain ⟨v, hv⟩ := Option.isSome_iff_exists.mp hfound
    obtain ⟨hmem, rfl⟩ := mem_of_task? hv
    exact h.waited v hmem (stale v hv)
  · exact hid ▸ h.ended f hf

theorem due_move (h : InTurn s log workers) (kept : Kept s log) (turnover : Turnover s s' worker deeds) :
    ∀ t ∈ s'.agenda, t < s'.nextTask := by
  have hwoken : ∀ id, (∃ t ∈ s.tasks, t.id = id ∧ t.Waits) → id < s.nextTask := by
    rintro _ ⟨t, ht, rfl, -⟩
    exact kept.fresh t (List.mem_append_left _ ht)
  intro t ht
  cases turnover with
  | goesOn agenda woken _ next _ _ =>
    rw [agenda] at ht
    rw [next]
    exact (List.mem_append.mp ht).elim (h.due t) fun ht => hwoken t (woken t ht)
  | born agenda _ next _ _ =>
    rw [agenda] at ht
    rw [next]
    rcases List.mem_append.mp ht with ht | ht
    · exact Nat.lt_succ_of_lt (h.due t ht)
    · exact List.mem_singleton.mp ht ▸ Nat.lt_succ_self _
  | leads agenda woken _ next _ _ =>
    rw [agenda] at ht
    rw [next]
    rcases List.mem_cons.mp ht with rfl | ht
    · exact Nat.lt_succ_self _
    · exact Nat.lt_succ_of_lt ((List.mem_append.mp ht).elim (h.due t) fun ht => hwoken t (woken t ht))
  | skips agenda _ _ _ next =>
    rw [next]
    exact h.due t (agenda ▸ List.mem_cons_of_mem _ ht)
  | givesWay _ agenda _ next _ _ =>
    rw [next]
    exact h.due t (agenda ▸ List.mem_cons_of_mem _ ht)

theorem running_lt (h : InTurn s log workers) {t : TaskId} (running : s.running? = some t) : t < s.nextTask :=
  h.due t (by rw [agenda, running]; exact List.mem_cons_self)

/-- Whoever works now was there before. -/
theorem worked_lt (h : InTurn s log workers) (turnover : Turnover s s' worker deeds) :
    ∀ t ∈ workers ++ worker.toList, t < s.nextTask := by
  intro t ht
  rcases List.mem_append.mp ht with ht | ht
  · exact h.below t ht
  · exact h.running_lt (turnover.running t (Option.mem_toList.mp ht))

/-- The agenda changes only in tasks that are no handlers, or have worked. -/
theorem filter_agenda (h : InTurn s log workers) (kept : Kept s log) (balanced : Balanced s log)
    (turnover : Turnover s s' worker deeds) (hnone : arrivals deeds = []) :
    s'.agenda.filter (fun t => t ∈ arrivals log ∧ t ∉ workers ++ worker.toList) =
      s.agenda.filter (fun t => t ∈ arrivals log ∧ t ∉ workers ++ worker.toList) := by
  have hnew : s.nextTask ∉ arrivals log := fun hmem => Nat.lt_irrefl _ (kept.arrivals_lt _ hmem)
  have hwoken : ∀ due : List TaskId, (∀ id ∈ due, ∃ t ∈ s.tasks, t.id = id ∧ t.Waits) →
      due.filter (fun t => t ∈ arrivals log ∧ t ∉ workers ++ worker.toList) = [] := by
    intro due woken
    refine List.filter_eq_nil_iff.mpr fun id hid => ?_
    obtain ⟨t, ht, rfl, hwaits⟩ := woken id hid
    simp [h.waited t ht hwaits]
  cases turnover with
  | goesOn agenda woken _ _ _ _ => rw [agenda, List.filter_append, hwoken _ woken, List.append_nil]
  | born agenda _ _ _ _ => rw [agenda, List.filter_append, List.filter_singleton]; simp [hnew]
  | leads agenda woken _ _ _ _ =>
    rw [agenda, List.filter_cons_of_neg (by simp [hnew]), List.filter_append, hwoken _ woken, List.append_nil]
  | @skips id agenda idle stale _ _ =>
    rw [agenda, List.filter_cons_of_neg]
    simpa using h.stale kept balanced idle stale
  | givesWay _ agenda _ _ _ _ => rw [agenda, List.filter_cons_of_neg (by simp)]

theorem fresh_move (h : InTurn s log workers) (kept : Kept s log) (balanced : Balanced s log)
    (turnover : Turnover s s' worker deeds) :
    s'.agenda.filter (fun t => t ∈ arrivals (log ++ deeds) ∧ t ∉ workers ++ worker.toList) =
      (arrivals (log ++ deeds)).filter (· ∉ workers ++ worker.toList) := by
  rw [arrivals_append]
  rcases turnover.arrives with hnone | ⟨hone, hnobody, hagenda, -⟩
  · -- whoever works now is left out on both sides
    have hagenda : s.agenda.filter (fun t => t ∈ arrivals log ∧ t ∉ workers ++ worker.toList) =
        (s.agenda.filter fun t => t ∈ arrivals log ∧ t ∉ workers).filter (· ∉ worker.toList) := by
      rw [List.filter_filter]
      refine List.filter_congr fun t _ => ?_
      by_cases harrived : t ∈ arrivals log <;> simp [harrived, Bool.and_comm]
    have harrivals : (arrivals log).filter (· ∉ workers ++ worker.toList) =
        ((arrivals log).filter (· ∉ workers)).filter (· ∉ worker.toList) := by
      rw [List.filter_filter]
      exact List.filter_congr fun t _ => by simp [Bool.and_comm]
    rw [hnone, List.append_nil, h.filter_agenda kept balanced turnover hnone, hagenda, h.fresh, harrivals]
  · -- the new handler stands last on both sides
    have hnew : s.nextTask ∉ workers := fun hmem => Nat.lt_irrefl _ (h.below _ hmem)
    have hold : s.agenda.filter (fun t => t ∈ arrivals log ++ [s.nextTask] ∧ t ∉ workers) =
        s.agenda.filter fun t => t ∈ arrivals log ∧ t ∉ workers := by
      refine List.filter_congr fun t ht => ?_
      have hne : t ≠ s.nextTask := Nat.ne_of_lt (h.due t ht)
      simp [hne]
    rw [hnobody, Option.toList_none, List.append_nil, hone, hagenda, List.filter_append, List.filter_append, hold, h.fresh]
    simp [hnew]

/-- Whoever works has been preceded by all handlers that arrived before. -/
theorem preceded (h : InTurn s log workers) {t u : TaskId} (ht : t ∈ arrivals log) (hu : u ∈ arrivals log) (hlt : t < u)
    (running : s.running? = some u) : t ∈ workers := by
  by_cases hworked : u ∈ workers
  · obtain ⟨earlier, later, hsplit⟩ := List.append_of_mem hworked
    have hmem := h.firsts t ht u hu hlt earlier later hsplit
    exact hsplit ▸ List.mem_append_left _ hmem
  · -- it is the first of those that have not worked, which stand in order
    by_contra hfresh
    have hagenda : s.agenda = u :: s.comingUp := by rw [agenda, running]; rfl
    have hfirst := h.fresh
    rw [hagenda, List.filter_cons_of_pos (by simp [hu, hworked])] at hfirst
    have hsorted : ((arrivals log).filter (· ∉ workers)).Pairwise (· < ·) := h.sorted.filter _
    have hmem : t ∈ (arrivals log).filter (· ∉ workers) := List.mem_filter.mpr ⟨ht, by simpa using hfresh⟩
    rw [← hfirst] at hsorted hmem
    rcases List.mem_cons.mp hmem with rfl | hmem
    · exact Nat.lt_irrefl _ hlt
    · exact Nat.lt_asymm hlt ((List.pairwise_cons.mp hsorted).1 t hmem)

theorem firsts_move (h : InTurn s log workers) (turnover : Turnover s s' worker deeds) :
    ∀ t ∈ arrivals (log ++ deeds), ∀ u ∈ arrivals (log ++ deeds), t < u →
      ∀ earlier later, workers ++ worker.toList = earlier ++ u :: later → t ∈ earlier := by
  intro t ht u hu hlt earlier later hsplit
  have hworked : u < s.nextTask := h.worked_lt turnover u (hsplit ▸ List.mem_append_right _ List.mem_cons_self)
  replace ht := turnover.arrived_before ht (Nat.lt_trans hlt hworked)
  replace hu := turnover.arrived_before hu hworked
  cases worker with
  | none =>
    rw [Option.toList_none, List.append_nil] at hsplit
    exact h.firsts t ht u hu hlt earlier later hsplit
  | some x =>
    rcases split_concat hsplit with ⟨rfl, rfl, -⟩ | ⟨rest, hrest, -⟩
    · exact h.preceded ht hu hlt (turnover.running _ rfl)
    · exact h.firsts t ht u hu hlt earlier rest hrest

/-- Ids tell who arrived first. -/
theorem precedes (h : InTurn s log workers) {t u : TaskId} (first : [t, u].Sublist (arrivals log)) :
    t ∈ arrivals log ∧ u ∈ arrivals log ∧ t < u := by
  have hmem : ∀ v ∈ [t, u], v ∈ arrivals log := fun v hv => first.subset hv
  refine ⟨hmem t (by simp), hmem u (by simp), ?_⟩
  exact List.rel_of_pairwise_cons (h.sorted.sublist first) (List.mem_singleton_self u)

/-- A move keeps handlers in turn. -/
theorem move (h : InTurn s log workers) (kept : Kept s log) (balanced : Balanced s log) (turnover : Turnover s s' worker deeds) :
    InTurn s' (log ++ deeds) (workers ++ worker.toList) where
  due := h.due_move kept turnover
  below := fun t ht => Nat.lt_of_lt_of_le (h.worked_lt turnover t ht) turnover.next_le
  waited := by
    intro u hu hwaits
    rcases turnover.waiting u hu hwaits with hold | hown
    · exact List.mem_append_left _ (h.waited u hold hwaits)
    · exact List.mem_append_right _ (by simp [hown])
  ended := by
    intro f hf
    rw [finished_append] at hf
    rcases List.mem_append.mp hf with hf | hf
    · exact List.mem_append_left _ (h.ended f hf)
    · exact List.mem_append_right _ (by simp [turnover.ends f hf])
  sorted := by
    rw [arrivals_append]
    rcases turnover.arrives with hnone | ⟨hone, -⟩
    · rw [hnone, List.append_nil]
      exact h.sorted
    · rw [hone]
      refine List.pairwise_append.mpr ⟨h.sorted, List.pairwise_singleton _ _, ?_⟩
      intro t ht u hu
      exact List.mem_singleton.mp hu ▸ kept.arrivals_lt t ht
  fresh := h.fresh_move kept balanced turnover
  firsts := h.firsts_move turnover

end InTurn

/-- Turns are taken in the order in which they fell due. -/
def FirstInFirstOut (moves : List Move) : Prop :=
  ∀ turns, .reorder turns ∉ moves

theorem FirstInFirstOut.front {moves : List Move} {m : Move} (h : FirstInFirstOut (moves ++ [m])) : FirstInFirstOut moves :=
  fun turns hmem => h turns (List.mem_append_left _ hmem)

theorem FirstInFirstOut.turnover {moves : List Move} {m : Move} (h : FirstInFirstOut (moves ++ [m])) (s : Session) :
    Turnover s (s.move m) (s.worker? m) (s.moveDeeds m) :=
  turnover_move s fun turns heq => h turns (heq ▸ List.mem_append_right _ List.mem_cons_self)

theorem inTurn_after (setup : Setup) {moves : List Move} (fifo : FirstInFirstOut moves) :
    InTurn (Chronicle.after setup moves).session (Chronicle.after setup moves).log (workers setup moves) := by
  induction moves using List.reverseRecOn with
  | nil =>
    refine ⟨?_, ?_, ?_, ?_, .nil, rfl, ?_⟩
    all_goals simp [workers, work, agenda, running?, comingUp, ofSetup, Focus.task?, Turn.task?, finished, arrivals, accepted]
  | append_singleton moves m ih =>
    rw [Chronicle.after_concat, workers_concat]
    exact (ih fifo.front).move (kept_after setup moves) (balanced_after setup moves) (fifo.turnover _)

/-! ## Handlers that never wait -/

/-- The task waits for nothing but its turn, all along a history. -/
def NeverWaits (setup : Setup) (moves : List Move) (t : TaskId) : Prop :=
  ∀ before, before <+: moves → t ∉ (Chronicle.after setup before).session.waiting

theorem NeverWaits.front {setup : Setup} {moves : List Move} {m : Move} {t : TaskId}
    (h : NeverWaits setup (moves ++ [m]) t) : NeverWaits setup moves t :=
  fun before hbefore => h before (hbefore.trans (List.prefix_append _ _))

/-- It is enough to look at the session before each move and at the end. -/
theorem neverWaits_of_told {setup : Setup} {moves : List Move} {t : TaskId} (along : t ∉ told (fun s _ => s.waiting) setup moves)
    (last : t ∉ (Chronicle.after setup moves).session.waiting) : NeverWaits setup moves t := by
  rintro before ⟨later, rfl⟩ hwaits
  cases later with
  | nil => exact last (by rwa [List.append_nil])
  | cons m later => exact along (mem_told hwaits later)

/-- A task among those that do not run was among them before, or is new, or has just come to wait. -/
theorem Turnover.tasks {s s' : Session} {worker : Option TaskId} {deeds : List Deed} (h : Turnover s s' worker deeds) :
    ∀ u ∈ s'.tasks, (∃ v ∈ s.tasks, v.id = u.id) ∨ u.id = s.nextTask ∨ u.Waits ∧ worker = some u.id := by
  have heased : ∀ u : Task, (∃ t ∈ s.tasks, t.Eases u) → ∃ v ∈ s.tasks, v.id = u.id := by
    rintro u ⟨t, ht, heases⟩
    exact ⟨t, ht, (congrArg Prod.fst heases.key_eq).symm⟩
  intro u hu
  cases h with
  | goesOn _ _ tasks _ _ _ => exact Or.inl (heased u (tasks u hu))
  | born _ tasks _ _ _ => exact (tasks u hu).imp (heased u) fun hnew => Or.inl hnew.1
  | leads _ _ tasks _ _ _ => exact Or.inl (heased u (tasks u hu))
  | skips _ _ _ tasks _ => exact Or.inl ⟨u, tasks ▸ hu, rfl⟩
  | givesWay _ _ tasks _ _ _ => exact (tasks u hu).imp (⟨u, ·, rfl⟩) fun hown => Or.inr ⟨hown.2, congrArg some hown.1.symm⟩

/-- The task that runs is not among the others. -/
theorem Kept.running {s : Session} {log : List Deed} (h : Kept s log) {t : TaskId} (running : s.running? = some t) :
    ∀ u ∈ s.tasks, u.id ≠ t := by
  obtain ⟨v, hv, rfl⟩ := Option.map_eq_some_iff.mp running
  have hnodup := h.live_nodup
  rw [live, hv, List.map_append, List.nodup_append] at hnodup
  exact fun u hu => hnodup.2.2 u.id (List.mem_map.mpr ⟨u, hu, rfl⟩) v.id List.mem_cons_self

/-- What has ended does nothing any more. -/
theorem Kept.running_ne {s : Session} {log : List Deed} (h : Kept s log) {f : TaskId × Role × Exit} (hf : f ∈ finished log)
    {t : TaskId} (running : s.running? = some t) : t ≠ f.1 := by
  obtain ⟨own, hlive, rfl⟩ := Option.map_eq_some_iff.mp running
  exact h.over (mem_finished.mp hf) own (List.mem_append_right _ (Option.mem_toList.mpr hlive))

/-- Once it has worked, a task that never waits is running or gone. -/
theorem NeverWaits.not_mem_tasks {setup : Setup} {moves : List Move} (fifo : FirstInFirstOut moves) {t : TaskId}
    (h : NeverWaits setup moves t) (worked : t ∈ workers setup moves) :
    ∀ u ∈ (Chronicle.after setup moves).session.tasks, u.id ≠ t := by
  induction moves using List.reverseRecOn with
  | nil => exact absurd worked List.not_mem_nil
  | append_singleton moves m ih =>
    have hturnover := fifo.turnover (Chronicle.after setup moves).session
    have hinTurn := inTurn_after setup fifo.front
    have hnow := h (moves ++ [m]) List.prefix_rfl
    rw [workers_concat] at worked
    rw [Chronicle.after_concat] at hnow ⊢
    -- before the move it has worked already, or it is about to
    have hknown : (∀ v ∈ (Chronicle.after setup moves).session.tasks, v.id ≠ t) ∧
        t < (Chronicle.after setup moves).session.nextTask := by
      rcases List.mem_append.mp worked with hold | hown
      · exact ⟨ih fifo.front h.front hold, hinTurn.below t hold⟩
      · have hrunning := hturnover.running t (Option.mem_toList.mp hown)
        exact ⟨(kept_after setup moves).running hrunning, hinTurn.running_lt hrunning⟩
    intro u hu heq
    rcases hturnover.tasks u hu with ⟨v, hv, hid⟩ | hnew | ⟨hwaits, -⟩
    · exact hknown.1 v hv (hid.trans heq)
    · exact Nat.ne_of_lt hknown.2 (heq.symm.trans hnew)
    · exact hnow (mem_waiting.mpr ⟨u, hu, hwaits, heq⟩)

/-! ## What is done when -/

theorem work?_eq_some {s : Session} {m : Move} {w : Work} (h : s.work? m = some w) :
    s.worker? m = some w.task ∧ w.deeds = s.moveDeeds m := by
  obtain ⟨t, ht, rfl⟩ := Option.map_eq_some_iff.mp h
  cases m with
  | step => exact ⟨ht, rfl⟩
  | _ => cases ht

/-- The record tells of all work. -/
theorem work_mem_log {setup : Setup} {moves : List Move} :
    ∀ w ∈ work setup moves, ∀ d ∈ w.deeds, d ∈ (Chronicle.after setup moves).log := by
  induction moves using List.reverseRecOn with
  | nil => exact fun w hw => absurd hw List.not_mem_nil
  | append_singleton moves m ih =>
    intro w hw d hd
    rw [Chronicle.after_concat]
    rw [work_concat] at hw
    rcases List.mem_append.mp hw with hw | hw
    · exact List.mem_append_left _ (ih w hw d hd)
    · exact List.mem_append_right _ ((work?_eq_some (Option.mem_toList.mp hw)).2 ▸ hd)

/-- A task ends by its own work. -/
theorem work_of_finished {setup : Setup} {moves : List Move} (fifo : FirstInFirstOut moves) :
    ∀ f ∈ finished (Chronicle.after setup moves).log, ∃ w ∈ work setup moves, w.task = f.1 ∧ f ∈ finished w.deeds := by
  induction moves using List.reverseRecOn with
  | nil => exact fun f hf => absurd hf List.not_mem_nil
  | append_singleton moves m ih =>
    intro f hf
    rw [Chronicle.after_concat] at hf
    rw [work_concat]
    change f ∈ finished (_ ++ _) at hf
    rw [finished_append] at hf
    rcases List.mem_append.mp hf with hf | hf
    · obtain ⟨w, hw, hown⟩ := ih fifo.front f hf
      exact ⟨w, List.mem_append_left _ hw, hown⟩
    · have hworker := (fifo.turnover (Chronicle.after setup moves).session).ends f hf
      have hwork : (Chronicle.after setup moves).session.work? m = some ⟨f.1, (Chronicle.after setup moves).session⟩ := by
        rw [work?, hworker]
        rfl
      exact ⟨_, List.mem_append_right _ (Option.mem_toList.mpr hwork), rfl, (work?_eq_some hwork).2 ▸ hf⟩

/-- When a later handler works, one that never waits has ended: by then it is neither running nor among the other tasks. -/
theorem finished_before {setup : Setup} {moves : List Move} (fifo : FirstInFirstOut moves) {t u : TaskId}
    (ht : t ∈ arrivals (Chronicle.after setup moves).log) (hu : u ∈ arrivals (Chronicle.after setup moves).log) (hlt : t < u)
    (never : NeverWaits setup moves t) (running : (Chronicle.after setup moves).session.running? = some u) :
    ∃ f ∈ finished (Chronicle.after setup moves).log, f.1 = t := by
  have hworked := (inTurn_after setup fifo).preceded ht hu hlt running
  rcases (balanced_after setup moves).arrival (kept_after setup moves) ht with ⟨v, hv, hid⟩ | hended
  · exfalso
    rcases List.mem_append.mp hv with hv | hv
    · exact never.not_mem_tasks fifo hworked v hv hid
    · have hrunning : (Chronicle.after setup moves).session.running? = some v.id := by
        rw [running?, Option.mem_toList.mp hv]
        rfl
      exact Nat.ne_of_lt hlt (hid.symm.trans (Option.some.inj (hrunning.symm.trans running)))
  · exact hended

/-- All work of a handler that never waits comes before all work of a later one, and in it the handler ends. -/
theorem work_before {setup : Setup} {moves : List Move} (fifo : FirstInFirstOut moves) {t u : TaskId}
    (ht : t ∈ arrivals (Chronicle.after setup moves).log) (hu : u ∈ arrivals (Chronicle.after setup moves).log) (hlt : t < u)
    (never : NeverWaits setup moves t) {earlier later : List Work} {w : Work}
    (hsplit : work setup moves = earlier ++ w :: later) (hw : w.task = u) :
    (∃ e ∈ earlier, e.task = t ∧ ∃ f ∈ finished e.deeds, f.1 = t) ∧ ∀ e ∈ w :: later, e.task ≠ t := by
  induction moves using List.reverseRecOn generalizing later with
  | nil => exact absurd ht List.not_mem_nil
  | append_singleton moves m ih =>
    have hturnover := fifo.turnover (Chronicle.after setup moves).session
    have hinTurn := inTurn_after setup fifo.front
    -- both had arrived when the later one worked
    have hworked : u < (Chronicle.after setup moves).session.nextTask := by
      have hmem : u ∈ workers setup (moves ++ [m]) := List.mem_map.mpr ⟨w, by simp [hsplit], hw⟩
      rw [workers_concat] at hmem
      exact hinTurn.worked_lt hturnover u hmem
    rw [Chronicle.after_concat] at ht hu
    replace ht := hturnover.arrived_before ht (Nat.lt_trans hlt hworked)
    replace hu := hturnover.arrived_before hu hworked
    rw [work_concat] at hsplit
    cases hnow : (Chronicle.after setup moves).session.work? m with
    | none =>
      rw [hnow, Option.toList_none, List.append_nil] at hsplit
      exact ih fifo.front ht hu never.front hsplit
    | some x =>
      rw [hnow] at hsplit
      have hrunning := hturnover.running x.task (work?_eq_some hnow).1
      rcases split_concat hsplit with ⟨rfl, rfl, rfl⟩ | ⟨rest, hrest, rfl⟩
      · have hrunning : (Chronicle.after setup moves).session.running? = some u := hw ▸ hrunning
        obtain ⟨f, hf, rfl⟩ := finished_before fifo.front ht hu hlt never.front hrunning
        obtain ⟨e, he, hown, hend⟩ := work_of_finished fifo.front f hf
        refine ⟨⟨e, he, hown, f, hend, rfl⟩, fun e he => ?_⟩
        obtain rfl := List.mem_singleton.mp he
        exact hw ▸ Nat.ne_of_gt hlt
      · obtain ⟨⟨e, he, hown, f, hf, rfl⟩, hothers⟩ := ih fifo.front ht hu never.front hrest
        refine ⟨⟨e, he, hown, f, hf, rfl⟩, fun v hv => ?_⟩
        rw [← List.cons_append] at hv
        rcases List.mem_append.mp hv with hv | hv
        · exact hothers v hv
        · obtain rfl := List.mem_singleton.mp hv
          have hlog : .finished f.1 f.2.1 f.2.2 ∈ (Chronicle.after setup moves).log :=
            work_mem_log e (by rw [hrest]; exact List.mem_append_left _ he) _ (mem_finished.mp hf)
          exact (kept_after setup moves).running_ne (mem_finished.mpr hlog) hrunning

end EditorLink.Session
