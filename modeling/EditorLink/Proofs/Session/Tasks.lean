import EditorLink.Proofs.Session.Moves
import Mathlib.Data.List.Induction

/-!
# EditorLink.Proofs.Session.Tasks -- every handler is unfinished or has finished once

Tasks have different ids, and no id is given out twice, so the record of a session keeps its tasks apart. Handlers are balanced: those
that were accepted are those that are unfinished and those that have finished, each once.
-/

namespace EditorLink.Session

open Extension

/-! ## Reading a record -/

/-- The task that a deed is about. -/
def Deed.task? : Deed → Option TaskId
  | link _ => none
  | accepted t _ _ => some t
  | refused _ _ => none
  | saw t _ => some t
  | returned t _ => some t
  | finished t _ _ => some t

def Deed.accepted? : Deed → Option (TaskId × Role)
  | accepted t role _ => some (t, role)
  | _ => none

def Deed.finished? : Deed → Option (TaskId × Role × Exit)
  | finished t role exit => some (t, role, exit)
  | _ => none

/-- The handlers that were accepted. -/
def accepted (log : List Deed) : List (TaskId × Role) :=
  log.filterMap Deed.accepted?

/-- The tasks that have finished, and how they ended. -/
def finished (log : List Deed) : List (TaskId × Role × Exit) :=
  log.filterMap Deed.finished?

theorem mem_accepted {log : List Deed} {t : TaskId} {role : Role} :
    (t, role) ∈ accepted log ↔ ∃ args, .accepted t role args ∈ log := by
  constructor
  · intro h
    obtain ⟨d, hd, heq⟩ := List.mem_filterMap.mp h
    cases d <;> simp only [Deed.accepted?, Option.some.injEq, Prod.mk.injEq, reduceCtorEq] at heq
    obtain ⟨rfl, rfl⟩ := heq
    exact ⟨_, hd⟩
  · exact fun ⟨_, h⟩ => List.mem_filterMap.mpr ⟨_, h, rfl⟩

theorem mem_finished {log : List Deed} {t : TaskId} {role : Role} {exit : Exit} :
    (t, role, exit) ∈ finished log ↔ .finished t role exit ∈ log := by
  constructor
  · intro h
    obtain ⟨d, hd, heq⟩ := List.mem_filterMap.mp h
    cases d <;> simp only [Deed.finished?, Option.some.injEq, Prod.mk.injEq, reduceCtorEq] at heq
    obtain ⟨rfl, rfl, rfl⟩ := heq
    exact hd
  · exact fun h => List.mem_filterMap.mpr ⟨_, h, rfl⟩

@[simp] theorem accepted_append (log more : List Deed) : accepted (log ++ more) = accepted log ++ accepted more := by
  simp [accepted]

@[simp] theorem finished_append (log more : List Deed) : finished (log ++ more) = finished log ++ finished more := by
  simp [finished]

@[simp] theorem accepted_map_link (as : List (Exchange.Act TaskId)) : accepted (as.map .link) = [] := by
  simp [accepted, Deed.accepted?]

@[simp] theorem finished_map_link (as : List (Exchange.Act TaskId)) : finished (as.map .link) = [] := by
  simp [finished, Deed.finished?]

/-- A step of a task that goes on begins and ends nothing, and is about that task. -/
theorem Advance.deeds {t u : Task} {deeds : List Deed} (h : Advance t u deeds) :
    accepted deeds = [] ∧ finished deeds = [] ∧ ∀ d ∈ deeds, d.task? = some t.id := by
  cases h with
  | access w _ => split <;> simp [accepted, finished, Deed.accepted?, Deed.finished?, Deed.task?]
  | back _ _ => split <;> simp [accepted, finished, Deed.accepted?, Deed.finished?, Deed.task?]
  | _ => simp [accepted, finished]

/-! ## Chronicles -/

/-- What holds at the start and is kept by every change holds of every chronicle. -/
theorem Chronicle.induct {P : Session → List Deed → Prop} (setup : Setup) (start : P (ofSetup setup) [])
    (hchange : ∀ {s t : Session} {deeds log : List Deed}, Change s t deeds → P s log → P t (log ++ deeds))
    (moves : List Move) : P (after setup moves).session (after setup moves).log := by
  induction moves using List.reverseRecOn with
  | nil => exact start
  | append_singleton moves m ih =>
    rw [after_concat]
    exact (course_move _ m).induct ih hchange

/-- **The exchange of a chronicle shows its link.** So what holds of every history of a link holds of the link of every session. -/
theorem mirrors_after (setup : Setup) (moves : List Move) :
    Mirrors (Chronicle.after setup moves).session (Chronicle.after setup moves).exchange := by
  refine Chronicle.induct (P := fun s log => Mirrors s (Exchange.after (acts log))) setup ?_ ?_ moves
  · exact ⟨rfl, rfl, iff_of_true rfl (by simp [ofSetup]), by simp [ofSetup]⟩
  · intro s t deeds log change h
    rw [acts_append, Exchange.after, List.foldl_append]
    exact change.follows _ h

/-! ## Different tasks have different ids -/

/-- No id is used twice, and the next one is above all that were used. -/
structure Kept (s : Session) (log : List Deed) : Prop where
  nodup : ((finished log).map (·.1) ++ s.live.map (·.id)).Nodup
  fresh : ∀ t ∈ s.live, t.id < s.nextTask
  named : ∀ d ∈ log, ∀ t ∈ d.task?, t < s.nextTask

theorem Kept.live_nodup {s : Session} {log : List Deed} (h : Kept s log) : (s.live.map (·.id)).Nodup :=
  (List.nodup_append.mp h.nodup).2.1

theorem Kept.finished_nodup {s : Session} {log : List Deed} (h : Kept s log) :
    ((finished log).map (·.1)).Nodup :=
  (List.nodup_append.mp h.nodup).1

/-- A task that has finished is not unfinished. -/
theorem Kept.over {s : Session} {log : List Deed} (h : Kept s log) {t : TaskId} {role : Role} {exit : Exit}
    (hfinished : .finished t role exit ∈ log) : ∀ u ∈ s.live, u.id ≠ t := by
  intro u hu heq
  have hmem : t ∈ (finished log).map (·.1) := List.mem_map.mpr ⟨_, mem_finished.mpr hfinished, rfl⟩
  exact (List.nodup_append.mp h.nodup).2.2 t hmem u.id (List.mem_map.mpr ⟨u, hu, rfl⟩) heq.symm

/-- A new task has an id of its own. -/
theorem Kept.begin {s s' : Session} {log deeds : List Deed} (h : Kept s log) {t : Task} (hid : t.id = s.nextTask)
    (hlive : s'.live.Perm (t :: s.live)) (hnext : s'.nextTask = s.nextTask + 1) (hfinished : finished deeds = [])
    (hnamed : ∀ d ∈ deeds, ∀ u ∈ d.task?, u = s.nextTask) : Kept s' (log ++ deeds) where
  nodup := by
    have hids : ((finished log).map (·.1) ++ s'.live.map (·.id)).Perm
        (s.nextTask :: ((finished log).map (·.1) ++ s.live.map (·.id))) := by
      refine ((hlive.map (·.id)).append_left _).trans ?_
      rw [List.map_cons, hid]
      exact List.perm_middle
    rw [finished_append, hfinished, List.append_nil, hids.nodup_iff, List.nodup_cons]
    refine ⟨fun hmem => ?_, h.nodup⟩
    -- all ids in use are below the next one
    rcases List.mem_append.mp hmem with hmem | hmem
    · obtain ⟨⟨u, role, exit⟩, hu, heq⟩ := List.mem_map.mp hmem
      have hlt := h.named _ (mem_finished.mp hu) u rfl
      exact Nat.lt_irrefl _ (heq ▸ hlt)
    · obtain ⟨u, hu, heq⟩ := List.mem_map.mp hmem
      have hlt := h.fresh u hu
      exact Nat.lt_irrefl _ (heq ▸ hlt)
  fresh := by
    intro u hu
    rw [hnext]
    rcases List.mem_cons.mp (hlive.mem_iff.mp hu) with rfl | hu
    · exact hid ▸ Nat.lt_succ_self _
    · exact Nat.lt_succ_of_lt (h.fresh u hu)
  named := by
    intro d hd u hu
    rw [hnext]
    rcases List.mem_append.mp hd with hd | hd
    · exact Nat.lt_succ_of_lt (h.named d hd u hu)
    · exact hnamed d hd u hu ▸ Nat.lt_succ_self _

/-- Tasks go on, and the record may tell something of them. -/
theorem Kept.goOn {s s' : Session} {log deeds : List Deed} (h : Kept s log)
    (hlive : (s'.live.map (·.id)).Perm (s.live.map (·.id))) (hnext : s'.nextTask = s.nextTask)
    (hfinished : finished deeds = []) (hnamed : ∀ d ∈ deeds, ∀ u ∈ d.task?, u < s.nextTask) :
    Kept s' (log ++ deeds) where
  nodup := by
    rw [finished_append, hfinished, List.append_nil, (hlive.append_left _).nodup_iff]
    exact h.nodup
  fresh := by
    intro u hu
    obtain ⟨t, ht, heq⟩ := List.mem_map.mp (hlive.mem_iff.mp (List.mem_map.mpr ⟨u, hu, rfl⟩))
    rw [hnext, ← heq]
    exact h.fresh t ht
  named := by
    intro d hd u hu
    rw [hnext]
    rcases List.mem_append.mp hd with hd | hd
    · exact h.named d hd u hu
    · exact hnamed d hd u hu

theorem Kept.change {s s' : Session} {log deeds : List Deed} (h : Kept s log) (change : Change s s' deeds) :
    Kept s' (log ++ deeds) := by
  cases change with
  | linked _ tasks next => exact h.goOn (tasks.ids h.live_nodup) next (by simp) (by simp [Deed.task?])
  | refused role args _ tasks next =>
    exact h.goOn (by rw [tasks]) next rfl (by simp [Deed.task?])
  | accepted args _ _ tasks next => exact h.begin rfl tasks next rfl (by simp [Deed.task?])
  | born _ _ tasks next => exact h.begin rfl tasks next rfl (by simp)
  | @advanced others t u _ advance _ old new next =>
    obtain ⟨-, hfinished, hnamed⟩ := advance.deeds
    have hkeys : (s'.live.map (·.id)) = s.live.map (·.id) := by
      have hid : u.id = t.id := advance.id_eq
      rw [old, new]
      simp [hid]
    refine h.goOn (by rw [hkeys]) next hfinished fun d hd v hv => ?_
    obtain rfl := Option.some.inj ((hnamed d hd).symm.trans hv)
    exact h.fresh t (by simp [old])
  | @finished t exit _ _ _ old next =>
    -- the id goes over from the unfinished tasks to the finished ones
    refine ⟨?_, fun u hu => ?_, fun d hd u hu => ?_⟩
    · have hnodup := h.nodup
      rw [old, List.map_append, ← List.append_assoc] at hnodup
      rw [finished_append, List.map_append]
      refine (List.Perm.nodup_iff ?_).mp hnodup
      rw [List.append_assoc, List.append_assoc]
      exact List.perm_append_comm.append_left _
    · rw [next]
      exact h.fresh u (by simp [old, hu])
    · rw [next]
      rcases List.mem_append.mp hd with hd | hd
      · exact h.named d hd u hu
      · obtain rfl := List.mem_singleton.mp hd
        obtain rfl : t.id = u := Option.some.inj hu
        exact h.fresh t (by simp [old])
  | dropped _ _ fewer next =>
    have hfewer := fewer h.live_nodup
    rw [List.append_nil]
    refine ⟨?_, fun u hu => ?_, fun d hd u hu => next ▸ h.named d hd u hu⟩
    · have hnodup := ((hfewer.map (·.id)).append_left ((finished log).map (·.1))).nodup_iff.mp h.nodup
      exact hnodup.sublist ((List.sublist_cons_self _ _).append_left _)
    · rw [next]
      exact h.fresh u (hfewer.mem_iff.mpr (List.mem_cons_of_mem _ hu))

theorem kept_start (setup : Setup) : Kept (ofSetup setup) [] :=
  ⟨List.nodup_nil, by simp [live, ofSetup, Focus.task?], by simp⟩

theorem kept_after (setup : Setup) (moves : List Move) :
    Kept (Chronicle.after setup moves).session (Chronicle.after setup moves).log :=
  Chronicle.induct setup (kept_start setup) (fun change h => Kept.change h change) moves

/-- What every change keeps of a session whose tasks have different ids holds of every chronicle. -/
theorem Chronicle.induct_kept {P : Session → List Deed → Prop} (setup : Setup) (start : P (ofSetup setup) [])
    (hchange : ∀ {s t : Session} {deeds log : List Deed}, Kept s log → Change s t deeds → P s log → P t (log ++ deeds))
    (moves : List Move) : P (after setup moves).session (after setup moves).log := by
  have hboth : Kept (after setup moves).session (after setup moves).log ∧
      P (after setup moves).session (after setup moves).log := by
    refine Chronicle.induct (P := fun s log => Kept s log ∧ P s log) setup ⟨kept_start setup, start⟩ ?_ moves
    exact fun change h => ⟨h.1.change change, hchange h.1 change h.2⟩
  exact hboth.2

/-! ## Handlers are balanced -/

/-- The tasks that are handlers. -/
def handlers (keys : List (TaskId × Role)) : List (TaskId × Role) :=
  keys.filter (·.2.handler?.isSome)

theorem handlers_append (keys more : List (TaskId × Role)) :
    handlers (keys ++ more) = handlers keys ++ handlers more :=
  List.filter_append ..

theorem handlers_cons_of_plain {key : TaskId × Role} (keys : List (TaskId × Role)) (plain : key.2.handler? = none) :
    handlers (key :: keys) = handlers keys :=
  List.filter_cons_of_neg (by simp [plain])

/-- The tasks that have finished. -/
def overKeys (log : List Deed) : List (TaskId × Role) :=
  (finished log).map fun f => (f.1, f.2.1)

theorem overKeys_append (log more : List Deed) : overKeys (log ++ more) = overKeys log ++ overKeys more := by
  simp [overKeys]

/-- The accepted handlers are the unfinished ones and the finished ones. -/
def Balanced (s : Session) (log : List Deed) : Prop :=
  (accepted log).Perm (handlers (s.live.map Task.key) ++ handlers (overKeys log))

/-- Nothing was accepted, and no handler has finished. -/
theorem Balanced.keep {s s' : Session} {log deeds : List Deed} (h : Balanced s log) (haccepted : accepted deeds = [])
    (hfinished : finished deeds = [])
    (hlive : (handlers (s'.live.map Task.key)).Perm (handlers (s.live.map Task.key))) :
    Balanced s' (log ++ deeds) := by
  have hover : overKeys deeds = [] := by rw [overKeys, hfinished]; rfl
  rw [Balanced, accepted_append, haccepted, List.append_nil, overKeys_append, hover, List.append_nil]
  exact h.trans (hlive.symm.append_right _)

theorem Balanced.change {s s' : Session} {log deeds : List Deed} (kept : Kept s log) (h : Balanced s log)
    (change : Change s s' deeds) : Balanced s' (log ++ deeds) := by
  cases change with
  | linked _ tasks _ => exact h.keep (by simp) (by simp) ((tasks.keys kept.live_nodup).filter _)
  | refused role args _ tasks _ => exact h.keep rfl rfl (by rw [tasks])
  | @accepted role handler args handles _ tasks _ =>
    -- one more is accepted, and it is unfinished
    have hlive : (handlers (s'.live.map Task.key)).Perm ((s.nextTask, role) :: handlers (s.live.map Task.key)) := by
      refine ((tasks.map Task.key).filter _).trans ?_
      rw [List.map_cons, Task.key, List.filter_cons_of_pos (by simp [handles])]
      exact .rfl
    have hover : overKeys [.accepted s.nextTask role args] = [] := rfl
    rw [Balanced, accepted_append, overKeys_append, hover, List.append_nil]
    exact (List.perm_append_comm.trans (h.cons (s.nextTask, role))).trans (hlive.symm.append_right _)
  | born plain _ tasks _ =>
    refine h.keep rfl rfl (((tasks.map Task.key).filter _).trans ?_)
    rw [List.map_cons, ← handlers, handlers_cons_of_plain _ plain]
  | @advanced others t u _ advance _ old new _ =>
    obtain ⟨haccepted, hfinished, -⟩ := advance.deeds
    have hkey : u.key = t.key := by rw [Task.key, Task.key, advance.id_eq, advance.role_eq]
    exact h.keep haccepted hfinished (by rw [old, new]; simp [hkey])
  | @finished t exit _ _ _ old _ =>
    -- one goes over from the unfinished to the finished
    rw [Balanced, old, List.map_append, handlers_append, List.append_assoc] at h
    rw [Balanced, accepted_append, overKeys_append, handlers_append]
    refine (List.Perm.of_eq (List.append_nil _)).trans (h.trans (List.Perm.append_left _ ?_))
    exact List.perm_append_comm
  | dropped plain _ fewer _ =>
    rw [List.append_nil]
    have hkeys := ((fewer kept.live_nodup).map Task.key).filter (·.2.handler?.isSome)
    rw [List.map_cons, ← handlers, ← handlers, handlers_cons_of_plain _ plain] at hkeys
    exact h.trans (hkeys.append_right _)

theorem balanced_after (setup : Setup) (moves : List Move) :
    Balanced (Chronicle.after setup moves).session (Chronicle.after setup moves).log := by
  refine Chronicle.induct_kept setup ?_ (fun kept change h => Balanced.change kept h change) moves
  simp [Balanced, live, ofSetup, Focus.task?, handlers, overKeys, accepted, finished]

/-! ## Each handler once -/

/-- The ends of a task. -/
def ends (log : List Deed) (t : TaskId) : List (TaskId × Role × Exit) :=
  (finished log).filter (·.1 = t)

theorem ends_eq_nil {log : List Deed} {t : TaskId} (h : t ∉ (finished log).map (·.1)) : ends log t = [] := by
  refine List.filter_eq_nil_iff.mpr fun f hf => ?_
  simpa using fun heq : f.1 = t => h (heq ▸ List.mem_map.mpr ⟨f, hf, rfl⟩)

/-- A task ends once. -/
theorem Kept.ends_eq {s : Session} {log : List Deed} (h : Kept s log) {t : TaskId} {role : Role} {exit : Exit}
    (hfinished : .finished t role exit ∈ log) : ends log t = [(t, role, exit)] := by
  obtain ⟨before, later, hsplit⟩ := List.append_of_mem (mem_finished.mpr hfinished)
  have hnodup := h.finished_nodup
  rw [hsplit, List.map_append, List.map_cons, List.nodup_append, List.nodup_cons] at hnodup
  obtain ⟨-, ⟨hlater, -⟩, hbefore⟩ := hnodup
  rw [ends, hsplit, List.filter_append, List.filter_cons_of_pos (by simp), List.filter_eq_nil_iff.mpr,
    List.filter_eq_nil_iff.mpr, List.nil_append]
  · intro f hf
    simpa using fun heq : f.1 = t => hlater (heq ▸ List.mem_map.mpr ⟨f, hf, rfl⟩)
  · intro f hf
    simpa using hbefore f.1 (List.mem_map.mpr ⟨f, hf, rfl⟩) t List.mem_cons_self

/-- No two accepted handlers have one id. -/
theorem Balanced.nodup {s : Session} {log : List Deed} (kept : Kept s log) (h : Balanced s log) :
    ((accepted log).map (·.1)).Nodup := by
  have hlive : ((handlers (s.live.map Task.key)).map (·.1)).Sublist (s.live.map (·.id)) := by
    rw [← map_fst_key]
    exact List.filter_sublist.map _
  have hover : ((handlers (overKeys log)).map (·.1)).Sublist ((finished log).map (·.1)) := by
    have hmap : (overKeys log).map (·.1) = (finished log).map (·.1) := by simp [overKeys, Function.comp_def]
    rw [← hmap]
    exact List.filter_sublist.map _
  rw [(h.map (·.1)).nodup_iff, List.map_append]
  exact (List.perm_append_comm.nodup_iff.mp kept.nodup).sublist (hlive.append hover)

/-- A handler that has finished was accepted. -/
theorem Balanced.accepted_of_finished {s : Session} {log : List Deed} (h : Balanced s log) {t : TaskId} {role : Role}
    {exit : Exit} (hfinished : .finished t role exit ∈ log) (handles : role.handler?.isSome = true) :
    ∃ args, .accepted t role args ∈ log := by
  refine mem_accepted.mp (h.mem_iff.mpr (List.mem_append_right _ (List.mem_filter.mpr ⟨?_, handles⟩)))
  exact List.mem_map.mpr ⟨_, mem_finished.mpr hfinished, rfl⟩

/-- An accepted handler is unfinished, or it is over and has finished once. -/
theorem Balanced.standing {s : Session} {log : List Deed} (kept : Kept s log) (h : Balanced s log) {t : TaskId}
    {role : Role} {args : List Value} (haccepted : .accepted t role args ∈ log) :
    ((∃ u ∈ s.live, u.id = t ∧ u.role = role) ∧ ends log t = []) ∨
    ((∀ u ∈ s.live, u.id ≠ t) ∧ ∃ exit, ends log t = [(t, role, exit)]) := by
  rcases List.mem_append.mp (h.mem_iff.mp (mem_accepted.mpr ⟨args, haccepted⟩)) with hlive | hover
  · obtain ⟨u, hu, hkey⟩ := List.mem_map.mp (List.mem_of_mem_filter hlive)
    obtain ⟨rfl, rfl⟩ := Prod.mk.inj hkey
    refine Or.inl ⟨⟨u, hu, rfl, rfl⟩, ends_eq_nil fun hmem => ?_⟩
    exact (List.nodup_append.mp kept.nodup).2.2 u.id hmem u.id (List.mem_map.mpr ⟨u, hu, rfl⟩) rfl
  · obtain ⟨⟨u, own, exit⟩, hf, hkey⟩ := List.mem_map.mp (List.mem_of_mem_filter hover)
    obtain ⟨rfl, rfl⟩ := Prod.mk.inj hkey
    have hfinished := mem_finished.mp hf
    exact Or.inr ⟨kept.over hfinished, exit, kept.ends_eq hfinished⟩

end EditorLink.Session
