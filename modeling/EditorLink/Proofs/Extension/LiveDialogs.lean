import EditorLink.Proofs.Extension.Prompts
import EditorLink.Proofs.Session.Verdict
import Mathlib.Data.List.Nodup

/-!
# EditorLink.Proofs.Extension.LiveDialogs -- dialogs that are in progress

Which prompts are in progress is read off a history: a prompt begins when its task gets to it, and ends when its task deals with the reply or is
dropped (`Shown`). While all code has to do with dialogs only by showing prompts, the tasks that show a prompt are those of the prompts in
progress (`Showing`), and the registry of dialogs keeps for each of these its code for text changes, and nothing else (`Entered`).
-/

namespace EditorLink.Session

open Extension Registry

/-! ## Prompts in a history -/

/-- A prompt that was begun: the task that shows it and the id that it got. -/
structure Opened where
  task : TaskId
  dialog : UInt64
  prompt : TextPrompt

namespace Opened

/-- What the registry keeps for a prompt in progress. -/
def kept? (e : Opened) : Option (UInt64 × CodeId) :=
  e.prompt.callback.map fun code => (e.dialog, code)

/-- This task shows the prompt. -/
structure At (e : Opened) (t : Task) : Prop where
  task : t.id = e.task
  stage : e.prompt.Stage e.dialog t.wait

/-- This task shows the prompt while others work. -/
structure Rests (e : Opened) (t : Task) : Prop where
  task : t.id = e.task
  rests : e.prompt.Rests e.dialog t.wait

/-- The prompt begins: its task gets to it, and it has the next id. -/
structure Begins (e : Opened) (s : Session) (m : Move) : Prop where
  step : m = .step
  focus : ∃ role outer, s.focus = .running e.task role e.prompt.program outer
  dialog : e.dialog = s.workspace.dialogs.fresh

/-- The prompt ends: its task deals with the reply, or is dropped. -/
inductive Ends (e : Opened) (s : Session) (m : Move) : Prop
  | returns {role : Role} {answer : CallResult} {outer : List (Exit → Program)} (step : m = .step)
      (focus : s.focus = .running e.task role (e.prompt.answered e.dialog answer) outer)
  | dropped {tag : String} {f : Task} (gone : m = .abandon tag) (found : s.tasks.find? (hasTag tag) = some f) (task : f.id = e.task)

end Opened

/-- The prompts that were begun in a history, and those of them that are in progress, the latest first. -/
inductive Shown (setup : Setup) : List Move → List Opened → List Opened → Prop
  | nothing : Shown setup [] [] []
  | begins {moves : List Move} {m : Move} {begun now : List Opened} {e : Opened} (earlier : Shown setup moves begun now)
      (begins : e.Begins (Chronicle.after setup moves).session m) : Shown setup (moves ++ [m]) (e :: begun) (e :: now)
  | ends {moves : List Move} {m : Move} {begun newer older : List Opened} {e : Opened}
      (earlier : Shown setup moves begun (newer ++ e :: older)) (ends : e.Ends (Chronicle.after setup moves).session m) :
      Shown setup (moves ++ [m]) begun (newer ++ older)
  | beside {moves : List Move} {m : Move} {begun now : List Opened} (earlier : Shown setup moves begun now)
      (nothing : ∀ e : Opened, ¬ e.Begins (Chronicle.after setup moves).session m)
      (all : ∀ e ∈ now, ¬ e.Ends (Chronicle.after setup moves).session m) : Shown setup (moves ++ [m]) begun now

/-- Every history shows some prompts. -/
theorem exists_shown (setup : Setup) (moves : List Move) : ∃ begun now, Shown setup moves begun now := by
  induction moves using List.reverseRecOn with
  | nil => exact ⟨[], [], .nothing⟩
  | append_singleton moves m ih =>
    obtain ⟨begun, now, earlier⟩ := ih
    by_cases hbegins : ∃ e : Opened, e.Begins (Chronicle.after setup moves).session m
    · obtain ⟨e, hbegins⟩ := hbegins
      exact ⟨_, _, .begins earlier hbegins⟩
    · by_cases hends : ∃ e ∈ now, e.Ends (Chronicle.after setup moves).session m
      · obtain ⟨e, hmem, hends⟩ := hends
        obtain ⟨newer, older, rfl⟩ := List.append_of_mem hmem
        exact ⟨_, _, .ends earlier hends⟩
      · exact ⟨_, _, .beside earlier (fun e h => hbegins ⟨e, h⟩) fun e hmem h => hends ⟨e, hmem, h⟩⟩

/-! ## The tasks that show prompts -/

/-- A task is calm, or shows one of these prompts while others work. -/
def Waiting (now : List Opened) (t : Task) : Prop :=
  Calls t.outer ∧ (Calm t.wait ∨ ∃ e ∈ now, e.Rests t)

/-- A task is calm, or shows one of these prompts. -/
def Working (now : List Opened) (t : Task) : Prop :=
  Calls t.outer ∧ (Calm t.wait ∨ ∃ e ∈ now, e.At t)

namespace Waiting

variable {now now' : List Opened} {t u : Task}

theorem working (h : Waiting now t) : Working now t := by
  obtain ⟨hcalls, hcalm | ⟨e, he, hrests⟩⟩ := h
  · exact ⟨hcalls, Or.inl hcalm⟩
  · exact ⟨hcalls, Or.inr ⟨e, he, hrests.task, .rests hrests.rests⟩⟩

theorem resumes (h : Waiting now t) (htu : t.Resumes u) : Waiting now u := by
  obtain ⟨hcalls, hcalm | ⟨e, he, hrests⟩⟩ := h
  · exact ⟨htu.outer_eq ▸ hcalls, Or.inl (hcalm.resumes htu)⟩
  · exact ⟨htu.outer_eq ▸ hcalls, Or.inr ⟨e, he, htu.id_eq.trans hrests.task, hrests.rests.resumes htu⟩⟩

theorem of_begins {fresh : Program → Prop} (h : t.Begins fresh) (hfresh : ∀ p, fresh p → Prompting p) : Waiting now t := by
  obtain ⟨houter, p, hp, hwait⟩ := h
  rw [Waiting, houter, hwait]
  exact ⟨nofun, Or.inl (hfresh p hp)⟩

/-- Only the prompts of the task itself matter. -/
theorem among (h : Waiting now t) (own : ∀ e : Opened, e.task = t.id → e ∈ now → e ∈ now') : Waiting now' t := by
  obtain ⟨hcalls, hcalm | ⟨e, he, hrests⟩⟩ := h
  · exact ⟨hcalls, Or.inl hcalm⟩
  · exact ⟨hcalls, Or.inr ⟨e, own e hrests.task.symm he, hrests⟩⟩

end Waiting

theorem Working.among {now now' : List Opened} {t : Task} (h : Working now t) (own : ∀ e : Opened, e.task = t.id → e ∈ now → e ∈ now') :
    Working now' t := by
  obtain ⟨hcalls, hcalm | ⟨e, he, hat⟩⟩ := h
  · exact ⟨hcalls, Or.inl hcalm⟩
  · exact ⟨hcalls, Or.inr ⟨e, own e hat.task.symm he, hat⟩⟩

/-- All code is prompting, and the tasks that are not calm are those that show the prompts in progress. -/
structure Showing (s : Session) (now : List Opened) : Prop where
  code : ∀ id input, Prompting (s.codeOf id input)
  farewell : Prompting s.farewell
  waiting : ∀ t ∈ s.tasks, Waiting now t
  working : ∀ t ∈ s.focus.task?, Working now t
  going : ∀ e ∈ now, e.prompt.Tame ∧ ∃ t ∈ s.live, e.At t
  single : (now.map (·.task)).Nodup

namespace Showing

variable {s s' : Session} {m : Move} {now now' : List Opened} {e e' : Opened} {id : TaskId} {role : Role} {p : Program}
  {outer : List (Exit → Program)}

/-- A task shows one prompt. -/
theorem eq_of_task (h : Showing s now) (he : e ∈ now) (he' : e' ∈ now) (heq : e'.task = e.task) : e' = e :=
  List.inj_on_of_nodup_map h.single he' he heq

/-- The task of a prompt in progress is where the prompt is. -/
theorem at_of_task (h : Showing s now) (sound : Sound s) (he : e ∈ now) {t : Task} (ht : t ∈ s.live) (htask : t.id = e.task) : e.At t := by
  obtain ⟨-, u, hu, hat⟩ := h.going e he
  obtain rfl := sound.eq_of_id hu ht (htask.trans hat.task.symm)
  exact hat

/-- Tasks go on and begin. -/
theorem tends (h : Showing s now) (sound : Sound s) {fresh : Program → Prop} (tends : Tends fresh s s') (lasts : Lasts s s')
    (hfresh : ∀ p, fresh p → Prompting p) : Showing s' now where
  code := fun id input => by
    have hcode := h.code id input
    rw [codeOf] at hcode ⊢
    rwa [tends.code]
  farewell := tends.farewell ▸ h.farewell
  waiting := by
    intro u hu
    rcases tends.tasks u hu with ⟨t, ht, htu⟩ | hbegins
    · exact (h.waiting t ht).resumes htu
    · exact .of_begins hbegins hfresh
  working := by
    intro u hu
    rcases tends.focus u hu with hu | ⟨t, ht, htu⟩ | hbegins
    · exact h.working u hu
    · exact ((h.waiting t ht).resumes htu).working
    · exact (Waiting.of_begins hbegins hfresh).working
  going := by
    intro e he
    obtain ⟨htame, t, ht, hat⟩ := h.going e he
    obtain ⟨u, hu, htu⟩ := (lasts sound).2 t ht
    exact ⟨htame, u, hu, htu.id_eq.trans hat.task, hat.stage.resumes htu⟩
  single := h.single

/-- A caller goes away, and with it the prompt that it shows. -/
theorem drops (h : Showing s now) (sound : Sound s) {f : Task} (hf : f ∈ s.tasks) {workspace : Workspace}
    (others : ∀ e : Opened, e.task ≠ f.id → (e ∈ now ↔ e ∈ now')) (gone : ∀ e ∈ now', e.task ≠ f.id)
    (single : (now'.map (·.task)).Nodup) :
    Showing { s.removeTask f.id with workspace } now' where
  code := h.code
  farewell := h.farewell
  waiting := by
    intro t ht
    obtain ⟨ht, hne⟩ := List.mem_filter.mp ht
    exact (h.waiting t ht).among fun e htask => (others e (htask ▸ of_decide_eq_true hne)).mp
  working := by
    intro t ht
    have hne : t.id ≠ f.id := by
      intro heq
      cases hrunning : s.focus with
      | running id role p outer =>
        have ht : t ∈ s.focus.task? := ht
        rw [hrunning] at ht
        obtain rfl := Option.mem_some.mp ht
        exact ne_of_waiting sound hrunning hf heq.symm
      | _ =>
        have ht : t ∈ s.focus.task? := ht
        rw [hrunning] at ht
        cases ht
    exact (h.working t ht).among fun e htask => (others e (htask ▸ hne)).mp
  going := by
    intro e he
    obtain ⟨htame, t, ht, hat⟩ := h.going e ((others e (gone e he)).mpr he)
    refine ⟨htame, t, ?_, hat⟩
    rcases List.mem_append.mp ht with ht | ht
    · exact List.mem_append_left _ (List.mem_filter.mpr ⟨ht, decide_eq_true (hat.task ▸ gone e he)⟩)
    · exact List.mem_append_right _ ht
  single := single

/-- A program does one thing, which may have to do with the prompt that its task shows. -/
theorem works (h : Showing s now) (sound : Sound s) (focus : s.focus = .running id role p outer)
    (others : ∀ e : Opened, e.task ≠ id → (e ∈ now ↔ e ∈ now')) (single : (now'.map (·.task)).Nodup)
    (keeps : ∀ kept next, p = .keep kept next → ∀ input, Prompting (kept input))
    (own : ∀ wait outer', Becomes s p outer wait outer' →
      Calls outer' ∧ (Calm wait ∨ ∃ e ∈ now', e.task = id ∧ e.prompt.Stage e.dialog wait))
    (ours : ∀ e ∈ now', e.task = id →
      e.prompt.Tame ∧ (∀ exit : Exit, p ≠ exit.program) ∧ ∀ wait outer', Becomes s p outer wait outer' → e.prompt.Stage e.dialog wait) :
    Showing (s.runStep id role outer p) now' := by
  have hworked := s.worked_runStep id role outer p
  have hothers : ∀ t ∈ s.tasks, Waiting now' t := fun t ht =>
    (h.waiting t ht).among fun e htask => (others e (htask ▸ ne_of_waiting sound focus ht)).mp
  have hcode : ∀ code input, Prompting ((s.runStep id role outer p).codeOf code input) := by
    intro code input
    rcases s.codeOf_runStep id role outer p code with hsame | ⟨kept, next, hkeep, hkept⟩
    · rw [hsame]
      exact h.code code input
    · rw [hkept]
      exact keeps kept next hkeep input
  have hfarewell : Prompting (s.runStep id role outer p).farewell := by
    rw [(runStep_frame ..).1]
    exact h.farewell
  refine ⟨hcode, hfarewell, fun t ht => ?_, fun t ht => ?_, fun e he => ?_, single⟩
  · cases hworked with
    | ended _ _ _ tasks => exact hothers t (tasks ▸ ht)
    | on _ _ tasks => exact hothers t (tasks ▸ ht)
    | waits becomes other _ tasks =>
      rw [tasks] at ht
      rcases List.mem_append.mp ht with ht | ht
      · exact hothers t ht
      · obtain rfl := List.mem_singleton.mp ht
        obtain ⟨hcalls, hcalm | ⟨e, he, htask, hstage⟩⟩ := own _ _ becomes
        · exact ⟨hcalls, Or.inl hcalm⟩
        · exact ⟨hcalls, Or.inr ⟨e, he, htask.symm, hstage.rests_of_no_turn other⟩⟩
  · cases hworked with
    | ended _ _ idle _ =>
      rw [idle] at ht
      cases ht
    | on becomes running _ =>
      rw [running] at ht
      obtain rfl := Option.mem_some.mp ht
      obtain ⟨hcalls, hcalm | ⟨e, he, htask, hstage⟩⟩ := own _ _ becomes
      · exact ⟨hcalls, Or.inl hcalm⟩
      · exact ⟨hcalls, Or.inr ⟨e, he, htask.symm, hstage⟩⟩
    | waits _ _ idle _ =>
      rw [idle] at ht
      cases ht
  · by_cases htask : e.task = id
    · obtain ⟨htame, hgoes, hstage⟩ := ours e he htask
      cases hworked with
      | ended ends _ _ _ => exact absurd ends (hgoes _)
      | @on q outer' becomes running _ => exact ⟨htame, ⟨id, role, .turn q, outer'⟩, running_mem running, htask.symm, hstage _ _ becomes⟩
      | @waits wait outer' becomes _ _ tasks =>
        refine ⟨htame, ⟨id, role, wait, outer'⟩, List.mem_append_left _ ?_, htask.symm, hstage _ _ becomes⟩
        rw [tasks]
        exact List.mem_append_right _ (List.mem_singleton_self _)
    · obtain ⟨htame, t, ht, hat⟩ := h.going e ((others e htask).mpr he)
      rw [live_of_running focus] at ht
      rcases List.mem_append.mp ht with ht | ht
      · exact ⟨htame, t, List.mem_append_left _ (hworked.others ht), hat⟩
      · obtain rfl := List.mem_singleton.mp ht
        exact absurd hat.task.symm htask

/-! ### Moves -/

/-- What the task at work is. -/
theorem at_work (h : Showing s now) (focus : s.focus = .running id role p outer) :
    Calls outer ∧ (Prompting p ∨ ∃ e ∈ now, e.At ⟨id, role, .turn p, outer⟩) :=
  h.working ⟨id, role, .turn p, outer⟩ (by rw [focus]; rfl)

theorem gone_of_single {newer older : List Opened} (h : Showing s (newer ++ e :: older)) :
    ((newer ++ older).map (·.task)).Nodup ∧ ∀ e' ∈ newer ++ older, e'.task ≠ e.task := by
  have hsingle := h.single
  rw [List.map_append, List.map_cons, List.nodup_middle, ← List.map_append, List.nodup_cons] at hsingle
  exact ⟨hsingle.2, fun e' he' heq => hsingle.1 (List.mem_map.mpr ⟨e', he', heq⟩)⟩

theorem mem_of_ne_task {newer older : List Opened} (hne : e'.task ≠ e.task) : e' ∈ newer ++ e :: older ↔ e' ∈ newer ++ older := by
  have hne : e' ≠ e := fun heq => hne (congrArg Opened.task heq)
  simp [hne]

/-- A task gets to a prompt. -/
theorem begins (h : Showing s now) (sound : Sound s) (focus : s.focus = .running e.task role e.prompt.program outer)
    (dialog : e.dialog = s.workspace.dialogs.fresh) : Showing (s.runStep e.task role outer e.prompt.program) (e :: now) := by
  obtain ⟨hcalls, hwork⟩ := h.at_work focus
  have hprompting : Prompting e.prompt.program := by
    rcases hwork with hprompting | ⟨other, -, hat⟩
    · exact hprompting
    · exact absurd hat.stage TextPrompt.no_stage_program
  have hnew : ∀ other ∈ now, other.task ≠ e.task := fun other hother heq =>
    absurd (h.at_of_task sound hother (running_mem focus) heq.symm).stage TextPrompt.no_stage_program
  refine h.works sound focus (fun other hne => ?_) ?_ nofun (fun wait outer' becomes => ?_) fun other hother htask => ?_
  · have hne : other ≠ e := fun heq => hne (congrArg Opened.task heq)
    simp [hne]
  · rw [List.map_cons, List.nodup_cons]
    refine ⟨fun hmem => ?_, h.single⟩
    obtain ⟨other, hother, heq⟩ := List.mem_map.mp hmem
    exact hnew other hother heq
  · obtain ⟨rfl, rfl⟩ := TextPrompt.becomes_program becomes
    exact ⟨hcalls, Or.inr ⟨e, List.mem_cons_self, rfl, dialog ▸ .asks⟩⟩
  · rcases List.mem_cons.mp hother with rfl | hother
    · refine ⟨hprompting.tame, fun exit hexit => ?_, fun wait outer' becomes => ?_⟩
      · cases exit <;> cases hexit
      · obtain ⟨-, rfl⟩ := TextPrompt.becomes_program becomes
        exact dialog ▸ .asks
    · exact absurd htask (hnew other hother)

/-- A task asks the host. -/
theorem asks (h : Showing s now) (sound : Sound s) (he : e ∈ now)
    (focus : s.focus = .running e.task role (e.prompt.asking e.dialog) outer) :
    Showing (s.runStep e.task role outer (e.prompt.asking e.dialog)) now := by
  obtain ⟨hcalls, -⟩ := h.at_work focus
  refine h.works sound focus (fun _ _ => Iff.rfl) h.single nofun (fun wait outer' becomes => ?_) fun other hother htask => ?_
  · obtain ⟨rfl, hstage⟩ := TextPrompt.becomes_asking becomes
    exact ⟨hcalls, Or.inr ⟨e, he, rfl, hstage⟩⟩
  · obtain rfl := h.eq_of_task he hother htask
    refine ⟨(h.going other hother).1, fun exit hexit => ?_, fun wait outer' becomes => (TextPrompt.becomes_asking becomes).2⟩
    cases exit <;> cases hexit

/-- A task deals with the reply to its prompt. -/
theorem returns {newer older : List Opened} {answer : CallResult} (h : Showing s (newer ++ e :: older)) (sound : Sound s)
    (focus : s.focus = .running e.task role (e.prompt.answered e.dialog answer) outer) :
    Showing (s.runStep e.task role outer (e.prompt.answered e.dialog answer)) (newer ++ older) := by
  obtain ⟨hcalls, -⟩ := h.at_work focus
  obtain ⟨hsingle, hgone⟩ := h.gone_of_single
  refine h.works sound focus (fun other hne => mem_of_ne_task hne) hsingle nofun (fun wait outer' becomes => ?_)
    fun other hother htask => absurd htask (hgone other hother)
  obtain ⟨rfl, rfl⟩ := TextPrompt.becomes_answered becomes
  exact ⟨hcalls, Or.inl ((h.going e (by simp)).1 answer)⟩

/-- A program does something that has nothing to do with prompts. -/
theorem calm (h : Showing s now) (sound : Sound s) (focus : s.focus = .running id role p outer) (hp : Prompting p)
    (other : ∀ prompt : TextPrompt, p ≠ prompt.program) : Showing (s.runStep id role outer p) now := by
  obtain ⟨hcalls, -⟩ := h.at_work focus
  refine h.works sound focus (fun _ _ => Iff.rfl) h.single ?_ (fun wait outer' becomes => ?_) fun e he htask => ?_
  · rintro kept next rfl
    cases hp with
    | keep hkept _ => exact hkept
  · obtain ⟨hcalls', hcalm | ⟨prompt, hprompt⟩⟩ := hp.becomes hcalls h.code becomes
    · exact ⟨hcalls', Or.inl hcalm⟩
    · exact absurd hprompt (other prompt)
  · have hcalm : Calm (.turn p) := hp
    exact absurd (h.at_of_task sound he (running_mem focus) htask.symm).stage hcalm.no_stage

end Showing

/-! ## The registry -/

/-- The registry of dialogs has given these prompts their ids, and keeps what belongs to those in progress. -/
structure Entered (d : Dialogs) (begun now : List Opened) : Prop where
  numbered : ∀ later e earlier, begun = later ++ e :: earlier → e.dialog = .ofNat (earlier.length + 1)
  last : d.last = .ofNat begun.length
  among : now.Sublist begun
  callbacks : begun.length ≤ 2 ^ 64 → d.callbacks = now.filterMap Opened.kept?

/-- Ids are different as long as there are ids. -/
theorem nodup_of_numbered {begun : List Opened} (room : begun.length ≤ 2 ^ 64)
    (numbered : ∀ later e earlier, begun = later ++ e :: earlier → e.dialog = .ofNat (earlier.length + 1)) :
    (begun.map (·.dialog)).Nodup := by
  induction begun with
  | nil => exact List.nodup_nil
  | cons e rest ih =>
    rw [List.length_cons] at room
    rw [List.map_cons, List.nodup_cons]
    refine ⟨fun hmem => ?_, ih (Nat.le_of_succ_le room) fun later e' earlier h => numbered (e :: later) e' earlier (h ▸ rfl)⟩
    obtain ⟨e', he', heq⟩ := List.mem_map.mp hmem
    obtain ⟨later, earlier, hrest⟩ := List.append_of_mem he'
    have hnumber : e.dialog = .ofNat (rest.length + 1) := numbered [] e rest rfl
    have hnumber' : e'.dialog = .ofNat (earlier.length + 1) := numbered (e :: later) e' earlier (hrest ▸ rfl)
    have hless : earlier.length < rest.length := by
      rw [hrest, List.length_append, List.length_cons]
      omega
    have hsame := congrArg UInt64.toNat (hnumber'.symm.trans (heq.trans hnumber))
    simp only [UInt64.toNat_ofNat'] at hsame
    omega

namespace Entered

variable {d : Dialogs} {begun now newer older : List Opened} {e : Opened}

theorem nodup (h : Entered d begun now) (room : begun.length ≤ 2 ^ 64) : (now.map (·.dialog)).Nodup :=
  (nodup_of_numbered room h.numbered).sublist (h.among.map _)

theorem opened (h : Entered d begun now) (dialog : e.dialog = d.fresh) : Entered (d.opened e.prompt.callback) (e :: begun) (e :: now) where
  numbered := by
    intro later e' earlier heq
    cases later with
    | nil =>
      cases heq
      rw [dialog, Dialogs.fresh, h.last, UInt64.ofNat_add]
      rfl
    | cons _ later =>
      cases heq
      exact h.numbered later e' earlier rfl
  last := by
    show d.last + 1 = _
    rw [h.last, List.length_cons, UInt64.ofNat_add]
    rfl
  among := h.among.cons_cons e
  callbacks := by
    intro room
    have hbefore := h.callbacks (Nat.le_of_succ_le room)
    cases hcallback : e.prompt.callback with
    | none => simp [Dialogs.opened, Opened.kept?, hcallback, hbefore]
    | some code => simp [Dialogs.opened, Opened.kept?, hcallback, hbefore, dialog]

theorem closed (h : Entered d begun (newer ++ e :: older)) : Entered (d.closed e.dialog) begun (newer ++ older) where
  numbered := h.numbered
  last := h.last
  among := (List.Sublist.append_left (List.sublist_cons_self e older) newer).trans h.among
  callbacks := by
    intro room
    have hnodup := h.nodup room
    rw [List.map_append, List.map_cons, List.nodup_middle, ← List.map_append, List.nodup_cons] at hnodup
    have hothers : ∀ entry ∈ (newer ++ older).filterMap Opened.kept?, entry.1 ≠ e.dialog := by
      intro entry hentry heq
      obtain ⟨other, hother, hkept⟩ := List.mem_filterMap.mp hentry
      obtain ⟨code, -, rfl⟩ := Option.map_eq_some_iff.mp hkept
      exact hnodup.1 (List.mem_map.mpr ⟨other, hother, heq⟩)
    rw [Dialogs.closed, h.callbacks room, List.filterMap_append, List.filterMap_cons]
    rw [List.filterMap_append] at hothers ⊢
    have hnewer := List.filter_eq_self.mpr fun entry hentry => decide_eq_true (hothers entry (List.mem_append_left _ hentry))
    have holder := List.filter_eq_self.mpr fun entry hentry => decide_eq_true (hothers entry (List.mem_append_right _ hentry))
    cases hkept : e.kept? with
    | none => simp only [List.filter_append, hnewer, holder]
    | some entry =>
      obtain ⟨code, -, rfl⟩ := Option.map_eq_some_iff.mp hkept
      simp only [List.filter_append, List.filter_cons, hnewer, holder, ne_eq, not_true_eq_false, decide_false, Bool.false_eq_true, if_false]

/-- **The registry finds the code of the prompts in progress**, by their ids, and no other. -/
theorem callback?_eq_some_iff (h : Entered d begun now) (room : begun.length ≤ 2 ^ 64) {dialog : UInt64} {code : CodeId} :
    d.callback? dialog = some code ↔ ∃ e ∈ now, e.dialog = dialog ∧ e.prompt.callback = some code := by
  rw [Dialogs.callback?, Option.map_eq_some_iff, h.callbacks room]
  constructor
  · rintro ⟨entry, hfind, rfl⟩
    obtain ⟨e, he, hkept⟩ := List.mem_filterMap.mp (List.mem_of_find?_eq_some hfind)
    obtain ⟨code, hcode, rfl⟩ := Option.map_eq_some_iff.mp hkept
    exact ⟨e, he, by simpa using List.find?_some hfind, hcode⟩
  · rintro ⟨e, he, rfl, hcode⟩
    have hmem : (e.dialog, code) ∈ now.filterMap Opened.kept? := List.mem_filterMap.mpr ⟨e, he, by rw [Opened.kept?, hcode]; rfl⟩
    cases hfind : (now.filterMap Opened.kept?).find? (·.1 = e.dialog) with
    | none => exact absurd (List.find?_eq_none.mp hfind _ hmem) (by simp)
    | some entry =>
      -- an entry under this id belongs to the same prompt
      obtain ⟨e', he', hkept⟩ := List.mem_filterMap.mp (List.mem_of_find?_eq_some hfind)
      obtain ⟨code', hcode', rfl⟩ := Option.map_eq_some_iff.mp hkept
      have hid : e'.dialog = e.dialog := by simpa using List.find?_some hfind
      obtain rfl := List.inj_on_of_nodup_map (h.nodup room) he' he hid
      exact ⟨_, rfl, Option.some.inj (hcode'.symm.trans hcode)⟩

end Entered

/-! ## Moves -/

/-- A move brings in only prompting code. -/
def PromptingMove : Move → Prop
  | .callFacade _ p => Prompting p
  | .perform p => Prompting p
  | _ => True

theorem PromptingMove.starts {s : Session} {m : Move} (admitted : PromptingMove m) (hfarewell : Prompting s.farewell) :
    ∀ p, Starts s m p → Prompting p := by
  refine Starts.all Prompting.notification Prompting.request (fun _ => hfarewell) ?_ ?_
  · rintro tag p rfl
    exact admitted
  · rintro p rfl
    exact admitted

/-- The tasks and the registry are as these prompts have it. -/
structure Prompts (s : Session) (begun now : List Opened) : Prop where
  showing : Showing s now
  entered : Entered s.workspace.dialogs begun now

namespace Prompts

variable {s : Session} {m : Move} {begun now newer older : List Opened} {e : Opened}

theorem begins (h : Prompts s begun now) (sound : Sound s) (begins : e.Begins s m) : Prompts (s.move m) (e :: begun) (e :: now) := by
  obtain ⟨rfl, ⟨role, outer, focus⟩, dialog⟩ := begins
  rw [move_of_running focus]
  exact ⟨h.showing.begins sound focus dialog, h.entered.opened dialog⟩

theorem ends (h : Prompts s begun (newer ++ e :: older)) (sound : Sound s) (ends : e.Ends s m) :
    Prompts (s.move m) begun (newer ++ older) := by
  cases ends with
  | @returns role answer outer step focus =>
    rw [step, move_of_running focus]
    exact ⟨h.showing.returns sound focus, h.entered.closed⟩
  | @dropped tag f gone found task =>
    have hf : f ∈ s.tasks := List.mem_of_find?_eq_some found
    have hat := h.showing.at_of_task sound (e := e) (by simp) (List.mem_append_left _ hf) task
    -- the task waits for the end of this very prompt
    have hrests : e.Rests f := by
      rcases (h.showing.waiting f hf).2 with hcalm | ⟨e', he', hrests⟩
      · exact absurd hat.stage hcalm.no_stage
      · obtain rfl := h.showing.eq_of_task (e := e) (by simp) he' (hrests.task.symm.trans task)
        exact hrests
    obtain ⟨hsingle, hgone⟩ := h.showing.gone_of_single
    have hmove : s.move m = { s.removeTask f.id with workspace := s.workspace.closeDialog e.dialog } := by
      rw [gone, move, abandon, found]
      exact congrArg (fun change : Workspace → Workspace => { s.removeTask f.id with workspace := change s.workspace }) hrests.rests.releaseOf
    rw [hmove]
    have hothers : ∀ other : Opened, other.task ≠ f.id → (other ∈ newer ++ e :: older ↔ other ∈ newer ++ older) := fun other hne =>
      Showing.mem_of_ne_task (task ▸ hne)
    exact ⟨h.showing.drops sound hf hothers (fun other hother => task ▸ hgone other hother) hsingle, h.entered.closed⟩

/-- **What is no beginning and no end of a prompt** leaves all prompts as they are. -/
theorem beside (h : Prompts s begun now) (sound : Sound s) (admitted : PromptingMove m) (nothing : ∀ e : Opened, ¬ e.Begins s m)
    (all : ∀ e ∈ now, ¬ e.Ends s m) : Prompts (s.move m) begun now := by
  cases s.kind_move m with
  | @works id role p outer step focus after =>
    rw [after]
    have hdialogs := congrArg Workspace.dialogs (workspace_runStep s id role outer p)
    rcases (h.showing.at_work focus).2 with hprompting | ⟨e, he, htask, hstage⟩
    · have hother : ∀ prompt : TextPrompt, p ≠ prompt.program := by
        rintro prompt rfl
        exact nothing ⟨id, s.workspace.dialogs.fresh, prompt⟩ ⟨step, ⟨role, outer, focus⟩, rfl⟩
      refine ⟨h.showing.calm sound focus hprompting hother, ?_⟩
      cases hchange : p.change? with
      | none =>
        rw [hchange] at hdialogs
        exact hdialogs ▸ h.entered
      | some change =>
        rw [hchange] at hdialogs
        exact hdialogs ▸ (hprompting.leaves hother hchange s.workspace).symm ▸ h.entered
    · obtain rfl : id = e.task := htask
      generalize hwait : Wait.turn p = wait at hstage
      cases hstage with
      | asks =>
        cases hwait
        exact ⟨h.showing.asks sound he focus, hdialogs ▸ h.entered⟩
      | rests hrests =>
        cases hrests with
        | waits call => cases hwait
        | returns answer =>
          cases hwait
          exact absurd (.returns step focus) (all e he)
  | @drops tag f gone found after =>
    rw [after]
    have hf : f ∈ s.tasks := List.mem_of_find?_eq_some found
    rcases (h.showing.waiting f hf).2 with hcalm | ⟨e, he, hrests⟩
    · have hgone : ∀ e ∈ now, e.task ≠ f.id := fun e he heq =>
        absurd (h.showing.at_of_task sound he (List.mem_append_left _ hf) heq.symm).stage hcalm.no_stage
      have hdialogs : (releaseOf f.wait s.workspace).dialogs = s.workspace.dialogs := hcalm.releaseOf s.workspace
      exact ⟨h.showing.drops sound hf (fun _ _ => Iff.rfl) hgone h.showing.single, hdialogs.symm ▸ h.entered⟩
    · exact absurd (.dropped gone found hrests.task) (all e he)
  | tends _ _ tends lasts =>
    refine ⟨h.showing.tends sound tends lasts (admitted.starts h.showing.farewell), ?_⟩
    rw [tends.workspace]
    exact h.entered

end Prompts

section Histories

variable {setup : Setup} {moves : List Move} {begun now : List Opened}

theorem prompts_after (hfarewell : Prompting setup.farewell) (hmoves : ∀ m ∈ moves, PromptingMove m) (shown : Shown setup moves begun now) :
    Prompts (Chronicle.after setup moves).session begun now := by
  induction shown with
  | nothing =>
    refine ⟨⟨fun _ _ => .finish _, hfarewell, nofun, nofun, nofun, List.nodup_nil⟩, ⟨?_, rfl, List.Sublist.slnil, fun _ => rfl⟩⟩
    intro later e earlier h
    cases later <;> cases h
  | @begins moves m begun now e _ begins ih =>
    rw [Chronicle.after_concat]
    exact (ih fun m' hm' => hmoves m' (List.mem_append_left _ hm')).begins (sound_after setup moves) begins
  | @ends moves m begun newer older e _ ends ih =>
    rw [Chronicle.after_concat]
    exact (ih fun m' hm' => hmoves m' (List.mem_append_left _ hm')).ends (sound_after setup moves) ends
  | @beside moves m begun now _ nothing all ih =>
    rw [Chronicle.after_concat]
    exact (ih fun m' hm' => hmoves m' (List.mem_append_left _ hm')).beside (sound_after setup moves) (hmoves m (by simp)) nothing all

/-- A prompt that was begun has asked the host under its id, or is just about to. -/
theorem asks_or_asked (shown : Shown setup moves begun now) : ∀ e ∈ begun,
    (∃ role outer, (Chronicle.after setup moves).session.focus = .running e.task role (e.prompt.asking e.dialog) outer) ∨
      .link (.invoke e.task "showInputDialog" (e.prompt.arguments e.dialog)) ∈ (Chronicle.after setup moves).log := by
  -- what is on record stays there, and who is about to ask asks with the next step
  have hlater : ∀ (moves : List Move) (m : Move) (e : Opened),
      ((∃ role outer, (Chronicle.after setup moves).session.focus = .running e.task role (e.prompt.asking e.dialog) outer) ∨
        .link (.invoke e.task "showInputDialog" (e.prompt.arguments e.dialog)) ∈ (Chronicle.after setup moves).log) →
      (∃ role outer, (Chronicle.after setup (moves ++ [m])).session.focus = .running e.task role (e.prompt.asking e.dialog) outer) ∨
        .link (.invoke e.task "showInputDialog" (e.prompt.arguments e.dialog)) ∈ (Chronicle.after setup (moves ++ [m])).log := by
    intro moves m e h
    rw [Chronicle.after_concat]
    rcases h with ⟨role, outer, focus⟩ | hmem
    · by_cases hm : m = .step
      · subst hm
        refine Or.inr (List.mem_append_right _ ?_)
        rw [moveDeeds, stepDeeds, focus]
        exact List.mem_singleton_self _
      · exact Or.inl ⟨role, outer, (focus_move hm).trans focus⟩
    · exact Or.inr (List.mem_append_left _ hmem)
  induction shown with
  | nothing => simp
  | @begins moves m begun now e _ begins ih =>
    intro e' he'
    rcases List.mem_cons.mp he' with rfl | he'
    · obtain ⟨rfl, ⟨role, outer, focus⟩, dialog⟩ := begins
      refine Or.inl ⟨role, outer, ?_⟩
      rw [Chronicle.after_concat, dialog]
      exact congrArg Session.focus (move_of_running focus)
    · exact hlater moves m e' (ih e' he')
  | @ends moves m begun newer older e _ _ ih => exact fun e' he' => hlater moves m e' (ih e' he')
  | @beside moves m begun now _ _ _ ih => exact fun e' he' => hlater moves m e' (ih e' he')

/-- A move begins one prompt at most. -/
theorem Shown.length_le (shown : Shown setup moves begun now) : begun.length ≤ moves.length := by
  induction shown with
  | nothing => exact Nat.le_refl 0
  | begins _ _ ih =>
    rw [List.length_append]
    exact Nat.succ_le_succ ih
  | ends _ _ ih =>
    rw [List.length_append]
    exact Nat.le_succ_of_le ih
  | beside _ _ _ ih =>
    rw [List.length_append]
    exact Nat.le_succ_of_le ih

end Histories

/-- The handler of a text change looks the dialog up, and does nothing before. -/
theorem step_textChanged {s : Session} {id : TaskId} {role : Role} {outer : List (Exit → Program)} {method : String} {args : List Value}
    {dialog : UInt64} {text : String} (focus : s.focus = .running id role (Handling.notification method args) outer)
    (reads : Host.Notification.read method args = .ok (some (.textChanged dialog text))) :
    s.move .step = { s with focus := .running id role (match s.workspace.dialogs.callback? dialog with
      | some code => .call code (.text text) fun _ => .finish .done
      | none => .report (.noDialogCallback dialog) (.finish .done)) outer } := by
  have hprogram : Handling.notification method args = Handling.react (.textChanged dialog text) := by
    rw [Handling.notification, reads]
  rw [hprogram] at focus
  rw [move_of_running focus]
  rfl

/-- **Live dialogs and their callbacks.** Every history in which all code has to do with dialogs only by showing prompts tells which prompts
were begun and which of them are in progress. The prompts get the numbers from one on as their ids, in their order, and each asks the host under
its own; each prompt in progress is shown by one unfinished task, and no task shows two. As long as the counter has not come round, no
id is given out twice, and the registry keeps exactly the code of the prompts in progress that have some, each under its id. So a text change
runs the code of the dialog that it names if that is in progress when the handler starts, and no code otherwise. -/
theorem live_dialogs (setup : Setup) (hfarewell : Prompting setup.farewell) (moves : List Move) (hmoves : ∀ m ∈ moves, PromptingMove m) :
    let c := Chronicle.after setup moves
    let s := c.session
    (∃ begun now, Shown setup moves begun now) ∧
    ∀ begun now, Shown setup moves begun now →
      (∀ later e earlier, begun = later ++ e :: earlier → e.dialog = .ofNat (earlier.length + 1)) ∧ now.Sublist begun ∧
      (∀ e ∈ begun, (∃ role outer, s.focus = .running e.task role (e.prompt.asking e.dialog) outer) ∨
        .link (.invoke e.task "showInputDialog" (e.prompt.arguments e.dialog)) ∈ c.log) ∧
      (now.map (·.task)).Nodup ∧ (∀ e ∈ now, ∃ t ∈ s.live, e.At t) ∧
      (begun.length ≤ 2 ^ 64 →
        (begun.map (·.dialog)).Nodup ∧
        s.workspace.dialogs.callbacks = now.filterMap Opened.kept? ∧
        ∀ id role outer method args dialog text, s.focus = .running id role (Handling.notification method args) outer →
          Host.Notification.read method args = .ok (some (.textChanged dialog text)) →
          (∀ e ∈ now, e.dialog = dialog → ∀ code, e.prompt.callback = some code →
            ∃ next, ((s.move .step).move .step).focus = .running id role (s.codeOf code (.text text)) (next :: outer)) ∧
          ((∀ e ∈ now, e.dialog = dialog → e.prompt.callback = none) →
            (s.move .step).focus = .running id role (.report (.noDialogCallback dialog) (.finish .done)) outer)) := by
  intro c s
  refine ⟨exists_shown setup moves, fun begun now shown => ?_⟩
  obtain ⟨showing, entered⟩ : Prompts s begun now := prompts_after hfarewell hmoves shown
  refine ⟨entered.numbered, entered.among, asks_or_asked shown, showing.single, fun e he => (showing.going e he).2, fun room => ?_⟩
  refine ⟨nodup_of_numbered room entered.numbered, entered.callbacks room, fun id role outer method args dialog text focus reads => ?_⟩
  rw [step_textChanged focus reads]
  constructor
  · intro e he hdialog code hcode
    rw [(entered.callback?_eq_some_iff room).mpr ⟨e, he, hdialog, hcode⟩]
    exact ⟨_, rfl⟩
  · intro hnone
    have hmiss : s.workspace.dialogs.callback? dialog = none := by
      rw [Option.eq_none_iff_forall_ne_some]
      intro code hsome
      obtain ⟨e, he, hdialog, hcode⟩ := (entered.callback?_eq_some_iff room).mp hsome
      cases (hnone e he hdialog).symm.trans hcode
    rw [hmiss]

/-- An extension that shows a prompt and notes its texts. -/
def asker (title : String) : Program :=
  Facade.inputDialog title "" "" (some fun _ => .record .null (.finish .done)) fun _ => .finish .done

theorem prompting_asker (title : String) : Prompting (asker title) := by
  refine .inputDialog ?_ fun _ => .finish _
  rintro code ⟨⟩ input
  exact .record (.finish _)

/-- Two prompts are shown at once, the task of the first is dropped, and the text of the second changes. -/
def overlap : List Move :=
  [.callFacade "a" (asker "A"), .callFacade "b" (asker "B")] ++ List.replicate 14 .step ++
    [.abandon "a", .perform (Handling.notification "InputDialog.textValueChanged" [.nat 2, .string "x"]), .step]

theorem second_prompt_hears_its_text :
    let s := (Chronicle.after {} overlap).session
    ∃ begun now, Shown {} overlap begun now ∧ now.filterMap Opened.kept? = [(2, 1)] ∧
      ∃ next, ((s.move .step).move .step).focus = .running 2 .direct (s.codeOf 1 (.text "x")) [next] := by
  have hmoves : ∀ m ∈ overlap, PromptingMove m := by
    simp [overlap, PromptingMove, prompting_asker, Prompting.notification]
  obtain ⟨⟨begun, now, shown⟩, hshown⟩ := live_dialogs {} (.finish _) overlap hmoves
  have room : begun.length ≤ 2 ^ 64 := Nat.le_trans shown.length_le (by decide)
  obtain ⟨-, -, -, -, -, hregistry⟩ := hshown begun now shown
  obtain ⟨-, hcallbacks, htexts⟩ := hregistry room
  have hkept : now.filterMap Opened.kept? = [(2, 1)] := hcallbacks.symm.trans rfl
  refine ⟨begun, now, shown, hkept, ?_⟩
  obtain ⟨hruns, -⟩ := htexts 2 .direct [] "InputDialog.textValueChanged" [.nat 2, .string "x"] 2 "x" rfl rfl
  obtain ⟨e, he, hkeeps⟩ := List.mem_filterMap.mp (hkept ▸ List.mem_singleton_self (2, 1))
  obtain ⟨code, hcode, hentry⟩ := Option.map_eq_some_iff.mp hkeeps
  obtain ⟨hdialog, rfl⟩ := Prod.mk.inj hentry
  exact hruns e he hdialog 1 hcode

end EditorLink.Session
