import EditorLink.Proofs.Extension.Candor
import EditorLink.Proofs.Session.Replies
import EditorLink.Proofs.Session.Verdict

/-!
# EditorLink.Proofs.Extension.Announcements -- what the host knows of registrations

What a session has put on the queue for the host is on record. While all its code is candid, what the workspace knows is what the host
will know once it has heard all that and the debt of the program at work is paid (`Ledger`). So whenever no registration is under way, the
host's view is that of the workspace, as soon as it has heard what is on its way to it.
-/

namespace EditorLink.Session

open Extension

/-! ## Notifications on record -/

/-- The notifications among some deeds. -/
def notices (deeds : List Deed) : List (String × List Value) :=
  (acts deeds).filterMap fun a => a.posts?.bind Message.notification?

theorem notices_append (deeds more : List Deed) : notices (deeds ++ more) = notices deeds ++ notices more := by
  rw [notices, acts_append, List.filterMap_append]
  rfl

/-- The notifications that were put on the queue are those on record. -/
theorem posted_notices (setup : Setup) (moves : List Move) :
    (Chronicle.after setup moves).posted.filterMap Message.notification? = notices (Chronicle.after setup moves).log := by
  rw [posted_eq_queued]
  exact Exchange.queued_after (fun _ _ _ => rfl) _

theorem notices_leaveDeeds (t : TaskId) (role : Role) (exit : Exit) (outer : List (Exit → Program)) :
    notices (leaveDeeds t role exit outer) = [] := by
  cases outer with
  | nil =>
    rw [leaveDeeds]
    cases role.reply? exit <;> rfl
  | cons next outer => cases outer <;> rfl

theorem notices_requestDeeds (s : Session) (id : UInt32) (method : String) (args : List Value) :
    notices (s.requestDeeds id method args) = [] := by
  unfold requestDeeds
  split <;> rfl

/-- The notification that a program is about to send. -/
def notifying? (p : Program) : Option (String × List Value) :=
  match p with
  | .notify method args _ => some (method, args)
  | _ => none

theorem notices_runDeeds (s : Session) (t : TaskId) (role : Role) (outer : List (Exit → Program)) (p : Program) :
    notices (s.runDeeds t role outer p) = (notifying? p).toList := by
  cases p with
  | finish e => exact notices_leaveDeeds ..
  | panic text => exact notices_leaveDeeds ..
  | access change next =>
    rw [runDeeds]
    split <;> rfl
  | _ => rfl

theorem notices_readDeeds (s : Session) (received : Wire.Received) : notices (s.readDeeds received) = [] := by
  cases received with
  | message m =>
    cases m with
    | reply id outcome => rfl
    | notify method args =>
      rw [readDeeds]
      split <;> rfl
    | request id method args =>
      rw [readDeeds, notices_append, notices_requestDeeds]
      split <;> rfl
  | _ => rfl

theorem notices_writeDeeds (s : Session) : notices s.writeDeeds = [] := by
  unfold writeDeeds
  split
  · rfl
  · split <;> rfl

/-- **Only programs notify the host.** -/
theorem notices_move (s : Session) (m : Move) :
    notices (s.moveDeeds m) = [] ∨
    ∃ id role p outer, m = .step ∧ s.focus = .running id role p outer ∧ notices (s.moveDeeds m) = (notifying? p).toList := by
  cases m with
  | step =>
    rw [moveDeeds, stepDeeds]
    cases hfocus : s.focus with
    | reading => exact Or.inl (s.notices_readDeeds _)
    | writing => exact Or.inl s.notices_writeDeeds
    | running id role p outer => exact Or.inr ⟨id, role, p, outer, rfl, rfl, s.notices_runDeeds ..⟩
    | idle =>
      refine Or.inl ?_
      cases s.ready with
      | nil => rfl
      | cons turn rest =>
        cases turn with
        | reader =>
          simp only [beginDeeds]
          split <;> rfl
        | _ => rfl
  | abandon tag =>
    refine Or.inl ?_
    rw [moveDeeds]
    cases s.tasks.find? (hasTag tag) <;> rfl
  | handOver id method args => exact Or.inl (s.notices_requestDeeds ..)
  | _ => exact Or.inl rfl

/-! ## The ledger -/

/-- What goes on right now has a debt; nobody has none. -/
structure InDebt (s : Session) (d : Debt) : Prop where
  owes : ∀ {id role p outer}, s.focus = .running id role p outer → Owes d p
  nobody : s.focus.task? = none → d = .clear

/-- What the workspace knows is what the host will know once the debt is paid. -/
def Ledger (s : Session) (v : HostView) : Prop :=
  ∃ d, InDebt s d ∧ registered s.workspace = d.settle v

section Ledger

variable {s s' : Session} {v : HostView} {d : Debt} {id : TaskId} {role : Role} {p : Program} {outer : List (Exit → Program)}

theorem inDebt_running (hfocus : s.focus = .running id role p outer) (h : Owes d p) : InDebt s d where
  owes := by
    intro id' role' p' outer' hfocus'
    cases hfocus.symm.trans hfocus'
    exact h
  nobody := by
    intro hnobody
    rw [hfocus] at hnobody
    cases hnobody

theorem inDebt_idle (hfocus : s.focus = .idle) : InDebt s .clear where
  owes := fun hrunning => by cases hfocus.symm.trans hrunning
  nobody := fun _ => rfl

theorem inDebt_leave (houter : paying.Outer outer) (exit : Exit) : InDebt (s.leave id role exit outer) .clear := by
  cases outer with
  | nil =>
    obtain ⟨due, journal, writerDue, inFlight, runEnd, hconclude⟩ := conclude_spec { s with focus := .idle } exit role
    rw [leave, hconclude]
    exact inDebt_idle rfl
  | cons next outer => exact inDebt_running rfl (houter next List.mem_cons_self exit)

theorem registered_addCommand (w : Workspace) (name : String) (code : Registry.CodeId) :
    registered (w.addCommand name code) = { registered w with commands := insert name (registered w).commands } := by
  simp only [registered, Workspace.addCommand, Keyed.keys_insert]

theorem registered_addContext (w : Workspace) (name : String) (code : Registry.CodeId) :
    registered (w.addContext name code) = { registered w with contexts := insert name (registered w).contexts } := by
  simp only [registered, Workspace.addContext, Keyed.keys_insert]

theorem registered_dropContext (w : Workspace) (name : String) :
    registered (w.dropContext name) = { registered w with contexts := (registered w).contexts.erase name } := by
  simp only [registered, Workspace.dropContext, Keyed.keys_erase]

/-- A program looks at the workspace and changes it. -/
theorem ledger_access {change : Workspace → Workspace} {next : Workspace → Program} (h : Owes d (.access change next)) {w : Workspace}
    (balanced : registered w = d.settle v) : ∃ d', Owes d' (next w) ∧ registered (change w) = d'.settle v := by
  rcases h.access_cases with ⟨quiet, hnext⟩ | ⟨names, name, code, rfl, rfl, hnext⟩ | ⟨name, code, rfl, rfl, hnext⟩ | ⟨name, rfl, rfl, hnext⟩
  · exact ⟨d, hnext w, (registered_congr (quiet w)).trans balanced⟩
  · refine ⟨_, hnext w, ?_⟩
    rw [registered_addCommand, balanced]
    simp [Debt.settle, Finset.insert_union]
  · refine ⟨_, hnext w, ?_⟩
    rw [registered_addContext, balanced, Debt.settle_clear]
    rfl
  · refine ⟨_, hnext w, ?_⟩
    rw [registered_dropContext, balanced, Debt.settle_clear]
    rfl

/-- A program tells the host something, which pays its debt or has nothing to do with it. -/
theorem ledger_notify {method : String} {args : List Value} {next : Program} (h : Owes d (.notify method args next)) {w : HostView}
    (balanced : w = d.settle v) : ∃ d', Owes d' next ∧ w = d'.settle (v.learn method args) := by
  rcases h.notify_cases with ⟨other, hnext⟩ | ⟨hnext, ⟨names, rfl, rfl, rfl⟩ | ⟨name, rfl, rfl, rfl⟩ | ⟨name, rfl, rfl, rfl⟩⟩
  · exact ⟨d, hnext, by rw [HostView.learn_other other, balanced]⟩
  · refine ⟨_, hnext, balanced.trans ?_⟩
    simp [Debt.settle, HostView.learn, Finset.union_comm]
  · refine ⟨_, hnext, balanced.trans ?_⟩
    simp [Debt.settle, HostView.learn]
  · refine ⟨_, hnext, balanced.trans ?_⟩
    simp [Debt.settle, HostView.learn, Finset.sdiff_singleton_eq_erase]

/-- What the host knows after what a program does next. -/
def HostView.afterStep (v : HostView) (p : Program) : HostView :=
  (notifying? p).toList.foldl (fun v n => v.learn n.1 n.2) v

/-- **The ledger stays balanced while a program works.** -/
theorem ledger_runStep (abides : paying.Abides s) (houter : paying.Outer outer) (h : Owes d p) (balanced : registered s.workspace = d.settle v) :
    Ledger (s.runStep id role outer p) (HostView.afterStep v p) := by
  cases p with
  | finish e =>
    cases h
    exact ⟨.clear, inDebt_leave houter _, by rw [runStep, (leave_frame ..).1]; exact balanced⟩
  | panic text =>
    cases h
    exact ⟨.clear, inDebt_leave houter _, by rw [runStep, (leave_frame ..).1]; exact balanced⟩
  | record entry next =>
    cases h with
    | record h => exact ⟨d, inDebt_running rfl h, balanced⟩
  | report notice next =>
    cases h with
    | report h => exact ⟨d, inDebt_running rfl h, balanced⟩
  | access change next =>
    obtain ⟨d', hnext, hbalanced⟩ := ledger_access h balanced
    exact ⟨d', inDebt_running rfl hnext, hbalanced⟩
  | ensure change next =>
    cases h with
    | ensure quiet h => exact ⟨d, inDebt_running rfl h, (registered_congr (quiet s.workspace)).trans balanced⟩
  | keep code next =>
    cases h with
    | keep _ h => exact ⟨d, inDebt_running rfl (h s.code.size), balanced⟩
  | run code input next =>
    cases h with
    | run h => exact ⟨.clear, inDebt_running rfl (abides.code code input), balanced⟩
  | notify method args next =>
    obtain ⟨d', hnext, hbalanced⟩ := ledger_notify h balanced
    rw [runStep, sending_eq]
    exact ⟨d', inDebt_running rfl hnext, hbalanced⟩
  | invoke method args release next =>
    have hsame := h
    cases h with
    | invoke _ h =>
      rw [runStep]
      split
      · exact ⟨.clear, inDebt_running rfl hsame, balanced⟩
      · exact ⟨.clear, inDebt_running rfl (h _), balanced⟩
      · rw [sending_eq]
        exact ⟨.clear, inDebt_idle rfl, balanced⟩
  | await gate next =>
    cases h with
    | await h =>
      rw [runStep]
      split
      · exact ⟨.clear, inDebt_running rfl h, balanced⟩
      · exact ⟨.clear, inDebt_idle rfl, balanced⟩

/-- **The ledger stays balanced in every move.** -/
theorem ledger_move (abides : paying.Abides s) {m : Move} (admitted : paying.Admits m) (hfarewell : paying.rest s.farewell)
    {notifications : List (String × List Value)} (h : Ledger s (.informed notifications)) :
    Ledger (s.move m) (.informed (notifications ++ notices (s.moveDeeds m))) := by
  obtain ⟨d, hdebt, hbalanced⟩ := h
  have hsilent : notices (s.moveDeeds m) = [] → HostView.informed (notifications ++ notices (s.moveDeeds m)) = .informed notifications := by
    intro hnone
    rw [hnone, List.append_nil]
  by_cases hstep : m = .step
  · subst hstep
    cases hfocus : s.focus with
    | running id role p outer =>
      obtain ⟨-, houter⟩ := abides.works hfocus
      have hmove : s.move .step = s.runStep id role outer p := by
        rw [move, step, hfocus]
        rfl
      have hnotices : notices (s.moveDeeds .step) = (notifying? p).toList := by
        rw [moveDeeds, stepDeeds, hfocus]
        exact s.notices_runDeeds ..
      rw [hmove, hnotices, HostView.informed, List.foldl_append]
      exact ledger_runStep abides houter (hdebt.owes hfocus) hbalanced
    | _ =>
      -- nobody works, so that nothing is owed
      have hnobody : s.focus.task? = none := by
        rw [hfocus]
        rfl
      obtain rfl := hdebt.nobody hnobody
      have htends := tends_move (m := .step) (fun _ => hnobody) fun tag h => by cases h
      rw [hsilent ?_]
      · refine ⟨.clear, ⟨fun hrunning => ?_, fun _ => rfl⟩, ?_⟩
        · rcases abides.works_of_tends (admitted.starts fun _ => hfarewell) htends hrunning with hbefore | ⟨hrest, -⟩
          · cases hfocus.symm.trans hbefore
          · exact hrest
        · rw [htends.workspace]
          exact hbalanced
      · rcases notices_move s .step with hnone | ⟨id, role, p, outer, -, hrunning, -⟩
        · exact hnone
        · cases hfocus.symm.trans hrunning
  · have hfocus : (s.move m).focus = s.focus := focus_move hstep
    have hnone : notices (s.moveDeeds m) = [] := by
      rcases notices_move s m with hnone | ⟨id, role, p, outer, rfl, -⟩
      · exact hnone
      · exact absurd rfl hstep
    rw [hsilent hnone]
    refine ⟨d, ⟨fun hrunning => hdebt.owes (hfocus ▸ hrunning), fun hnobody => hdebt.nobody (hfocus ▸ hnobody)⟩, ?_⟩
    rw [← hbalanced]
    refine registered_congr ?_
    rcases workspace_move s m with hsame | ⟨id, role, p, change, outer, rfl, -⟩ | ⟨t, ht, hrelease⟩
    · rw [hsame]
    · exact absurd rfl hstep
    · rw [hrelease]
      rcases Rule.Waits.releaseOf (abides.tasks t ht).1 with hnothing | hquiet
      · rw [hnothing]
        rfl
      · exact hquiet s.workspace

end Ledger

/-! ## Whole histories -/

/-- A move brings in only candid code. -/
def CandidMove : Move → Prop
  | .callFacade _ p => Candid p
  | .perform p => Candid p
  | _ => True

theorem CandidMove.admitted {m : Move} (h : CandidMove m) : paying.Admits m := by
  cases m with
  | callFacade tag p => exact Candid.owes h
  | perform p => exact Candid.owes h
  | _ => trivial

/-- No registration is under way: what works, if anything does, stands between calls. -/
def Between (s : Session) : Prop :=
  ∀ id role p outer, s.focus = .running id role p outer → Candid p

/-- What the workspace must know for the host to be told. -/
def Reflected (w : Workspace) (method : String) (args : List Value) : Prop :=
  (method = "registerCommands" → ∀ name ∈ namesIn args, (w.commands.get? name).isSome) ∧
  (method = "registerContext" → ∀ name ∈ namesIn args, (w.contexts.get? name).isSome) ∧
  (method = "unregisterContext" → ∀ name ∈ namesIn args, w.contexts.get? name = none)

/-- A message tells the host of a name by a method. -/
def Tells (m : Message) (method name : String) : Prop :=
  ∃ args, m.notification? = some (method, args) ∧ name ∈ namesIn args

section Histories

variable {setup : Setup} {moves : List Move}

theorem paying_after (hfarewell : Candid setup.farewell) (hmoves : ∀ m ∈ moves, CandidMove m) :
    let c := Chronicle.after setup moves
    paying.Abides c.session ∧ Ledger c.session (.informed (notices c.log)) ∧ c.session.farewell = setup.farewell := by
  induction moves using List.reverseRecOn with
  | nil =>
    refine ⟨⟨fun _ _ => .finish _, by simp [ofSetup], by simp [ofSetup]⟩, ⟨.clear, inDebt_idle rfl, rfl⟩, rfl⟩
  | append_singleton moves m ih =>
    obtain ⟨habides, hledger, hsame⟩ := ih fun m' hm' => hmoves m' (List.mem_append_left _ hm')
    have hadmitted := (hmoves m (by simp)).admitted
    have hrest : paying.rest (Chronicle.after setup moves).session.farewell := hsame ▸ hfarewell.owes
    intro c
    have hafter : c = (Chronicle.after setup moves).move m := Chronicle.after_concat ..
    rw [hafter]
    refine ⟨habides.move hadmitted fun _ => hrest, ?_, (farewell_move _ m).trans hsame⟩
    rw [show ((Chronicle.after setup moves).move m).log = _ ++ _ from rfl, notices_append]
    exact ledger_move habides hadmitted hrest hledger

theorem host_knows (setup : Setup) (moves : List Move) :
    HostView.after (Chronicle.after setup moves).posted = .informed (notices (Chronicle.after setup moves).log) := by
  rw [HostView.after_eq_informed, posted_notices]

/-- What a program is about to tell is known to the workspace. -/
theorem reflected_of_owes {d : Debt} {method : String} {args : List Value} {next : Program} {w : Workspace} {v : HostView}
    (h : Owes d (.notify method args next)) (balanced : registered w = d.settle v) : Reflected w method args := by
  have hcommands : ∀ name, (w.commands.get? name).isSome ↔ name ∈ (registered w).commands := by
    intro name
    rw [Keyed.isSome_get?_iff, registered, List.mem_toFinset]
  have hcontexts : ∀ name, (w.contexts.get? name).isSome ↔ name ∈ (registered w).contexts := by
    intro name
    rw [Keyed.isSome_get?_iff, registered, List.mem_toFinset]
  rcases h.notify_cases with ⟨other, -⟩ | ⟨-, ⟨names, rfl, rfl, rfl⟩ | ⟨name, rfl, rfl, rfl⟩ | ⟨name, rfl, rfl, rfl⟩⟩
  · refine ⟨?_, ?_, ?_⟩
    · rintro rfl
      exact absurd (by decide) other
    · rintro rfl
      exact absurd (by decide) other
    · rintro rfl
      exact absurd (by decide) other
  · refine ⟨fun _ name hname => ?_, fun h => absurd h (by decide), fun h => absurd h (by decide)⟩
    rw [hcommands, balanced]
    simpa [Debt.settle] using Or.inl hname
  · refine ⟨fun h => absurd h (by decide), fun _ name hname => ?_, fun h => absurd h (by decide)⟩
    rw [hcontexts, balanced]
    simpa [Debt.settle] using Or.inl hname
  · refine ⟨fun h => absurd h (by decide), fun h => absurd h (by decide), fun _ name hname => ?_⟩
    rw [← Option.not_isSome_iff_eq_none, hcontexts, balanced]
    simp only [namesIn_string, List.mem_singleton] at hname
    simp [Debt.settle, hname]

theorem hear_eq_of_some {v : HostView} {m : Message} {method : String} {args : List Value} (h : m.notification? = some (method, args)) :
    v.hear m = v.learn method args := by
  rw [HostView.hear, h]

/-- The host forgets no command, and learns those that it is told of. -/
theorem mem_commands_hear {v : HostView} {m : Message} {name : String} (h : name ∈ v.commands ∨ Tells m "registerCommands" name) :
    name ∈ (v.hear m).commands := by
  rcases h with hknown | ⟨args, hm, hname⟩
  · cases hm : m.notification? with
    | none => rwa [HostView.hear, hm]
    | some notification =>
      rw [hear_eq_of_some hm, HostView.learn]
      split
      · exact Finset.mem_union_left _ hknown
      · split_ifs <;> exact hknown
  · rw [hear_eq_of_some hm, HostView.learn, if_pos rfl]
    exact Finset.mem_union_right _ (List.mem_toFinset.mpr hname)

/-- The host learns the contexts that it is told of, and forgets them only when it is told so. -/
theorem mem_contexts_hear {v : HostView} {m : Message} {name : String}
    (h : (name ∈ v.contexts ∧ ¬ Tells m "unregisterContext" name) ∨ Tells m "registerContext" name) : name ∈ (v.hear m).contexts := by
  rcases h with ⟨hknown, hkept⟩ | ⟨args, hm, hname⟩
  · cases hm : m.notification? with
    | none => rwa [HostView.hear, hm]
    | some notification =>
      obtain ⟨method, args⟩ := notification
      rw [hear_eq_of_some hm, HostView.learn]
      split
      · exact hknown
      · split
        · exact Finset.mem_union_left _ hknown
        · split
          · next hmethod =>
            refine Finset.mem_sdiff.mpr ⟨hknown, fun hname => hkept ⟨args, ?_, List.mem_toFinset.mp hname⟩⟩
            rw [hm, hmethod]
          · exact hknown
  · rw [hear_eq_of_some hm, HostView.learn, if_neg (by decide), if_pos rfl]
    exact Finset.mem_union_right _ (List.mem_toFinset.mpr hname)

theorem mem_commands_foldl {name : String} (messages : List Message) {v : HostView} (h : name ∈ v.commands) :
    name ∈ (messages.foldl HostView.hear v).commands := by
  induction messages generalizing v with
  | nil => exact h
  | cons m rest ih => exact ih (mem_commands_hear (Or.inl h))

theorem mem_contexts_foldl {name : String} {messages : List Message} {v : HostView} (h : name ∈ v.contexts)
    (kept : ∀ m ∈ messages, ¬ Tells m "unregisterContext" name) : name ∈ (messages.foldl HostView.hear v).contexts := by
  induction messages generalizing v with
  | nil => exact h
  | cons m rest ih =>
    exact ih (mem_contexts_hear (Or.inl ⟨h, kept m List.mem_cons_self⟩)) fun m' hm' => kept m' (List.mem_cons_of_mem m hm')

/-- Whenever no registration is under way, the host has been told what the workspace knows. -/
theorem told_of_between (hfarewell : Candid setup.farewell) (hmoves : ∀ m ∈ moves, CandidMove m)
    (between : Between (Chronicle.after setup moves).session) :
    HostView.after (Chronicle.after setup moves).posted = registered (Chronicle.after setup moves).session.workspace := by
  obtain ⟨-, ⟨d, hdebt, hbalanced⟩, -⟩ := paying_after hfarewell hmoves
  have hclear : d = .clear := by
    cases hfocus : (Chronicle.after setup moves).session.focus with
    | running id role p outer => exact (between id role p outer hfocus).debt (hdebt.owes hfocus)
    | _ => exact hdebt.nobody (by rw [hfocus]; rfl)
  rw [host_knows, hbalanced, hclear, Debt.settle_clear]

/-- The workspace reflects what is put on the queue next. -/
theorem reflected_next (hfarewell : Candid setup.farewell) (hmoves : ∀ m ∈ moves, CandidMove m) {m : Move} {method : String} {args : List Value}
    (posts : (Chronicle.after setup (moves ++ [m])).posted.filterMap Message.notification? =
      (Chronicle.after setup moves).posted.filterMap Message.notification? ++ [(method, args)]) :
    Reflected (Chronicle.after setup moves).session.workspace method args := by
  obtain ⟨-, ⟨d, hdebt, hbalanced⟩, -⟩ := paying_after hfarewell hmoves
  rw [posted_notices, posted_notices, Chronicle.after_concat,
    show ((Chronicle.after setup moves).move m).log = _ ++ _ from rfl, notices_append, List.append_cancel_left_eq] at posts
  rcases notices_move (Chronicle.after setup moves).session m with hnone | ⟨id, role, p, outer, -, hfocus, hnotices⟩
  · cases hnone.symm.trans posts
  · have hnext := hnotices.symm.trans posts
    have howes := hdebt.owes hfocus
    cases p with
    | notify method' args' next =>
      cases hnext
      exact reflected_of_owes howes hbalanced
    | _ => cases hnext

end Histories

/-! ## Calls -/

theorem comes_reports (s : Session) (notices : List Notice) (next : Program) : ∃ s', Comes s (.reports notices next) s' next := by
  induction notices generalizing s with
  | nil => exact ⟨s, .here s next⟩
  | cons n rest ih =>
    obtain ⟨s', hrest⟩ := ih (s.report n)
    exact ⟨s', .report hrest⟩

theorem comes_registerFrom (names : List String) (next : Program) (commands : List (String × (Input → Program))) (s : Session) :
    ∃ s', Comes s (Facade.registerFrom names next commands) s' next := by
  induction commands generalizing names s with
  | nil => exact ⟨_, .report (.notify (.here _ next))⟩
  | cons c rest ih =>
    obtain ⟨name, code⟩ := c
    let kept : Session := { s with code := s.code.push code }
    let added : Session := { kept with workspace := kept.workspace.addCommand name s.code.size }
    obtain ⟨t, hreports⟩ := comes_reports added (Facade.replacement s.workspace name) (Facade.registerFrom (name :: names) next rest)
    obtain ⟨s', hrest⟩ := ih (name :: names) t
    exact ⟨s', .keep (.access (hreports.trans hrest))⟩

/-- A program goes on to another one without giving way to anybody. -/
def GoesOnTo (p next : Program) : Prop :=
  ∀ s : Session, ∃ s' : Session, ∀ t role outer, Leads (s.during t role p outer) (s'.during t role next outer)

theorem GoesOnTo.of_comes {p next : Program} (h : ∀ s, ∃ s', Comes s p s' next) : GoesOnTo p next := by
  intro s
  obtain ⟨s', hcomes⟩ := h s
  exact ⟨s', hcomes.steps⟩

/-- **The host's view of registrations is that of the workspace.** In every history in which all code registers commands and contexts by the
facade's operations only, whenever no registration is under way, the registrations that were put on the queue leave the host with
exactly the names that the workspace knows. What is put on the queue is reflected by the workspace already. So a name that the host was
told of is found when it is looked up, unless the end of its registration is on the queue behind. Registrations go on to what
follows them without a wait, and the loader does nothing in this that extensions do not do. -/
theorem host_view_is_registered (setup : Setup) (hfarewell : Candid setup.farewell) (moves : List Move)
    (hmoves : ∀ m ∈ moves, CandidMove m) :
    let c := Chronicle.after setup moves
    let w := c.session.workspace
    (Between c.session →
      HostView.after c.posted = registered w ∧
      ∀ earlier m later name, c.posted = earlier ++ m :: later →
        (Tells m "registerCommands" name → (w.commands.get? name).isSome) ∧
        (Tells m "registerContext" name →
          (w.contexts.get? name).isSome ∨ ∃ m' ∈ later, Tells m' "unregisterContext" name)) ∧
    (∀ m method args, (Chronicle.after setup (moves ++ [m])).posted.filterMap Message.notification? =
        c.posted.filterMap Message.notification? ++ [(method, args)] → Reflected w method args) ∧
    (∀ next, (∀ commands, GoesOnTo (Facade.registerCommands commands next) next) ∧
      (∀ name code, GoesOnTo (Facade.registerCommand name code next) next) ∧
      (∀ name code, GoesOnTo (Facade.registerContext name code next) next) ∧
      ∀ name, GoesOnTo (Facade.unregisterContext name next) next) ∧
    ∀ catalog, CandidCatalog catalog →
      (∀ files roots k, (∀ n, Candid (k n)) → Candid (Loading.loadRoots files catalog roots k)) ∧
      ∀ next, Candid next → Candid (Loading.deactivateAll catalog next) := by
  intro c w
  refine ⟨fun between => ?_, fun m method args posts => reflected_next hfarewell hmoves posts, fun next => ⟨?_, ?_, ?_, ?_⟩,
    fun catalog hcatalog => ⟨fun files roots k hk => candid_loadRoots hcatalog roots hk, fun next h => candid_deactivateAll hcatalog h⟩⟩
  · have hview : HostView.after c.posted = registered w := told_of_between hfarewell hmoves between
    refine ⟨hview, fun earlier m later name hposted => ⟨fun htells => ?_, fun htells => ?_⟩⟩
    · rw [Keyed.isSome_get?_iff, ← List.mem_toFinset]
      show name ∈ (registered w).commands
      rw [← hview, hposted, HostView.after, List.foldl_append, List.foldl_cons]
      exact mem_commands_foldl later (mem_commands_hear (Or.inr htells))
    · by_cases hgone : ∃ m' ∈ later, Tells m' "unregisterContext" name
      · exact Or.inr hgone
      · refine Or.inl ?_
        rw [Keyed.isSome_get?_iff, ← List.mem_toFinset]
        show name ∈ (registered w).contexts
        rw [← hview, hposted, HostView.after, List.foldl_append, List.foldl_cons]
        exact mem_contexts_foldl (mem_contexts_hear (Or.inr htells)) fun m' hm' htold => hgone ⟨m', hm', htold⟩
  · exact fun commands => .of_comes (comes_registerFrom [] next commands)
  · exact fun name code => .of_comes (comes_registerFrom [] next [(name, code)])
  · exact fun name code => .of_comes fun s => ⟨_, .keep (.access (.notify (.here _ next)))⟩
  · exact fun name => .of_comes fun s => ⟨_, .access (.notify (.here _ next))⟩

/-- An extension that registers a context and three commands, two of them under one name, and waits at a gate before the context goes again,
and with it one that nobody registered. -/
def announcer : Program :=
  Facade.registerContext "x" (fun _ => .finish .done) <|
    Facade.registerCommands [("a", fun _ => .finish .done), ("b", fun _ => .finish .done), ("a", fun _ => .finish .done)] <|
      .await "g" <| Facade.unregisterContext "x" <| Facade.unregisterContext "y" (.finish .done)

theorem candid_announcer : Candid announcer :=
  .registerContext (fun _ => .finish _) <|
    .registerCommands (by simpa using fun _ => .finish _) <|
      .await <| .unregisterContext <| .unregisterContext (.finish _)

/-- What the host was told stays true up to the gate; behind it the context is gone in both places, and the end of its registration is the
reason why its announcement leads to nothing. -/
theorem host_told_and_untold :
    let waiting := Chronicle.after {} (.callFacade "t" announcer :: List.replicate 16 .step)
    let done := Chronicle.after {} ((.callFacade "t" announcer :: List.replicate 16 .step) ++ .openGate "g" :: List.replicate 20 .step)
    HostView.after waiting.posted = registered waiting.session.workspace ∧
    (registered waiting.session.workspace).commands = {"a", "b"} ∧ (registered waiting.session.workspace).contexts = {"x"} ∧
    HostView.after done.posted = registered done.session.workspace ∧
    (registered done.session.workspace).contexts = ∅ ∧ ∃ m ∈ done.posted, Tells m "unregisterContext" "x" := by
  have hcandid : ∀ m ∈ (.callFacade "t" announcer :: List.replicate 16 .step) ++ Move.openGate "g" :: List.replicate 20 .step, CandidMove m := by
    simp [candid_announcer, CandidMove]
  intro waiting done
  have hwaiting : waiting.session.focus = .idle := rfl
  have hdone : done.session.focus = .idle := rfl
  have hidle : ∀ s : Session, s.focus = .idle → Between s := fun s hidle id role p outer hrunning => by cases hidle.symm.trans hrunning
  obtain ⟨hfirst, -⟩ := host_view_is_registered {} (.finish _) _ fun m hm => hcandid m (List.mem_append_left _ hm)
  obtain ⟨hsecond, -⟩ := host_view_is_registered {} (.finish _) _ hcandid
  obtain ⟨hview, -⟩ := hfirst (hidle _ hwaiting)
  obtain ⟨hview', htells⟩ := hsecond (hidle _ hdone)
  have hnames : waiting.session.workspace.commands.keys = ["a", "b"] ∧ waiting.session.workspace.contexts.keys = ["x"] ∧
      done.session.workspace.contexts.keys = [] := ⟨rfl, rfl, rfl⟩
  obtain ⟨hcommands, hcontexts, hgone⟩ := hnames
  refine ⟨hview, by rw [registered, hcommands]; rfl, by rw [registered, hcontexts]; rfl, hview', by rw [registered, hgone]; rfl, ?_⟩
  have hmiss : ¬ (done.session.workspace.contexts.get? "x").isSome := by
    rw [Keyed.isSome_get?_iff, hgone]
    exact List.not_mem_nil
  -- the announcement of the context is the first message
  obtain ⟨later, hposted⟩ : ∃ later, done.posted = [] ++ .notify "registerContext" [.string "x"] :: later := ⟨_, rfl⟩
  rcases (htells [] _ later "x" hposted).2 ⟨_, rfl, List.mem_singleton_self _⟩ with hfound | ⟨m, hm, htold⟩
  · exact absurd hfound hmiss
  · exact ⟨m, by rw [hposted]; exact List.mem_append_right _ (List.mem_cons_of_mem _ hm), htold⟩

end EditorLink.Session
