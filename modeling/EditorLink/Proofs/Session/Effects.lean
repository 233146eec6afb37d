import EditorLink.Proofs.Session.Delivery
import EditorLink.Proofs.Session.Order

/-!
# EditorLink.Proofs.Session.Effects -- arrival order is effect order

Programs register things and queue messages, and a handler that ends queues its reply. All that happens in their own turns: what the
reader, the writer, the host and the embedding program do beside them leaves what is registered alone and adds nothing to the queue
(`Inert`). So the order of the work is the order of its effects; and handlers that never wait have theirs in the order in which their
messages arrived, their replies among them.
-/

namespace EditorLink.Session

open Extension Wire

/-! ## What happens while nobody works -/

/-- Nothing was registered or queued; the writer may have taken something from the queue. -/
structure Inert (s s' : Session) : Prop where
  workspace : s'.workspace = s.workspace
  code : s'.code = s.code
  queue : s'.link.outbound <:+ s.link.outbound

namespace Inert

/-- None of all that is touched. -/
theorem beside {s s' : Session} (hworkspace : s'.workspace = s.workspace) (hcode : s'.code = s.code)
    (hqueue : s'.link.outbound = s.link.outbound) : Inert s s' :=
  ⟨hworkspace, hcode, hqueue ▸ List.suffix_rfl⟩

theorem refl (s : Session) : Inert s s :=
  beside rfl rfl rfl

theorem trans {s t u : Session} (hst : Inert s t) (htu : Inert t u) : Inert s u where
  workspace := htu.workspace.trans hst.workspace
  code := htu.code.trans hst.code
  queue := htu.queue.trans hst.queue

theorem complete (s : Session) (c : Completion TaskId) : Inert s (s.complete c) := by
  obtain ⟨tasks, due, hcomplete, -⟩ := s.complete_spec c
  rw [hcomplete]
  exact beside rfl rfl rfl

theorem closeWith (s : Session) (reason : TransportError) : Inert s (s.closeWith reason) := by
  obtain ⟨tasks, due, journal, hclose, -⟩ := s.closeWith_spec reason
  rw [hclose]
  exact beside rfl rfl rfl

theorem endReading (s : Session) (result : Except Failure Unit) : Inert s (s.endReading result) := by
  have hclose := closeWith s (closeReason result)
  unfold Session.endReading
  cases result with
  | ok => exact hclose.trans (beside rfl rfl rfl)
  | error e => exact hclose.trans (beside rfl rfl rfl)

theorem stopRun (s : Session) : Inert s s.stopRun := by
  have hreport : Inert s (s.report .stopRequested) := beside rfl rfl rfl
  have hclose := hreport.trans (closeWith _ .closed)
  exact hclose.trans (beside rfl rfl rfl)

theorem lose (s : Session) (m : Message) (reason : TransportError) : Inert s (s.lose m reason) := by
  obtain ⟨tasks, due, journal, hlose, -⟩ := s.lose_spec m reason
  rw [hlose]
  exact beside rfl rfl (Onward.outbound_writeFailed s.link m reason)

theorem wakeReader (s : Session) : Inert s s.wakeReader := by
  rw [wakeReader_eq]
  exact beside rfl rfl rfl

/-- Something arrives from the host, or the host goes away. -/
theorem arrive (s : Session) (connection : LocalEnd) (host : HostEnd) : Inert s (Session.wakeReader { s with connection, host }) := by
  have harrived : Inert s { s with connection, host } := beside rfl rfl rfl
  exact harrived.trans (wakeReader _)

theorem writeStep (s : Session) : Inert s s.writeStep := by
  unfold Session.writeStep
  cases hqueue : s.link.outbound with
  | nil =>
    rw [Link.takeOutbound, hqueue]
    exact beside rfl rfl rfl
  | cons m rest =>
    rw [Link.takeOutbound, hqueue]
    have htaken : Inert s { s with link := { s.link with outbound := rest } } := ⟨rfl, rfl, hqueue ▸ List.suffix_cons m rest⟩
    simp only
    cases s.connection.send m with
    | ok bytes => exact htaken.trans (beside rfl rfl rfl)
    | error reason => exact htaken.trans (lose _ m reason)

/-- A message of the host that is not refused begins a task at most. -/
theorem handle {s : Session} {m : Message} (room : ∀ role args, .refused role args ∉ s.readDeeds (.message m)) :
    Inert s (s.handle m) := by
  cases m with
  | reply id outcome =>
    have hreport : Inert s (s.report (.replyReceived id outcome.isOk)) := beside rfl rfl rfl
    simp only [Session.handle, Link.resolve]
    cases (s.report (.replyReceived id outcome.isOk)).link.find? id with
    | none => exact hreport.trans (endReading _ _)
    | some call =>
      simp only
      split
      · refine trans ?_ (complete _ _)
        exact beside rfl rfl rfl
      · refine trans ?_ (complete _ _)
        exact beside rfl rfl rfl
  | notify method args =>
    have hfree : ¬ s.limit ≤ s.inFlight := fun hfull => room (.notification method) args (by simp [readDeeds, hfull])
    simp only [Session.handle, dispatch, if_neg hfree]
    exact beside rfl rfl rfl
  | request id method args =>
    have hfree : ¬ s.limit ≤ s.inFlight :=
      fun hfull => room (.request id method) args (by simp [readDeeds, requestDeeds, hfull])
    rw [Session.handle]
    rcases s.dispatchRequest_spec id method args with ⟨hfull, -⟩ | ⟨-, hok⟩
    · exact absurd hfull hfree
    · rw [hok]
      exact beside rfl rfl rfl

theorem readStep {s : Session} (room : ∀ role args, .refused role args ∉ s.readDeeds s.connection.receive.1) :
    Inert s s.readStep := by
  unfold Session.readStep
  generalize s.connection.receive = received at room ⊢
  obtain ⟨received, connection⟩ := received
  have hconnection : Inert s { s with connection } := beside rfl rfl rfl
  cases received with
  | message m => exact hconnection.trans (handle (s := { s with connection }) room)
  | again => exact hconnection
  | blocked => exact beside rfl rfl rfl
  | finished =>
    have hreport : Inert s (report { s with connection } .hostClosed) := beside rfl rfl rfl
    exact hreport.trans (endReading _ _)
  | failed e => exact hconnection.trans (endReading _ _)

theorem begin (s : Session) (turn : Turn) : Inert s (s.begin turn) := by
  cases turn with
  | writer => exact beside rfl rfl rfl
  | reader =>
    rw [Session.begin]
    split
    · exact refl s
    · split
      · exact stopRun s
      · exact beside rfl rfl rfl
  | task id =>
    rw [Session.begin]
    split
    · exact beside rfl rfl rfl
    · exact refl s

theorem step {s s' : Session} (h : s.step = some s') (nobody : s.running? = none)
    (room : ∀ role args, .refused role args ∉ s.stepDeeds) : Inert s s' := by
  unfold Session.step at h
  split at h
  · next hfocus =>
    rw [stepDeeds, hfocus] at room
    exact Option.some.inj h ▸ readStep room
  · exact Option.some.inj h ▸ writeStep s
  · next hfocus =>
    rw [running?, hfocus] at nobody
    cases nobody
  · split at h
    · cases h
    · next turn rest _ =>
      have htaken : Inert s { s with ready := rest } := beside rfl rfl rfl
      exact Option.some.inj h ▸ htaken.trans (begin _ turn)

/-- A move in which no program does anything, no message of the host is refused and no call is given up. -/
theorem move {s : Session} {m : Move} (nobody : s.worker? m = none) (keeps : ∀ tag, m ≠ .abandon tag)
    (room : ∀ role args, .refused role args ∉ s.moveDeeds m) : Inert s (s.move m) := by
  cases m with
  | step =>
    rw [Session.move]
    cases hstep : s.step with
    | none => exact refl s
    | some s' => exact step hstep nobody room
  | start =>
    show Inert s (if s.reader = .notStarted then _ else _)
    split <;> exact beside rfl rfl rfl
  | shutdown => exact closeWith s .closed
  | requestStop =>
    have hstop : Inert s { s with stopping := true } := beside rfl rfl rfl
    exact hstop.trans (wakeReader _)
  | abandon tag => exact absurd rfl (keeps tag)
  | openGate gate =>
    obtain ⟨tasks, due, hresume, -⟩ := resumeGate_spec { s with openGates := gate :: s.openGates } gate
    show Inert s (resumeGate { s with openGates := gate :: s.openGates } gate)
    rw [hresume]
    exact beside rfl rfl rfl
  | handOver id method args =>
    have hfree : ¬ s.limit ≤ s.inFlight :=
      fun hfull => room (.request id method) args (by simp [moveDeeds, requestDeeds, hfull])
    rw [Session.move]
    rcases s.dispatchRequest_spec id method args with ⟨hfull, -⟩ | ⟨-, hok⟩
    · exact absurd hfull hfree
    · rw [hok]
      exact beside rfl rfl rfl
  | hostSend m =>
    rw [Session.move, hostSend]
    by_cases hclosed : s.host.closed = true
    · rw [if_pos hclosed]
      exact refl s
    · rw [if_neg hclosed]
      exact arrive s _ s.host
  | hostWrite bytes => exact arrive s _ s.host
  | hostHangUp => exact arrive s _ _
  | hostLeave => exact arrive s _ _
  | _ => exact beside rfl rfl rfl

end Inert

/-- What is registered or queued is the work of a program, unless a call is given up. -/
theorem work_of_effect {setup : Setup} {before later : List Move} {m : Move}
    (room : ∀ role args, .refused role args ∉ (Chronicle.after setup (before ++ m :: later)).log) (keeps : ∀ tag, m ≠ .abandon tag)
    (effect : ¬ Inert (Chronicle.after setup before).session ((Chronicle.after setup before).session.move m)) :
    ∃ w ∈ work setup (before ++ m :: later), w.before = (Chronicle.after setup before).session ∧
      w.after = (Chronicle.after setup before).session.move m := by
  set s := (Chronicle.after setup before).session with hs
  cases hworker : s.worker? m with
  | none =>
    refine absurd (Inert.move hworker keeps fun role args hmem => ?_) effect
    refine room role args ?_
    rw [log_eq_told]
    exact mem_told hmem later
  | some t =>
    have hwork : s.work? m = some ⟨t, s⟩ := by rw [work?, hworker]; rfl
    have hstep : m = .step := by
      cases m with
      | step => rfl
      | _ => cases hworker
    exact ⟨⟨t, s⟩, mem_told (Option.mem_toList.mpr hwork) later, rfl, by rw [hstep]; rfl⟩

/-! ## Replies -/

/-- The replies that become due in some work, with the handlers that make them due. -/
def repliesBy (work : List Work) : List (TaskId × UInt32 × Outcome) :=
  work.flatMap fun w => (w.deeds.filterMap Deed.reply?).map (w.task, ·)

/-- Replies become due when handlers end, unless requests are refused. -/
theorem replies_of_work {setup : Setup} {moves : List Move} (fifo : FirstInFirstOut moves)
    (room : ∀ role args, .refused role args ∉ (Chronicle.after setup moves).log) :
    (Chronicle.after setup moves).log.filterMap Deed.reply? = (repliesBy (work setup moves)).map (·.2) := by
  induction moves using List.reverseRecOn with
  | nil => rfl
  | append_singleton moves m ih =>
    rw [Chronicle.after_concat] at room ⊢
    have hbefore := ih fifo.front fun role args hmem => room role args (List.mem_append_left _ hmem)
    show List.filterMap Deed.reply? (_ ++ _) = _
    rw [List.filterMap_append, hbefore, work_concat, repliesBy, repliesBy, List.flatMap_append, List.map_append]
    congr 1
    cases hnow : (Chronicle.after setup moves).session.work? m with
    | some w =>
      have hdeeds := (work?_eq_some hnow).2
      simp [← hdeeds, Function.comp_def]
    | none =>
      refine List.filterMap_eq_nil_iff.mpr fun d hd => ?_
      cases d with
      | refused role args => exact absurd (List.mem_append_right _ hd) (room role args)
      | finished t role exit =>
        -- nobody ends, since nobody works
        have hends := (fifo.turnover (Chronicle.after setup moves).session).ends (t, role, exit) (mem_finished.mpr hd)
        rw [work?, hends] at hnow
        cases hnow
      | _ => rfl

/-- Where something stands in a list that is put together. -/
theorem split_flatMap {α β : Type} (f : α → List β) {list : List α} {earlier later : List β} {x : β}
    (h : list.flatMap f = earlier ++ x :: later) : ∃ before d after front, list = before ++ d :: after ∧ x ∈ f d ∧
      earlier = before.flatMap f ++ front ∧ (d :: after).flatMap f = front ++ x :: later := by
  induction list generalizing earlier with
  | nil => simp at h
  | cons d list ih =>
    rw [List.flatMap_cons] at h
    have hlater : ∀ {rest : List β}, list.flatMap f = rest ++ x :: later → earlier = f d ++ rest →
        ∃ before e after front, d :: list = before ++ e :: after ∧ x ∈ f e ∧
          earlier = before.flatMap f ++ front ∧ (e :: after).flatMap f = front ++ x :: later := by
      intro rest hrest hearlier
      obtain ⟨before, e, after, front, rfl, hx, rfl, hafter⟩ := ih hrest
      exact ⟨d :: before, e, after, front, rfl, hx, by rw [hearlier, List.flatMap_cons, List.append_assoc], hafter⟩
    rcases List.append_eq_append_iff.mp h with ⟨rest, hearlier, hrest⟩ | ⟨rest, hd, hrest⟩
    · exact hlater hrest hearlier
    · cases rest with
      | nil =>
        have hrest : list.flatMap f = [] ++ x :: later := hrest.symm
        exact hlater hrest (by rw [hd, List.append_nil, List.append_nil])
      | cons y rest =>
        obtain rfl := List.head_eq_of_cons_eq hrest
        refine ⟨[], d, list, earlier, rfl, hd ▸ List.mem_append_right _ List.mem_cons_self, rfl, ?_⟩
        rw [List.flatMap_cons, h]

/-- The reply to a request whose handler never waits becomes due before those to later requests, and only then. -/
theorem reply_before {setup : Setup} {moves : List Move} (fifo : FirstInFirstOut moves) {t u : TaskId} {id : UInt32}
    {method : String} {args : List Value} (haccepted : .accepted t (.request id method) args ∈ (Chronicle.after setup moves).log)
    (first : [t, u].Sublist (arrivals (Chronicle.after setup moves).log)) (never : NeverWaits setup moves t)
    {earlier later : List (TaskId × UInt32 × Outcome)} {reply : UInt32 × Outcome}
    (hsplit : repliesBy (work setup moves) = earlier ++ (u, reply) :: later) :
    (∃ outcome, (t, id, outcome) ∈ earlier) ∧ ∀ r, (t, r) ∉ (u, reply) :: later := by
  obtain ⟨ht, hu, hlt⟩ := (inTurn_after setup fifo).precedes first
  obtain ⟨before, w, after, front, hwork, hreply, rfl, hafter⟩ := split_flatMap _ hsplit
  have hown : w.task = u := by
    obtain ⟨r, -, heq⟩ := List.mem_map.mp hreply
    exact congrArg Prod.fst heq
  obtain ⟨⟨e, he, htask, f, hf, hid⟩, hothers⟩ := work_before fifo ht hu hlt never hwork hown
  constructor
  · -- the end of its handler makes the reply due
    have hend : f ∈ ends (Chronicle.after setup moves).log t := by
      have hmem := work_mem_log e (hwork ▸ List.mem_append_left _ he) _ (mem_finished.mp hf)
      exact List.mem_filter.mpr ⟨mem_finished.mpr hmem, by simpa using hid⟩
    rcases (balanced_after setup moves).standing (kept_after setup moves) haccepted with ⟨-, hnone⟩ | ⟨-, exit, hends⟩
    · rw [hnone] at hend
      cases hend
    · rw [hends, List.mem_singleton] at hend
      obtain rfl := hend
      obtain ⟨outcome, houtcome⟩ : ∃ outcome, Role.reply? (.request id method) exit = some (id, outcome) := by
        cases exit <;> exact ⟨_, rfl⟩
      refine ⟨outcome, List.mem_append_left _ (List.mem_flatMap.mpr ⟨e, he, ?_⟩)⟩
      refine List.mem_map.mpr ⟨(id, outcome), List.mem_filterMap.mpr ⟨_, mem_finished.mp hf, houtcome⟩, ?_⟩
      rw [htask]
  · intro r hmem
    obtain ⟨e, he, hown'⟩ := List.mem_flatMap.mp (hafter ▸ List.mem_append_right front hmem)
    obtain ⟨r', -, heq⟩ := List.mem_map.mp hown'
    exact hothers e he (congrArg Prod.fst heq)

/-! ## Effects in order -/

/-- **Arrival order is effect order.** Let turns be taken in the order in which they fell due. Then handlers begin to work in the order
in which their messages arrived; and if a handler never waits, it has ended before one whose message arrived later does anything at all,
whoever else waits meanwhile. While no message is refused, all that is registered or queued is such work, unless the embedding program
gives a call up; so are the replies, and the reply of a handler that never waits comes before those to later requests. What is written
to the host are the first of these replies, in this order. -/
theorem effects_in_order_of_arrival (setup : Setup) {moves : List Move} (fifo : FirstInFirstOut moves) :
    let c := Chronicle.after setup moves
    (∀ t u, [t, u].Sublist (arrivals c.log) → ∀ earlier later, workers setup moves = earlier ++ u :: later → t ∈ earlier) ∧
    (∀ t u, [t, u].Sublist (arrivals c.log) → NeverWaits setup moves t → ∀ earlier w later,
      work setup moves = earlier ++ w :: later → w.task = u →
        (∃ e ∈ earlier, e.task = t ∧ ∃ f ∈ finished e.deeds, f.1 = t) ∧ ∀ e ∈ w :: later, e.task ≠ t) ∧
    ((∀ role args, .refused role args ∉ c.log) →
      (∀ before m later, moves = before ++ m :: later → (∀ tag, m ≠ .abandon tag) →
        let s := (Chronicle.after setup before).session
        ¬ Inert s (s.move m) → ∃ w ∈ work setup moves, w.before = s ∧ w.after = s.move m) ∧
      c.posted.filterMap Message.reply? = (repliesBy (work setup moves)).map (·.2) ∧
      c.written.filterMap Message.reply? <+: (repliesBy (work setup moves)).map (·.2)) ∧
    ∀ t u id method args, .accepted t (.request id method) args ∈ c.log → [t, u].Sublist (arrivals c.log) →
      NeverWaits setup moves t → ∀ earlier reply later, repliesBy (work setup moves) = earlier ++ (u, reply) :: later →
        (∃ outcome, (t, id, outcome) ∈ earlier) ∧ ∀ r, (t, r) ∉ (u, reply) :: later := by
  intro c
  have hinTurn := inTurn_after setup fifo
  refine ⟨?_, ?_, ?_, ?_⟩
  · intro t u first earlier later hsplit
    obtain ⟨ht, hu, hlt⟩ := hinTurn.precedes first
    exact hinTurn.firsts t ht u hu hlt earlier later hsplit
  · intro t u first never earlier w later hsplit hw
    obtain ⟨ht, hu, hlt⟩ := hinTurn.precedes first
    exact work_before fifo ht hu hlt never hsplit hw
  · intro room
    have hposted := (posted_replies setup moves).trans (replies_of_work fifo room)
    refine ⟨?_, hposted, ?_⟩
    · rintro before m later rfl keeps s effect
      exact work_of_effect room keeps effect
    · rw [← hposted]
      exact ((delivers_after setup moves).lead.trans (List.prefix_append _ _)).filterMap _
  · intro t u id method args haccepted first never earlier reply later hsplit
    exact reply_before fifo haccepted first never hsplit

/-- Contexts that ask the host something, and that tell it something. -/
def twoContexts : Program :=
  Facade.registerContext "slow" (fun _ => .invoke "pick" [] id fun _ => .finish (.value (.bool true)))
    (Facade.registerContext "quick" (fun _ => .notify "seen" [] (.finish (.value (.bool true)))) (.finish .done))

def askAbout (id : UInt32) (name : String) : Move :=
  .handOver id "askContext" [.string name, .string "=="]

/-- Three requests arrive. The handler of the first one waits for the host, which answers after the other two have ended. -/
def overtaken : List Move :=
  .start :: .perform twoContexts :: List.replicate 16 .step ++ [askAbout 1 "slow", askAbout 2 "quick", askAbout 3 "quick"] ++
    List.replicate 24 .step ++ .hostSend (.reply 1 (.ok .null)) :: List.replicate 12 .step

theorem only_who_waits_is_overtaken :
    let c := Chronicle.after {} overtaken
    let held : Outcome := .ok (.bool true)
    arrivals c.log = [1, 2, 3] ∧
    (∀ earlier later, workers {} overtaken = earlier ++ 2 :: later → 1 ∈ earlier) ∧
    (∀ earlier w later, work {} overtaken = earlier ++ w :: later → w.task = 3 → ∀ e ∈ w :: later, e.task ≠ 2) ∧
    (∀ earlier reply later, repliesBy (work {} overtaken) = earlier ++ (3, reply) :: later →
      ∃ outcome, (2, 2, outcome) ∈ earlier) ∧
    c.posted.filterMap Message.reply? = [(2, held), (3, held), (1, held)] := by
  intro c held
  have hfifo : FirstInFirstOut overtaken := by
    intro turns hmem
    simp [overtaken, askAbout] at hmem
  obtain ⟨hfirst, hwork, hroom, hreply⟩ := effects_in_order_of_arrival {} hfifo
  obtain ⟨harrivals, hwaiting, hlast, hposted, haccepted⟩ : arrivals c.log = [1, 2, 3] ∧
      told (fun s _ => s.waiting) {} overtaken = List.replicate 24 1 ∧ c.session.waiting = [] ∧
      c.posted.filterMap Message.reply? = [(2, held), (3, held), (1, held)] ∧
      c.log[10]? = some (.accepted 2 (.request 2 "askContext") [.string "quick", .string "=="]) := by
    -- one evaluation of the run for all of it
    cbv
    exact ⟨rfl, trivial⟩
  have hnever : NeverWaits {} overtaken 2 :=
    neverWaits_of_told (by rw [hwaiting]; decide) (by rw [show (Chronicle.after {} overtaken).session.waiting = [] from hlast]; simp)
  have hbefore : [2, 3].Sublist (arrivals c.log) := by rw [harrivals]; decide
  refine ⟨harrivals, hfirst 1 2 (by rw [harrivals]; decide), ?_, ?_, hposted⟩
  · exact fun earlier w later hsplit hw => (hwork 2 3 hbefore hnever earlier w later hsplit hw).2
  · intro earlier reply later hsplit
    exact (hreply 2 3 2 "askContext" _ (List.mem_of_getElem? haccepted) hbefore hnever earlier reply later hsplit).1

end EditorLink.Session
