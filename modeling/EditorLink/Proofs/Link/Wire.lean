import EditorLink.Proofs.Link.Numbering

/-!
# EditorLink.Proofs.Link.Wire -- the table agrees with the wire

As long as the link is open, the ids in the table are those of the requests that were queued, whose write has not failed and whose
reply has not been processed, whether or not their callers still wait. So a host that sends one reply for each request that has
reached it, and no other replies, never sends a reply that no call waits for.
-/

namespace EditorLink.Exchange

variable {Caller : Type}

/-! ## Hosts -/

/-- Of every id, the replies that are processed are at most as many as the requests that have reached the host. That is what a host
sees to which sends at most one reply for each request it has received and none for other ids: a reply is processed after it was
sent, and sent after its request was received. -/
def HonestHost : List (Moment Caller) → Prop :=
  Throughout fun older m =>
    ∀ id outcome, m.event = .read id outcome → (replied older).count id < (delivered older).count id

/-- Nobody closes the link from the local side while a run goes on. -/
def ClosedAfterRun : List (Moment Caller) → Prop :=
  Throughout fun older m =>
    ∀ reason, m.event = .closed reason → ∃ n ∈ older, ∃ result, n.event = .runEnded result

/-! ## Requests -/

theorem requested_append (log more : List (Moment Caller)) :
    requested (log ++ more) = requested log ++ requested more := by
  simp [requested, queued]

/-- The queued requests are those of the registered calls. -/
theorem requested_after (acts : List (Act Caller)) :
    requested (after acts).log = (calls (after acts).log).map (·.id) := by
  refine after_induction (P := fun x => requested x.log = (calls x.log).map (·.id)) rfl ?_ acts
  intro x y hxy h
  -- both sides grow by the same ids
  have hgrow : ∀ {y : Exchange Caller} {l : List (Moment Caller)}, y.log = x.log ++ l →
      requested l = (calls l).map (·.id) → requested y.log = (calls y.log).map (·.id) := by
    intro y l hlog hmore
    rw [hlog, requested_append, calls_append, List.map_append, h, hmore]
  cases hxy with
  | nothing => exact h
  | called _ _ => exact hgrow rfl rfl
  | refused caller method _ => exact hgrow rfl rfl
  | abandoned caller => exact hgrow rfl rfl
  | @posted m hm => exact hgrow rfl (by simp [requested, queued, calls, Event.queued?, Event.call?, hm])
  | taken _ _ => exact h
  | written _ => exact hgrow rfl rfl
  | lost _ _ => exact hgrow rfl rfl
  | answered _ _ => exact hgrow rfl rfl
  | @unmatched id outcome _ _ =>
    exact hgrow (l := [_, _]) (by rw [endRun_log, note_log, List.append_assoc]; rfl) rfl
  | halted cause _ => exact hgrow (endRun_log _ _) rfl
  | closed _ => exact hgrow rfl rfl

/-- The ids of the requests that left the writer's hand. -/
def sentRequests (log : List (Moment Caller)) : List UInt32 :=
  (sent log).filterMap Message.requestId?

theorem sentRequests_concat (log : List (Moment Caller)) (m : Moment Caller) :
    sentRequests (log ++ [m]) = sentRequests log ++ (m.event.sent?.bind Message.requestId?).toList := by
  cases hsent : m.event.sent? with
  | none => simp [sentRequests, sent, hsent]
  | some n => cases hid : n.requestId? <;> simp [sentRequests, sent, hsent, hid]

theorem delivered_concat (log : List (Moment Caller)) (m : Moment Caller) :
    delivered (log ++ [m]) = delivered log ++ m.event.delivered?.toList := by
  cases hdelivered : m.event.delivered? <;> simp [delivered, hdelivered]

theorem lost_concat (log : List (Moment Caller)) (m : Moment Caller) :
    lost (log ++ [m]) = lost log ++ m.event.lost?.toList := by
  cases hlost : m.event.lost? <;> simp [lost, hlost]

/-- A request that left the hand was either written or lost. -/
theorem count_sentRequests (log : List (Moment Caller)) (id : UInt32) :
    (sentRequests log).count id = (delivered log).count id + (lost log).count id := by
  induction log using List.reverseRecOn with
  | nil => rfl
  | append_singleton log m ih =>
    have hone : (m.event.sent?.bind Message.requestId?).toList.count id =
        m.event.delivered?.toList.count id + m.event.lost?.toList.count id := by
      cases m.event <;> simp [Event.sent?, Event.delivered?, Event.lost?]
    rw [sentRequests_concat, delivered_concat, lost_concat, List.count_append, List.count_append,
      List.count_append]
    omega

/-- What left the hand had been queued, each request as often. -/
theorem Queue.count_sent_le {x : Exchange Caller} (h : x.Queue) (id : UInt32) :
    (sentRequests x.log).count id ≤ (requested x.log).count id := by
  rw [requested, ← show _ = queued x.log from h, List.filterMap_append, List.filterMap_append,
    List.count_append, List.count_append]
  exact Nat.le_trans (Nat.le_add_right _ _) (Nat.le_add_right _ _)

theorem Queue.mem_requested_of_mem_lost {x : Exchange Caller} (h : x.Queue) {id : UInt32}
    (hlost : id ∈ lost x.log) : id ∈ requested x.log := by
  have hpos := List.count_pos_iff.mpr hlost
  have hsplit := count_sentRequests x.log id
  have hle := h.count_sent_le id
  exact List.count_pos_iff.mp (by omega)

/-! ## The table and the wire -/

/-- While the link is open, the calls that are outstanding are those without a failed write and without a reply. -/
structure Unanswered (x : Exchange Caller) : Prop where
  replied_called : x.link.closedWith = none → ∀ id ∈ replied x.log, id ∈ (calls x.log).map (·.id)
  outstanding : x.link.closedWith = none → ∀ call ∈ calls x.log,
    (Outstanding x.log call ↔ call.id ∉ lost x.log ∧ call.id ∉ replied x.log)

/-- A closed link claims nothing. -/
theorem unanswered_of_closed {x : Exchange Caller} (h : x.link.closedWith ≠ none) : x.Unanswered :=
  ⟨fun hopen => absurd hopen h, fun hopen => absurd hopen h⟩

theorem replied_concat (log : List (Moment Caller)) (m : Moment Caller) :
    replied (log ++ [m]) = replied log ++ m.event.read?.toList := by
  cases hread : m.event.read? <;> simp [replied, hread]

/-- A moment at which no call is registered, lost, answered or ended. -/
theorem Unanswered.keep {x y : Exchange Caller} (h : x.Unanswered) {e : Event Caller}
    (hcall : e.call? = none) (hlost : e.lost? = none) (hread : e.read? = none)
    (hclosed : y.link.closedWith = x.link.closedWith) (hlog : y.log = x.log ++ [⟨e, []⟩]) :
    y.Unanswered := by
  have hcalls : calls y.log = calls x.log := by simp [hlog, calls, hcall]
  have hlost : lost y.log = lost x.log := by simp [hlog, lost_concat, hlost]
  have hreplied : replied y.log = replied x.log := by simp [hlog, replied_concat, hread]
  refine ⟨fun hopen => ?_, fun hopen call hmem => ?_⟩
  · rw [hreplied, hcalls]
    exact h.replied_called (hclosed ▸ hopen)
  · rw [hcalls] at hmem
    rw [hlog, outstanding_concat, ← hlog, hlost, hreplied, ← h.outstanding (hclosed ▸ hopen) call hmem]
    simp [hcall]

/-- A new call has an id of its own, so nothing that was lost or answered is its request. -/
theorem Unanswered.called {x y : Exchange Caller} (h : x.Unanswered) (hqueue : x.Queue)
    (hrequested : requested x.log = (calls x.log).map (·.id)) {call : PendingCall Caller} {args : List Value}
    (wasOpen : x.link.closedWith = none) (hlog : y.log = x.log ++ [⟨.called call args, []⟩])
    (hfresh : ∀ d ∈ calls x.log, d.id ≠ call.id) : y.Unanswered := by
  have hcalls : calls y.log = calls x.log ++ [call] := by rw [hlog, calls_append]; rfl
  have hlost : lost y.log = lost x.log := by simp [hlog, lost_concat, Event.lost?]
  have hreplied : replied y.log = replied x.log := by simp [hlog, replied_concat, Event.read?]
  have hnew : call.id ∉ (calls x.log).map (·.id) := by
    intro hmem
    obtain ⟨d, hd, hid⟩ := List.mem_map.mp hmem
    exact hfresh d hd hid
  refine ⟨fun _ id hid => ?_, fun _ d hd => ?_⟩
  · rw [hreplied] at hid
    rw [hcalls, List.map_append]
    exact List.mem_append_left _ (h.replied_called wasOpen id hid)
  · rw [hcalls] at hd
    rw [hlog, outstanding_concat, ← hlog, hlost, hreplied]
    rcases List.mem_append.mp hd with hd | hd
    · have hne : call ≠ d := fun heq => hfresh d hd (heq ▸ rfl)
      rw [← h.outstanding wasOpen d hd]
      simp [Event.call?, hne]
    · have hd := List.mem_singleton.mp hd
      subst hd
      refine iff_of_true (Or.inl rfl) ⟨fun hmem => ?_, fun hmem => ?_⟩
      · exact hnew (hrequested ▸ hqueue.mem_requested_of_mem_lost hmem)
      · exact hnew (h.replied_called wasOpen _ hmem)

theorem Unanswered.lost {x y : Exchange Caller} (htable : x.Table) (h : x.Unanswered) {m : Message}
    {reason : TransportError} {ended : Option (Completion Caller)}
    (fails : x.link.writeFailed m reason = (ended, y.link))
    (hlog : y.log = x.log ++ [⟨.lost m reason, ended.toList⟩]) : y.Unanswered := by
  obtain ⟨hsettles, hclosed, hended, hleft⟩ := Link.writeFailed_spec htable.ordered fails
  have hcalls : calls y.log = calls x.log := by simp [hlog, calls, Event.call?]
  have hlost : Exchange.lost y.log = Exchange.lost x.log ++ m.requestId?.toList := by
    rw [hlog, lost_concat]
    rfl
  have hreplied : replied y.log = replied x.log := by simp [hlog, replied_concat, Event.read?]
  refine ⟨fun hopen => ?_, fun hopen call hmem => ?_⟩
  · rw [hreplied, hcalls]
    exact h.replied_called (hclosed ▸ hopen)
  · rw [hcalls] at hmem
    have hold := h.outstanding (hclosed ▸ hopen) call hmem
    have hnow : Outstanding y.log call ↔ call ∈ y.link.pending := by
      rw [hlog]
      exact (htable.mem_settled hsettles rfl call).symm
    rw [hlost, hreplied, hnow, List.mem_append, not_or]
    constructor
    · intro hcall
      have hout := (htable.mem_pending call).mp ((hsettles.mem_pending call).mp hcall).1
      obtain ⟨hnl, hnr⟩ := hold.mp hout
      refine ⟨⟨hnl, fun hid => ?_⟩, hnr⟩
      exact hleft call hcall (Option.mem_toList.mp hid)
    · rintro ⟨⟨hnl, hid⟩, hnr⟩
      refine (hsettles.mem_pending call).mpr ⟨(htable.mem_pending call).mpr (hold.mpr ⟨hnl, hnr⟩), ?_⟩
      intro c hc heq
      refine hid (Option.mem_toList.mpr ?_)
      rw [← heq]
      exact (hended c hc).1

theorem Unanswered.answered {x y : Exchange Caller} (htable : x.Table) (h : x.Unanswered) {id : UInt32}
    {outcome : Outcome} {c : Completion Caller} (found : x.link.resolve id outcome = .ok (c, y.link))
    (hlog : y.log = x.log ++ [⟨.read id outcome, [c]⟩]) : y.Unanswered := by
  obtain ⟨hsettles, hclosed, hid, -⟩ := Link.resolve_spec htable.ordered found
  have hcalls : calls y.log = calls x.log := by simp [hlog, calls, Event.call?]
  have hlost : Exchange.lost y.log = Exchange.lost x.log := by simp [hlog, lost_concat, Event.lost?]
  have hreplied : replied y.log = replied x.log ++ [id] := by
    rw [hlog, replied_concat]
    rfl
  refine ⟨fun hopen other hother => ?_, fun hopen call hmem => ?_⟩
  · rw [hreplied] at hother
    rw [hcalls]
    rcases List.mem_append.mp hother with hother | hother
    · exact h.replied_called (hclosed ▸ hopen) other hother
    · rw [List.mem_singleton.mp hother, ← hid]
      have hcall := (htable.mem_pending c.call).mp (hsettles.registered c List.mem_cons_self)
      exact List.mem_map.mpr ⟨c.call, hcall.mem_calls, rfl⟩
  · rw [hcalls] at hmem
    rw [hlog, outstanding_concat, ← hlog, hlost, hreplied, h.outstanding (hclosed ▸ hopen) call hmem]
    simp [Event.call?, hid, and_assoc, eq_comm]

theorem Unanswered.change {x y : Exchange Caller} (htable : x.Table) (hqueue : x.Queue)
    (hrequested : requested x.log = (calls x.log).map (·.id)) (h : x.Unanswered) (hxy : Change x y)
    (hnodup : ((calls y.log).map (·.id)).Nodup) : y.Unanswered := by
  cases hxy with
  | nothing => exact h
  | @called caller method args id link accepted _ =>
    refine h.called hqueue hrequested accepted.wasOpen rfl fun d hd heq => ?_
    rw [note_log, calls_append, List.map_append, List.nodup_append] at hnodup
    exact hnodup.2.2 d.id (List.mem_map.mpr ⟨d, hd, rfl⟩) d.id (by simp [calls, Event.call?, heq]) rfl
  | refused caller method _ => exact h.keep (e := .refused ..) rfl rfl rfl rfl rfl
  | abandoned caller => exact h.keep (e := .abandoned _) rfl rfl rfl rfl rfl
  | posted _ => exact h.keep (e := .posted _) rfl rfl rfl rfl rfl
  | taken _ _ => exact ⟨h.replied_called, h.outstanding⟩
  | written _ => exact h.keep (e := .written _) rfl rfl rfl rfl rfl
  | lost _ fails => exact h.lost htable fails rfl
  | answered _ found => exact h.answered htable found rfl
  | unmatched outcome _ _ =>
    exact unanswered_of_closed (by simp [endRun_link, Link.close])
  | halted cause _ => exact unanswered_of_closed (by simp [endRun_link, Link.close])
  | closed closes =>
    obtain ⟨-, -, hclosed, -⟩ := Link.close_spec htable.ordered closes
    exact unanswered_of_closed (by simp [hclosed])

theorem unanswered_after (acts : List (Act Caller)) (few : (calls (after acts).log).length < 2 ^ 32) :
    (after acts).Unanswered := by
  induction acts using List.reverseRecOn with
  | nil => exact ⟨fun _ id hid => by simp [replied] at hid, fun _ call hmem => by simp [calls] at hmem⟩
  | append_singleton acts a ih =>
    have hnodup := (numbered_after _ few).nodup few
    rw [after_concat] at few hnodup ⊢
    have hchange := change_act (after acts) a
    have hle := length_calls_le_of_change hchange
    exact (ih (by omega)).change (table_after acts) (queue_after acts) (requested_after acts) hchange hnodup

/-- While the link is open, the table holds the ids of the requests that are queued or written and have no reply. -/
theorem holds_iff_unanswered (acts : List (Act Caller)) (few : (calls (after acts).log).length < 2 ^ 32)
    (hopen : (after acts).link.closedWith = none) (id : UInt32) :
    (after acts).link.holds id = true ↔
      id ∈ requested (after acts).log ∧ id ∉ lost (after acts).log ∧ id ∉ replied (after acts).log := by
  have hun := unanswered_after acts few
  have htable := table_after acts
  rw [Link.holds_iff, requested_after, List.mem_map]
  constructor
  · rintro ⟨call, hcall, rfl⟩
    have hout := (htable.mem_pending call).mp hcall
    exact ⟨⟨call, hout.mem_calls, rfl⟩, (hun.outstanding hopen call hout.mem_calls).mp hout⟩
  · rintro ⟨⟨call, hcall, rfl⟩, hleft⟩
    exact ⟨call, (htable.mem_pending call).mpr ((hun.outstanding hopen call hcall).mpr hleft), rfl⟩

/-! ## Honest hosts -/

/-- A run has ended exactly when the log says so. -/
theorem runEnd_eq_none_iff (acts : List (Act Caller)) :
    (after acts).runEnd = none ↔ ∀ m ∈ (after acts).log, ∀ result, m.event ≠ .runEnded result := by
  refine after_induction
    (P := fun x => x.runEnd = none ↔ ∀ m ∈ x.log, ∀ result, m.event ≠ .runEnded result) (by simp) ?_ acts
  intro x y hxy h
  have hkeep : ∀ {y : Exchange Caller} {m : Moment Caller}, y.runEnd = x.runEnd → y.log = x.log ++ [m] →
      (∀ result, m.event ≠ .runEnded result) →
      (y.runEnd = none ↔ ∀ m ∈ y.log, ∀ result, m.event ≠ .runEnded result) := by
    intro y m hend hlog hm
    rw [hend, h, hlog]
    simp [or_imp, forall_and, hm]
  have hend : ∀ (z : Exchange Caller) (result : Except Failure Unit),
      (z.endRun result).runEnd = none ↔
        ∀ m ∈ (z.endRun result).log, ∀ result, m.event ≠ .runEnded result := by
    intro z result
    refine iff_of_false (by simp) fun hnone => ?_
    exact hnone _ (by rw [endRun_log]; exact List.mem_append_right _ List.mem_cons_self) result rfl
  cases hxy with
  | nothing => exact h
  | called _ _ => exact hkeep rfl rfl (by simp)
  | refused caller method _ => exact hkeep rfl rfl (by simp)
  | abandoned caller => exact hkeep rfl rfl (by simp)
  | posted _ => exact hkeep rfl rfl (by simp)
  | taken _ _ => exact h
  | written _ => exact hkeep rfl rfl (by simp)
  | lost _ _ => exact hkeep rfl rfl (by simp)
  | answered _ _ => exact hkeep rfl rfl (by simp)
  | unmatched outcome _ _ => exact hend _ _
  | halted cause _ => exact hend _ _
  | closed _ => exact hkeep rfl rfl (by simp)

/-- While a run goes on that nobody closes the link under, the link is open. -/
theorem open_while_reading (acts : List (Act Caller)) (hreading : (after acts).runEnd = none)
    (hclosed : ClosedAfterRun (after acts).log) : (after acts).link.closedWith = none := by
  rw [closedWith_after, firstClose, List.findSome?_eq_none_iff]
  intro m hm
  have hnoEnd := (runEnd_eq_none_iff acts).mp hreading
  obtain ⟨older, newer, hlog⟩ := List.append_of_mem hm
  obtain ⟨event, ended⟩ := m
  cases event with
  | runEnded result => exact absurd rfl (hnoEnd _ hm result)
  | closed reason =>
    obtain ⟨n, hn, result, hresult⟩ := hclosed older _ newer hlog reason rfl
    exact absurd hresult (hnoEnd n (by simp [hlog, hn]) result)
  | _ => rfl

/-- The next reply of an honest host has its call. -/
theorem holds_of_honest (acts : List (Act Caller)) (few : (calls (after acts).log).length < 2 ^ 32)
    (hopen : (after acts).link.closedWith = none) {id : UInt32}
    (honest : (replied (after acts).log).count id < (delivered (after acts).log).count id) :
    (after acts).link.holds id = true := by
  have hqueue := queue_after acts
  have hsplit := count_sentRequests (after acts).log id
  have hsent := hqueue.count_sent_le id
  have honce : (requested (after acts).log).count id ≤ 1 := by
    rw [requested_after]
    exact List.nodup_iff_count_le_one.mp ((numbered_after acts few).nodup few) id
  -- its request was queued once and reached the host, so it was not lost and no reply came before
  rw [holds_iff_unanswered acts few hopen]
  refine ⟨List.count_pos_iff.mp (by omega), fun hlost => ?_, fun hreplied => ?_⟩
  · have := List.count_pos_iff.mpr hlost
    omega
  · have := List.count_pos_iff.mpr hreplied
    omega

/-- **The table agrees with the wire.** While the link is open the table holds exactly the ids of the requests that were queued, whose
write has not failed and for which no reply was processed. So no run ends with an unmatched reply whose host is honest and under which
nobody closes the link. -/
theorem table_agrees_with_wire (acts : List (Act Caller))
    (few : (calls (after acts).log).length < 2 ^ 32) :
    ((after acts).link.closedWith = none → ∀ id,
      ((after acts).link.holds id = true ↔
        id ∈ requested (after acts).log ∧ id ∉ lost (after acts).log ∧ id ∉ replied (after acts).log)) ∧
    (HonestHost (after acts).log → ClosedAfterRun (after acts).log →
      ∀ id, (after acts).runEnd ≠ some (.error (.unmatchedReply id))) := by
  refine ⟨fun hopen => holds_iff_unanswered acts few hopen, ?_⟩
  induction acts using List.reverseRecOn with
  | nil => simp
  | append_singleton acts a ih =>
    rw [after_concat] at few ⊢
    intro honest hclosed
    have hchange := change_act (after acts) a
    have hle := length_calls_le_of_change hchange
    obtain ⟨more, hmore⟩ := hchange.log_grows
    have ih := ih (by omega) (hmore ▸ honest).left (hmore ▸ hclosed).left
    generalize hy : (after acts).act a = y at *
    cases hchange with
    | unmatched outcome reading absent =>
      have hopen := open_while_reading acts reading (hmore ▸ hclosed).left
      have hread := (throughout_concat.mp (honest.left : HonestHost ((after acts).log ++ [_]))).2 _ outcome rfl
      have hheld := holds_of_honest acts (by omega) hopen hread
      exact absurd hheld (by simp [Link.holds_eq_false_iff.mpr absent])
    | halted cause _ => cases cause <;> simp [Halt.result]
    | _ => exact ih

/-- A call whose caller goes away, one whose write fails and one that is queued, before the reply to the first. -/
def lateReply : List (Act Nat) :=
  [.invoke 0 "slow" [], .take, .write, .abandon 0, .invoke 1 "lost" [], .take, .lose .closed,
    .invoke 2 "next" [], .read 1 (.ok .null)]

theorem honest_lateReply : HonestHost (after lateReply).log ∧ ClosedAfterRun (after lateReply).log := by
  have hlog : (after lateReply).log =
      [] ++ [⟨.called ⟨1, "slow", 0⟩ [], []⟩] ++ [⟨.written (.request 1 "slow" []), []⟩] ++ [⟨.abandoned 0, []⟩] ++
        [⟨.called ⟨2, "lost", 1⟩ [], []⟩] ++
        [⟨.lost (.request 2 "lost" []) .closed, [⟨⟨2, "lost", 1⟩, .error (.transport .closed)⟩]⟩] ++
        [⟨.called ⟨3, "next", 2⟩ [], []⟩] ++ [⟨.read 1 (.ok .null), [⟨⟨1, "slow", 0⟩, .ok .null⟩]⟩] := rfl
  rw [hlog]
  constructor
  -- the one reply comes after its request has reached the host
  · simp only [HonestHost, throughout_concat, throughout_nil, true_and]
    simp [replied, delivered, Event.read?, Event.delivered?, Message.requestId?]
  · simp only [ClosedAfterRun, throughout_concat, throughout_nil, true_and]
    simp

theorem late_reply_has_its_call :
    (calls (after lateReply).log).length < 2 ^ 32 ∧ (after lateReply).link.closedWith = none ∧
    (∀ id, (after lateReply).link.holds id = true ↔ id = 3) ∧
    HonestHost (after lateReply).log ∧ ClosedAfterRun (after lateReply).log ∧
    ∀ id, (after lateReply).runEnd ≠ some (.error (.unmatchedReply id)) := by
  have few : (calls (after lateReply).log).length < 2 ^ 32 := by decide
  obtain ⟨htable, hrun⟩ := table_agrees_with_wire lateReply few
  refine ⟨few, rfl, fun id => ?_, honest_lateReply.1, honest_lateReply.2, hrun honest_lateReply.1 honest_lateReply.2⟩
  rw [htable rfl id, show requested (after lateReply).log = [1, 2, 3] from rfl,
    show lost (after lateReply).log = [2] from rfl, show replied (after lateReply).log = [1] from rfl]
  simp
  grind

end EditorLink.Exchange
