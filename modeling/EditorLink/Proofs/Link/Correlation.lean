import EditorLink.Proofs.Link.Numbering

/-!
# EditorLink.Proofs.Link.Correlation -- calls end with their own replies

In every history a call ends at most once, and with a result or a failure of the host only when the reply with its id was processed
while it was outstanding. Everything else that ends a call is a failure of the connection.
-/

namespace EditorLink.Exchange

variable {Caller : Type}

/-! ## Why a call ends -/

/-- What an event may end a call with: a reply ends the call with its id, with its own outcome; anything else ends calls with a
failure of the connection. -/
def Explains (event : Event Caller) (c : Completion Caller) : Prop :=
  match c.result with
  | .ok v => event = .read c.call.id (.ok v)
  | .error (.remote method payload) => method = c.call.method ∧ event = .read c.call.id (.error payload)
  | .error (.transport _) => ∀ id outcome, event ≠ .read id outcome
  | .error _ => False

theorem explains_resultOf {call : PendingCall Caller} {outcome : Outcome} :
    Explains (.read call.id outcome) ⟨call, Link.resultOf call.method outcome⟩ := by
  cases outcome with
  | ok v => rfl
  | error payload => exact ⟨rfl, rfl⟩

theorem explains_transport {event : Event Caller} {c : Completion Caller} {reason : TransportError}
    (hresult : c.result = .error (.transport reason)) (hevent : ∀ id outcome, event ≠ .read id outcome) :
    Explains event c := by
  unfold Explains
  rw [hresult]
  exact hevent

/-! ## One moment -/

/-- At a moment only outstanding calls end, each once and for a reason; and a reply ends its call. -/
structure Correlated (older : List (Moment Caller)) (m : Moment Caller) : Prop where
  outstanding : ∀ c ∈ m.ended, Outstanding older c.call
  once : (m.ended.map (·.call.id)).Nodup
  explained : ∀ c ∈ m.ended, Explains m.event c
  replied : ∀ id outcome, m.event = .read id outcome → m.ended.length ≤ 1 ∧
    ∀ call, Outstanding older call → call.id = id →
      m.ended = [⟨call, Link.resultOf call.method outcome⟩]

/-- A moment at which no call ends, and that is no reply. -/
theorem correlated_of_quiet {older : List (Moment Caller)} {event : Event Caller}
    (h : ∀ id outcome, event ≠ .read id outcome) : Correlated older ⟨event, []⟩ where
  outstanding := by simp
  once := List.nodup_nil
  explained := by simp
  replied := fun id outcome hevent => absurd hevent (h id outcome)

/-- A moment at which calls of the table end for a failure of the connection. -/
theorem correlated_of_failed {x : Exchange Caller} (htable : x.Table) {ended : List (Completion Caller)}
    {link : Link Caller} (hsettles : x.link.Settles ended link) {reason : TransportError}
    (hresult : ∀ c ∈ ended, c.result = .error (.transport reason)) {event : Event Caller}
    (hevent : ∀ id outcome, event ≠ .read id outcome) : Correlated x.log ⟨event, ended⟩ where
  outstanding := fun c hc => (htable.mem_pending c.call).mp (hsettles.registered c hc)
  once := hsettles.once
  explained := fun c hc => explains_transport (hresult c hc) hevent
  replied := fun id outcome h => absurd h (hevent id outcome)

theorem correlated_of_resolved {x : Exchange Caller} (htable : x.Table) {id : UInt32} {outcome : Outcome}
    {c : Completion Caller} {link : Link Caller} (found : x.link.resolve id outcome = .ok (c, link)) :
    Correlated x.log ⟨.read id outcome, [c]⟩ := by
  obtain ⟨hsettles, -, hid, hresult⟩ := Link.resolve_spec htable.ordered found
  have hcall := hsettles.registered c List.mem_cons_self
  obtain ⟨call, result⟩ := c
  obtain rfl : call.id = id := hid
  obtain rfl : result = Link.resultOf call.method outcome := hresult
  refine ⟨?_, by simp, ?_, ?_⟩
  · simpa using (htable.mem_pending call).mp hcall
  · simpa using explains_resultOf
  · rintro id' outcome' heq
    obtain ⟨rfl, rfl⟩ := Event.read.inj heq
    refine ⟨by simp, fun other hother hsame => ?_⟩
    rw [htable.ordered.eq_of_id_eq ((htable.mem_pending other).mpr hother) hcall hsame]

/-- A reply without a call ends none. -/
theorem correlated_of_absent {x : Exchange Caller} (htable : x.Table) {id : UInt32} {outcome : Outcome}
    (absent : ∀ call ∈ x.link.pending, call.id ≠ id) : Correlated x.log ⟨.read id outcome, []⟩ where
  outstanding := by simp
  once := List.nodup_nil
  explained := by simp
  replied := by
    rintro id' outcome' heq
    obtain ⟨rfl, rfl⟩ := Event.read.inj heq
    exact ⟨by simp, fun call hcall hid => absurd hid (absent call ((htable.mem_pending call).mpr hcall))⟩

/-! ## All moments -/

theorem correlated_endRun {x : Exchange Caller} (htable : x.Table) (h : Throughout Correlated x.log)
    (result : Except Failure Unit) : Throughout Correlated (x.endRun result).log := by
  obtain ⟨hsettles, -, -, hresult, -⟩ := Link.close_spec htable.ordered rfl
  rw [endRun_log]
  exact throughout_concat.mpr ⟨h, correlated_of_failed htable hsettles hresult (by simp)⟩

theorem correlated_change {x y : Exchange Caller} (htable : x.Table) (h : Throughout Correlated x.log)
    (hxy : Change x y) : Throughout Correlated y.log := by
  cases hxy with
  | nothing => exact h
  | called _ _ => exact throughout_concat.mpr ⟨h, correlated_of_quiet (by simp)⟩
  | refused caller method _ => exact throughout_concat.mpr ⟨h, correlated_of_quiet (by simp)⟩
  | abandoned caller => exact throughout_concat.mpr ⟨h, correlated_of_quiet (by simp)⟩
  | posted _ => exact throughout_concat.mpr ⟨h, correlated_of_quiet (by simp)⟩
  | taken _ _ => exact h
  | written _ => exact throughout_concat.mpr ⟨h, correlated_of_quiet (by simp)⟩
  | lost _ fails =>
    obtain ⟨hsettles, -, hended, -⟩ := Link.writeFailed_spec htable.ordered fails
    exact throughout_concat.mpr
      ⟨h, correlated_of_failed htable hsettles (fun c hc => (hended c hc).2) (by simp)⟩
  | answered _ found => exact throughout_concat.mpr ⟨h, correlated_of_resolved htable found⟩
  | @unmatched id outcome _ absent =>
    have hread : Throughout Correlated (x.note (.read id outcome)).log :=
      throughout_concat.mpr ⟨h, correlated_of_absent htable absent⟩
    have htable := htable.note (y := x.note (.read id outcome)) (e := .read id outcome) rfl rfl rfl rfl
    exact correlated_endRun htable hread _
  | halted cause _ => exact correlated_endRun htable h _
  | closed closes =>
    obtain ⟨hsettles, -, -, hresult, -⟩ := Link.close_spec htable.ordered closes
    exact throughout_concat.mpr ⟨h, correlated_of_failed htable hsettles hresult (by simp)⟩

theorem correlated_after (acts : List (Act Caller)) : Throughout Correlated (after acts).log :=
  table_induction (P := fun x => Throughout Correlated x.log) throughout_nil
    (fun _ _ htable hxy h => correlated_change htable h hxy) acts

/-! ## Each call once -/

/-- A call that has ended was registered. -/
theorem mem_calls_of_ended {log : List (Moment Caller)} (h : Throughout Correlated log)
    {c : Completion Caller} (hc : c ∈ endings log) : c.call ∈ calls log := by
  obtain ⟨m, hm, hended⟩ := List.mem_flatMap.mp hc
  obtain ⟨older, newer, hlog⟩ := List.append_of_mem hm
  rw [hlog, calls_append]
  exact List.mem_append_left _ ((h older m newer hlog).outstanding c hended).mem_calls

/-- As long as no id comes round, an id has one end, and none while its call is outstanding. -/
theorem ended_once {log : List (Moment Caller)} (h : Throughout Correlated log)
    (hids : ((calls log).map (·.id)).Nodup) :
    ((endings log).map (·.call.id)).Nodup ∧
      ∀ call, Outstanding log call → call.id ∉ (endings log).map (·.call.id) := by
  induction log using List.reverseRecOn with
  | nil => exact ⟨List.nodup_nil, fun call hcall => absurd hcall (not_outstanding_nil call)⟩
  | append_singleton log m ih =>
    obtain ⟨hlog, hm⟩ := throughout_concat.mp h
    rw [calls_append, List.map_append, List.nodup_append] at hids
    obtain ⟨honce, hnone⟩ := ih hlog hids.1
    have hendings : endings (log ++ [m]) = endings log ++ m.ended := by simp [endings]
    have hnow : ∀ c ∈ m.ended, c.call ∈ calls log := fun c hc => (hm.outstanding c hc).mem_calls
    constructor
    · rw [hendings, List.map_append, List.nodup_append]
      refine ⟨honce, hm.once, ?_⟩
      rintro id hid other hother rfl
      obtain ⟨c, hc, rfl⟩ := List.mem_map.mp hother
      exact hnone c.call (hm.outstanding c hc) hid
    · intro call hcall hmem
      rw [hendings, List.map_append, List.mem_append] at hmem
      rcases outstanding_concat.mp hcall with hnew | ⟨hold, hleft⟩
      · -- a call that was registered just now has an id that no earlier call had
        have hother : ∃ d ∈ calls log, d.id = call.id := by
          rcases hmem with hmem | hmem <;> obtain ⟨c, hc, hid⟩ := List.mem_map.mp hmem
          · exact ⟨c.call, mem_calls_of_ended hlog hc, hid⟩
          · exact ⟨c.call, hnow c hc, hid⟩
        obtain ⟨d, hd, hid⟩ := hother
        exact hids.2.2 d.id (List.mem_map.mpr ⟨d, hd, rfl⟩) call.id (by simp [calls, hnew]) hid
      · rcases hmem with hmem | hmem
        · exact hnone call hold hmem
        · obtain ⟨c, hc, hid⟩ := List.mem_map.mp hmem
          exact hleft c hc hid

/-- **Calls end with their own replies.** In every history of fewer than 2^32 calls the table holds the outstanding calls, no two
under one id; different calls have different ids, and every call ends at most once. At every moment only outstanding calls end: with a
result or a remote failure only by the reply with their id that is processed just then, and otherwise with a failure of the
connection. A reply ends at most one call, and the call with its id if there is one. -/
theorem calls_end_with_own_replies (acts : List (Act Caller))
    (few : (calls (after acts).log).length < 2 ^ 32) :
    (∀ call, call ∈ (after acts).link.pending ↔ Outstanding (after acts).log call) ∧
    ((after acts).link.pending.map (·.id)).Nodup ∧
    ((calls (after acts).log).map (·.id)).Nodup ∧
    ((endings (after acts).log).map (·.call.id)).Nodup ∧
    (∀ c ∈ endings (after acts).log, c.call ∈ calls (after acts).log) ∧
    Throughout Correlated (after acts).log := by
  have htable := table_after acts
  have hcorrelated := correlated_after acts
  have hids := (numbered_after acts few).nodup few
  exact ⟨htable.mem_pending, htable.ordered.nodup, hids, (ended_once hcorrelated hids).1,
    fun c hc => mem_calls_of_ended hcorrelated hc, hcorrelated⟩

/-- Two calls that are answered in the other order, one with a failure. -/
def swappedReplies : List (Act Nat) :=
  [.invoke 0 "first" [], .invoke 1 "second" [], .take, .write, .take, .write,
    .read 2 (.error .null), .read 1 (.ok (.bool true))]

theorem swapped_replies_reach_their_calls :
    (calls (after swappedReplies).log).length < 2 ^ 32 ∧
    endings (after swappedReplies).log =
      [⟨⟨2, "second", 1⟩, .error (.remote "second" .null)⟩, ⟨⟨1, "first", 0⟩, .ok (.bool true)⟩] ∧
    ((endings (after swappedReplies).log).map (·.call.id)).Nodup ∧
    Throughout Correlated (after swappedReplies).log := by
  have few : (calls (after swappedReplies).log).length < 2 ^ 32 := by decide
  obtain ⟨-, -, -, honce, -, hcorrelated⟩ := calls_end_with_own_replies swappedReplies few
  exact ⟨few, rfl, honce, hcorrelated⟩

end EditorLink.Exchange
