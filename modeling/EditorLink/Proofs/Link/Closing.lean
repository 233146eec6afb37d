import EditorLink.Proofs.Link.Invariant

/-!
# EditorLink.Proofs.Link.Closing -- no call survives the end of a session

A link may be closed by the end of a run and from the local side, in any order, any number of times and for any reasons. The first
time ends every outstanding call with its reason. From then on the table stays empty, and every new call is refused with that first
reason and queues nothing.
-/

namespace EditorLink.Exchange

variable {Caller : Type}

/-- The first closing ends every outstanding call with its reason. -/
def EndsAll (older : List (Moment Caller)) (m : Moment Caller) : Prop :=
  ∀ reason, m.event.closes? = some reason → firstClose older = none →
    ∀ call, Outstanding older call → ⟨call, .error (.transport reason)⟩ ∈ m.ended

theorem endsAll_of_open {older : List (Moment Caller)} {m : Moment Caller} (h : m.event.closes? = none) :
    EndsAll older m := by
  intro reason hreason
  rw [h] at hreason
  cases hreason

/-- A closing takes all calls out of the table. -/
theorem endsAll_of_close {x : Exchange Caller} (htable : x.Table) {reason : TransportError}
    {ended : List (Completion Caller)} {link : Link Caller} (closes : x.link.close reason = (ended, link))
    {event : Event Caller} (hevent : event.closes? = some reason) : EndsAll x.log ⟨event, ended⟩ := by
  intro given hgiven _ call hcall
  obtain rfl : reason = given := Option.some.inj (hevent.symm.trans hgiven)
  obtain ⟨-, -, -, -, hall⟩ := Link.close_spec htable.ordered closes
  exact hall call ((htable.mem_pending call).mpr hcall)

theorem endsAll_endRun {x : Exchange Caller} (htable : x.Table) (h : Throughout EndsAll x.log)
    (result : Except Failure Unit) : Throughout EndsAll (x.endRun result).log := by
  rw [endRun_log]
  exact throughout_concat.mpr ⟨h, endsAll_of_close htable rfl (closes?_runEnded result)⟩

theorem endsAll_change {x y : Exchange Caller} (htable : x.Table) (h : Throughout EndsAll x.log)
    (hxy : Change x y) : Throughout EndsAll y.log := by
  cases hxy with
  | nothing => exact h
  | taken _ _ => exact h
  | @unmatched id outcome _ _ =>
    have hread : Throughout EndsAll (x.note (.read id outcome)).log :=
      throughout_concat.mpr ⟨h, endsAll_of_open rfl⟩
    have htable := htable.note (y := x.note (.read id outcome)) (e := .read id outcome) rfl rfl rfl rfl
    exact endsAll_endRun htable hread _
  | halted cause _ => exact endsAll_endRun htable h _
  | closed closes => exact throughout_concat.mpr ⟨h, endsAll_of_close htable closes rfl⟩
  | _ => exact throughout_concat.mpr ⟨h, endsAll_of_open rfl⟩

theorem endsAll_after (acts : List (Act Caller)) : Throughout EndsAll (after acts).log :=
  table_induction (P := fun x => Throughout EndsAll x.log) throughout_nil
    (fun _ _ htable hxy h => endsAll_change htable h hxy) acts

/-- The logs of longer histories are longer. -/
theorem log_after_append (acts more : List (Act Caller)) :
    ∃ rest, (after (acts ++ more)).log = (after acts).log ++ rest := by
  induction more using List.reverseRecOn with
  | nil => exact ⟨[], by simp⟩
  | append_singleton more a ih =>
    obtain ⟨rest, hrest⟩ := ih
    obtain ⟨new, hnew⟩ := (change_act (after (acts ++ more)) a).log_grows
    refine ⟨rest ++ new, ?_⟩
    rw [← List.append_assoc, after_concat, hnew, hrest, List.append_assoc]

/-- Whatever happens after a link is closed, it stays closed with the same reason. -/
theorem closedWith_after_append {acts : List (Act Caller)} {reason : TransportError}
    (h : (after acts).link.closedWith = some reason) (more : List (Act Caller)) :
    (after (acts ++ more)).link.closedWith = some reason := by
  -- the first reason of the shorter log is the first one of the longer log
  rw [closedWith_after] at h
  obtain ⟨rest, hrest⟩ := log_after_append acts more
  rw [closedWith_after, hrest, firstClose, List.findSome?_append, ← firstClose, h, Option.some_or]

/-- **No call survives the end of a session.** In every history a call that was registered and has not ended is in the table, also when
its caller went away. The first closing, by the end of a run or from the local side, ends every outstanding call with its reason. Once
a link is closed, then whatever follows it stays closed with the reason of the first time, the table is empty, nothing is outstanding,
and a new call is refused with that reason and changes nothing else. -/
theorem no_call_survives_closing (acts : List (Act Caller)) :
    (∀ call, Outstanding (after acts).log call → call ∈ (after acts).link.pending) ∧
    Throughout EndsAll (after acts).log ∧
    (after acts).link.closedWith = firstClose (after acts).log ∧
    ∀ reason, (after acts).link.closedWith = some reason → ∀ more : List (Act Caller),
      (after (acts ++ more)).link.closedWith = some reason ∧
      (after (acts ++ more)).link.pending = [] ∧
      (∀ call, ¬ Outstanding (after (acts ++ more)).log call) ∧
      ∀ caller method args, (after (acts ++ more)).act (.invoke caller method args) =
        (after (acts ++ more)).note (.refused caller method reason) := by
  refine ⟨fun call => ((table_after acts).mem_pending call).mpr, endsAll_after acts, closedWith_after acts, ?_⟩
  intro reason hreason more
  have hclosed := closedWith_after_append hreason more
  have htable := table_after (acts ++ more)
  have hempty : (after (acts ++ more)).link.pending = [] := htable.closed (by simp [hclosed])
  refine ⟨hclosed, hempty, fun call hcall => ?_, fun caller method args => ?_⟩
  · have hmem := (htable.mem_pending call).mpr hcall
    simp [hempty] at hmem
  · rw [act, Link.invoke_closed hclosed]

/-- Receiving fails while a call is outstanding. -/
def brokenThenClosed : List (Act Nat) :=
  [.invoke 0 "slow" [], .stop (.broken (.receiveFailed "reset"))]

theorem broken_run_keeps_its_reason :
    (after brokenThenClosed).link.closedWith = some (.receiveFailed "reset") ∧
    endings (after brokenThenClosed).log = [⟨⟨1, "slow", 0⟩, .error (.transport (.receiveFailed "reset"))⟩] ∧
    ∀ more caller method args, (after (brokenThenClosed ++ more)).act (.invoke caller method args) =
      (after (brokenThenClosed ++ more)).note (.refused caller method (.receiveFailed "reset")) := by
  obtain ⟨-, -, -, hlater⟩ := no_call_survives_closing brokenThenClosed
  exact ⟨rfl, rfl, fun more => (hlater _ rfl more).2.2.2⟩

end EditorLink.Exchange
