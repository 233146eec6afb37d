import EditorLink.Proofs.Session.Aside
import EditorLink.Proofs.Wire.Inlets

/-!
# EditorLink.Proofs.Session.Verdict -- what ends a run

Whatever the reader receives lets the run go on or ends it, and which of the two it does can be told from what is received and from the
session as it is then (`verdict?`): a reply ends the run if no call waits for it, another message if the limit of unfinished handlers is
reached, the end of the stream and a failure of the connection always. The reader goes by the first verdict and receives nothing after it, and
nothing else makes a difference to what the run comes to.
-/

namespace EditorLink.Session

open Extension Wire

/-! ## Receipts and verdicts -/

/-- The result of the run if this is received now; `none` if the run goes on. -/
def verdict? (s : Session) : Received → Option (Except Failure Unit)
  | .message (.reply id _) => if s.link.holds id then none else some (.error (.unmatchedReply id))
  | .message _ => if s.limit ≤ (unfinished s).length then some (.error (.dispatchExhausted s.limit)) else none
  | .finished => some (.ok ())
  | .failed e => some (.error (.transport e))
  | .again => none
  | .blocked => none

/-- Something that the reader received, and the session as it was then. -/
structure Receipt where
  met : Session
  received : Received

namespace Receipt

def verdict? (r : Receipt) : Option (Except Failure Unit) :=
  r.met.verdict? r.received

def message? (r : Receipt) : Option Message :=
  r.received.message?

end Receipt

/-- What the reader receives in a move. -/
def receipt? (s : Session) : Move → Option Receipt
  | .step =>
    match s.focus with
    | .reading => some ⟨s, s.connection.receive.1⟩
    | _ => none
  | _ => none

/-- What can be told of each move, from the session as it was before, along a history. -/
def Chronicle.along {α : Type} (f : Session → Move → List α) (c : Chronicle) : List Move → List α
  | [] => []
  | m :: moves => f c.session m ++ (c.move m).along f moves

theorem Chronicle.after_append (setup : Setup) (moves more : List Move) : after setup (moves ++ more) = more.foldl move (after setup moves) :=
  List.foldl_append

theorem Chronicle.along_append {α : Type} (f : Session → Move → List α) (c : Chronicle) (moves more : List Move) :
    c.along f (moves ++ more) = c.along f moves ++ (moves.foldl Chronicle.move c).along f more := by
  induction moves generalizing c with
  | nil => rfl
  | cons m moves ih =>
    rw [List.cons_append, along, along, ih, List.append_assoc]
    rfl

theorem Chronicle.along_concat {α : Type} (f : Session → Move → List α) (c : Chronicle) (moves : List Move) (m : Move) :
    c.along f (moves ++ [m]) = c.along f moves ++ f (moves.foldl Chronicle.move c).session m := by
  rw [along_append, along, along, List.append_nil]

/-- The same along the history of a session. -/
def told {α : Type} (f : Session → Move → List α) (setup : Setup) (moves : List Move) : List α :=
  Chronicle.along f { session := ofSetup setup } moves

@[simp] theorem told_nil {α : Type} (f : Session → Move → List α) (setup : Setup) : told f setup [] = [] := rfl

@[simp] theorem told_concat {α : Type} (f : Session → Move → List α) (setup : Setup) (moves : List Move) (m : Move) :
    told f setup (moves ++ [m]) = told f setup moves ++ f (Chronicle.after setup moves).session m :=
  Chronicle.along_concat f _ moves m

/-- What can be told of a move in the middle of a history. -/
theorem mem_told {α : Type} {f : Session → Move → List α} {setup : Setup} {before : List Move} {m : Move} {x : α}
    (h : x ∈ f (Chronicle.after setup before).session m) (later : List Move) : x ∈ told f setup (before ++ m :: later) := by
  induction later using List.reverseRecOn with
  | nil =>
    rw [told_concat]
    exact List.mem_append_right _ h
  | append_singleton later n ih =>
    rw [← List.cons_append, ← List.append_assoc, told_concat]
    exact List.mem_append_left _ ih

/-- All that the reader received. -/
def receipts (setup : Setup) (moves : List Move) : List Receipt :=
  told (fun s m => (s.receipt? m).toList) setup moves

/-- The first verdict. -/
def firstVerdict? (receipts : List Receipt) : Option (Except Failure Unit) :=
  receipts.findSome? Receipt.verdict?

theorem receipt?_of_aside {s : Session} {m : Move} (h : m = .step → s.focus ≠ .reading) : s.receipt? m = none := by
  cases m with
  | step =>
    rw [receipt?]
    cases hfocus : s.focus with
    | reading => exact absurd hfocus (h rfl)
    | _ => rfl
  | _ => rfl

theorem receipt?_of_reading {s : Session} (reading : s.focus = .reading) :
    s.receipt? .step = some ⟨s, s.connection.receive.1⟩ := by
  rw [receipt?, reading]

/-! ## One step of reading -/

/-- Reading ends the run: nothing else changes but that the last part of the run begins. -/
structure Parting (s s' : Session) (result : Except Failure Unit) : Prop where
  standing : s'.standing = { s.standing with ended := true }
  keys : Distinct s → ∃ t, (s'.live.map Task.key).Perm ((t, .farewell result) :: s.live.map Task.key)
  focus : ∃ t, s'.focus = .running t (.farewell result) s.farewell []

/-- The end of reading, from a session that is the same but for what a run does not go by. -/
theorem parting_endReading {s t : Session} (hstanding : t.standing = s.standing) (hlive : t.live = s.live)
    (hidle : t.focus.task? = none) (result : Except Failure Unit) : Parting s (t.endReading result) result := by
  obtain ⟨tasks, due, journal, hclose, htasks⟩ := t.closeWith_spec (closeReason result)
  have htasks' : t.live = t.tasks := by simp [live, hidle]
  -- a failure is reported, which is nothing to the run
  have hends : (t.endReading result).standing = { t.standing with ended := true } ∧
      (t.endReading result).tasks = tasks ∧
      (t.endReading result).focus = .running t.nextTask (.farewell result) t.farewell [] := by
    unfold endReading
    rw [hclose]
    cases result <;> exact ⟨rfl, rfl, rfl⟩
  obtain ⟨hended, htasks'', hfocus⟩ := hends
  refine ⟨hended.trans (by rw [hstanding]), ?_, t.nextTask, ?_⟩
  · intro hdistinct
    rw [Distinct, ← hlive, htasks'] at hdistinct
    refine ⟨t.nextTask, ?_⟩
    rw [live, htasks'', hfocus, List.map_append, ← hlive, htasks']
    exact (List.perm_append_singleton _ _).trans ((htasks.keys hdistinct).cons _)
  · rw [hfocus, show t.farewell = s.farewell from congrArg Standing.farewell hstanding]

/-- What reading comes to. The run goes on, or it ends with a result; what is still to be read is left alone. -/
structure Dealt (s s' : Session) (verdict : Option (Except Failure Unit)) : Prop where
  goesOn : verdict = none → Effect s s'
  ends : ∀ result, verdict = some result → Parting s s' result
  inlet : s'.connection.inlet = s.connection.inlet
  hostClosed : s.host.closed = true → s'.host.closed = true

theorem Spares.dealt {s s' : Session} (h : Spares s s') : Dealt s s' none :=
  ⟨fun _ => .spares h.standing h.keys, fun _ hsome => (nomatch hsome), h.inlet, h.hostClosed⟩

/-- The end of reading, from a session that is the same but for what a run does not go by. -/
theorem dealt_endReading {s t : Session} (result : Except Failure Unit)
    (hsame : t.standing = s.standing ∧ t.live = s.live ∧ t.connection = s.connection ∧ t.host = s.host)
    (hidle : t.focus.task? = none) : Dealt s (t.endReading result) (some result) := by
  obtain ⟨hstanding, hlive, hconnection, hhost⟩ := hsame
  have hclose := Spares.closeWith t (closeReason result)
  have hends : (t.endReading result).connection = (t.closeWith (closeReason result)).connection ∧
      (t.endReading result).host = (t.closeWith (closeReason result)).host := by
    unfold endReading
    cases result <;> exact ⟨rfl, rfl⟩
  refine ⟨fun hnone => (nomatch hnone), ?_, ?_, ?_⟩
  · rintro _ ⟨⟩
    exact parting_endReading hstanding hlive hidle result
  · rw [hends.1, hclose.inlet, hconnection]
  · rw [hends.2, ← hhost]
    exact hclose.hostClosed

section Reading

variable {s : Session}

theorem idle_of_reading (reading : s.focus = .reading) : s.focus.task? = none := by
  rw [reading]
  rfl

/-- A reply is handed to its call, or ends the run if there is none. -/
theorem dealt_reply (reading : s.focus = .reading) (id : UInt32) (outcome : Outcome) :
    Dealt s (s.handle (.reply id outcome)) (s.verdict? (.message (.reply id outcome))) := by
  have hlink : (s.report (.replyReceived id outcome.isOk)).link = s.link := rfl
  simp only [handle, hlink, verdict?]
  cases hresolve : s.link.resolve id outcome with
  | error e =>
    obtain ⟨hfind, rfl⟩ := Link.resolve_eq_error_iff.mp hresolve
    have hnone : ¬ s.link.holds id = true := by
      rw [Bool.not_eq_true, Link.holds_eq_false_iff]
      exact Link.find?_eq_none_iff.mp hfind
    rw [if_neg hnone]
    have hidle : (s.report (.replyReceived id outcome.isOk)).focus.task? = none := idle_of_reading reading
    exact dealt_endReading _ ⟨rfl, rfl, rfl, rfl⟩ hidle
  | ok found =>
    obtain ⟨c, link⟩ := found
    obtain ⟨call, hfind, -, -⟩ := Link.resolve_eq_ok_iff.mp hresolve
    have hheld : s.link.holds id = true := by
      rw [Link.holds_iff]
      exact ⟨call, List.mem_of_find?_eq_some hfind, by simpa using List.find?_some hfind⟩
    rw [if_pos hheld]
    -- whether the caller is gone shows in a notice only
    show Dealt s (complete (if _ then _ else _) c) none
    have hnoted : Spares s { s.report (.replyReceived id outcome.isOk) with link } :=
      .eased rfl rfl (fun h => h) (.refl _) rfl
    split
    · exact (hnoted.trans (.complete _ c)).dealt
    · have hgone : Spares s (report { s.report (.replyReceived id outcome.isOk) with link } (.callerGone id c.call.method)) :=
        .eased rfl rfl (fun h => h) (.refl _) rfl
      exact (hgone.trans (.complete _ c)).dealt

/-- A handler begins, or the run ends because too many are unfinished. -/
theorem dealt_message (reading : s.focus = .reading) (hcount : s.inFlight = (unfinished s).length) (m : Message) :
    Dealt s (s.handle m) (s.verdict? (.message m)) := by
  cases m with
  | reply id outcome => exact dealt_reply reading id outcome
  | notify method args =>
    simp only [handle, dispatch, verdict?, ← hcount]
    by_cases hfull : s.limit ≤ s.inFlight
    · simp only [if_pos hfull]
      exact dealt_endReading _ ⟨rfl, rfl, rfl, rfl⟩ (idle_of_reading reading)
    · simp only [if_neg hfull]
      have hlive := live_spawn { s with inFlight := s.inFlight + 1 } (.notification method) (Handling.notification method args)
      refine ⟨fun _ => ?_, fun _ hsome => absurd hsome (by simp), rfl, fun hclosed => hclosed⟩
      exact .begins (t := ⟨s.nextTask, .notification method, .turn (Handling.notification method args), []⟩) rfl rfl hlive
  | request id method args =>
    simp only [handle, verdict?, ← hcount]
    rcases s.dispatchRequest_spec id method args with ⟨hfull, due, journal, writerDue, herror⟩ | ⟨hfree, hok⟩
    · rw [herror, if_pos hfull]
      exact dealt_endReading _ ⟨rfl, rfl, rfl, rfl⟩ (idle_of_reading reading)
    · rw [hok, if_neg hfree]
      have hlive := live_spawn { s with inFlight := s.inFlight + 1 } (.request id method) (Handling.request method args)
      refine ⟨fun _ => ?_, fun _ hsome => absurd hsome (by simp), rfl, fun hclosed => hclosed⟩
      exact .begins (t := ⟨s.nextTask, .request id method, .turn (Handling.request method args), []⟩) rfl rfl hlive

/-- **One step of reading** comes to what the verdict says. -/
theorem dealt_readStep (reading : s.focus = .reading) (hopen : s.reader ≠ .ended) (hcount : s.inFlight = (unfinished s).length) :
    Dealt { s with connection := s.connection.receive.2 } s.readStep (s.verdict? s.connection.receive.1) := by
  unfold readStep
  generalize s.connection.receive = received
  obtain ⟨received, connection⟩ := received
  cases received with
  | message m => exact dealt_message (s := { s with connection }) reading hcount m
  | again => exact (Spares.refl { s with connection }).dealt
  | blocked =>
    have hwaits : Spares { s with connection } { s with connection, focus := .idle, reader := .waiting } := by
      refine .turned ?_ rfl id ?_
      · simp [standing, hopen]
      · simp [live, reading, Focus.task?]
    exact hwaits.dealt
  | finished => exact dealt_endReading _ ⟨rfl, rfl, rfl, rfl⟩ (idle_of_reading reading)
  | failed e => exact dealt_endReading _ ⟨rfl, rfl, rfl, rfl⟩ (idle_of_reading reading)

end Reading

/-! ## Whole histories -/

@[simp] theorem firstVerdict?_nil : firstVerdict? [] = none := rfl

theorem firstVerdict?_concat (receipts : List Receipt) (r : Receipt) :
    firstVerdict? (receipts ++ [r]) = (firstVerdict? receipts).or r.verdict? := by
  simp [firstVerdict?, List.findSome?_append]

/-- A run stands where the verdicts on what was received have brought it. -/
structure Judged (setup : Setup) (s : Session) (receipts : List Receipt) : Prop where
  limit : s.limit = setup.maxInFlight
  stopping : s.stopping = false
  farewell : s.farewell = setup.farewell
  counts : s.inFlight = (unfinished s).length
  ended : s.reader = .ended ↔ firstVerdict? receipts ≠ none
  comesTo : ∀ result, s.ComesTo result ↔ firstVerdict? receipts = some result
  /-- The reader receives nothing after the first verdict. -/
  receipts : Throughout (fun older r => firstVerdict? older = none ∧ r.met.limit = setup.maxInFlight) receipts

namespace Judged

variable {setup : Setup} {s s' : Session} {receipts : List Receipt}

/-- A run comes to one result at most. -/
theorem one (h : Judged setup s receipts) (first second : Except Failure Unit) (hfirst : s.ComesTo first) (hsecond : s.ComesTo second) :
    first = second :=
  Option.some.inj (((h.comesTo first).mp hfirst).symm.trans ((h.comesTo second).mp hsecond))

/-- A reader that is not over has had no verdict. -/
theorem undecided (h : Judged setup s receipts) (hopen : s.reader ≠ .ended) : firstVerdict? receipts = none := by
  by_contra hsome
  exact hopen (h.ended.mpr hsome)

/-- What leaves a run as it is leaves it where the verdicts have brought it. -/
theorem effect (h : Judged setup s receipts) (hdistinct : Distinct s) (heffect : Effect s s') : Judged setup s' receipts := by
  obtain ⟨hlimit, hfarewell, hstopping, hended⟩ := heffect.standing
  exact {
    limit := hlimit.trans h.limit
    stopping := hstopping.trans h.stopping
    farewell := hfarewell.trans h.farewell
    counts := heffect.counts hdistinct h.counts
    ended := hended.trans h.ended
    comesTo := fun result => (heffect.comesTo hdistinct h.one result).trans (h.comesTo result)
    receipts := h.receipts }

/-- What is received without a verdict makes no difference to the run. -/
theorem receive (h : Judged setup s receipts) (hopen : s.reader ≠ .ended) {r : Receipt} (hmet : r.met.limit = s.limit)
    (hnone : r.verdict? = none) : Judged setup s (receipts ++ [r]) := by
  have hbefore := h.undecided hopen
  have hafter : firstVerdict? (receipts ++ [r]) = firstVerdict? receipts := by
    rw [firstVerdict?_concat, hnone, Option.or_none]
  exact {
    limit := h.limit
    stopping := h.stopping
    farewell := h.farewell
    counts := h.counts
    ended := by rw [hafter]; exact h.ended
    comesTo := by rw [hafter]; exact h.comesTo
    receipts := throughout_concat.mpr ⟨h.receipts, hbefore, hmet.trans h.limit⟩ }

/-- The first verdict ends the run. -/
theorem part (h : Judged setup s receipts) (hdistinct : Distinct s) (hopen : s.reader ≠ .ended) {r : Receipt}
    (hmet : r.met.limit = s.limit) {result : Except Failure Unit} (hverdict : r.verdict? = some result)
    (hparting : Parting s s' result) : Judged setup s' (receipts ++ [r]) := by
  have hbefore := h.undecided hopen
  have hafter : firstVerdict? (receipts ++ [r]) = some result := by
    rw [firstVerdict?_concat, hbefore, hverdict, Option.none_or]
  obtain ⟨t, hkeys⟩ := hparting.keys hdistinct
  have hinFlight : s'.inFlight = s.inFlight := congrArg Standing.inFlight hparting.standing
  have hend : s'.runEnd = s.runEnd := congrArg Standing.runEnd hparting.standing
  have hreader : s'.reader = .ended := by simpa [Session.standing] using congrArg Standing.ended hparting.standing
  exact {
    limit := (congrArg Standing.limit hparting.standing).trans h.limit
    stopping := (congrArg Standing.stopping hparting.standing).trans h.stopping
    farewell := (congrArg Standing.farewell hparting.standing).trans h.farewell
    counts := by
      -- the last part of a run is no handler
      have hplain : (Role.farewell result).handler? = none := rfl
      have hlength := (hkeys.filter (·.2.handler?.isSome)).length_eq
      rw [List.filter_cons_of_neg (by simp [hplain])] at hlength
      exact (hinFlight.trans h.counts).trans hlength.symm
    ended := by simp [hreader, hafter]
    comesTo := by
      intro other
      have hnone : ¬ s.ComesTo other := by
        rw [h.comesTo, hbefore]
        simp
      rw [comesTo_iff_keys, not_or] at hnone
      obtain ⟨hgoing, hothers⟩ := hnone
      rw [hafter, comesTo_iff_keys, hend]
      simp only [hkeys.mem_iff, List.mem_cons, exists_eq_or_imp, hgoing, hothers, or_false, false_or]
      rfl
    receipts := throughout_concat.mpr ⟨h.receipts, hbefore, hmet.trans h.limit⟩ }

/-- One step of reading. -/
theorem readStep (h : Judged setup s receipts) (hdistinct : Distinct s) (reading : s.focus = .reading) (hopen : s.reader ≠ .ended) :
    Judged setup s.readStep (receipts ++ [⟨s, s.connection.receive.1⟩]) := by
  have hdealt := dealt_readStep reading hopen h.counts
  -- what is off the inlet is nothing to the verdicts
  have htaken : Judged setup { s with connection := s.connection.receive.2 } receipts :=
    ⟨h.limit, h.stopping, h.farewell, h.counts, h.ended, h.comesTo, h.receipts⟩
  cases hverdict : s.verdict? s.connection.receive.1 with
  | none => exact (htaken.receive hopen (r := ⟨s, s.connection.receive.1⟩) rfl hverdict).effect hdistinct (hdealt.goesOn hverdict)
  | some result =>
    exact htaken.part hdistinct hopen (r := ⟨s, s.connection.receive.1⟩) rfl hverdict (hdealt.ends result hverdict)

end Judged

theorem receipts_concat (setup : Setup) (moves : List Move) (m : Move) :
    receipts setup (moves ++ [m]) = receipts setup moves ++ ((Chronicle.after setup moves).session.receipt? m).toList :=
  told_concat _ setup moves m

theorem move_of_reading {s : Session} (reading : s.focus = .reading) : s.move .step = s.readStep := by
  rw [move, step, reading]
  rfl

/-- **A run stands where the verdicts have brought it**, in every history in which it is not asked to stop. -/
theorem judged_after (setup : Setup) {moves : List Move} (goesOn : .requestStop ∉ moves) :
    Judged setup (Chronicle.after setup moves).session (receipts setup moves) := by
  induction moves using List.reverseRecOn with
  | nil =>
    exact {
      limit := rfl
      stopping := rfl
      farewell := rfl
      counts := rfl
      ended := by simp [receipts, ofSetup]
      comesTo := by simp [receipts, ofSetup, ComesTo, live, Focus.task?]
      receipts := throughout_nil }
  | append_singleton moves m ih =>
    rw [List.mem_append, not_or, List.mem_singleton] at goesOn
    obtain ⟨hbefore, hm⟩ := goesOn
    have hjudged := ih hbefore
    have hdistinct : Distinct (Chronicle.after setup moves).session := (kept_after setup moves).live_nodup
    rw [receipts_concat, Chronicle.after_concat]
    show Judged setup ((Chronicle.after setup moves).session.move m) _
    by_cases hreads : m = .step ∧ (Chronicle.after setup moves).session.focus = .reading
    · obtain ⟨rfl, hreading⟩ := hreads
      have hopen := (mirrors_after setup moves).reading hreading
      rw [receipt?_of_reading hreading, move_of_reading hreading]
      exact hjudged.readStep hdistinct hreading hopen
    · have haside : IsAside (Chronicle.after setup moves).session m := ⟨fun hstep hreading => hreads ⟨hstep, hreading⟩, Ne.symm hm⟩
      rw [receipt?_of_aside haside.aside, Option.toList_none, List.append_nil]
      exact hjudged.effect hdistinct (beside_move haside hjudged.stopping).effect

/-- Only steps change what is going on. -/
theorem focus_move {s : Session} {m : Move} (hm : m ≠ .step) : (s.move m).focus = s.focus := by
  have hwake : ∀ t : Session, t.wakeReader.focus = t.focus := by
    intro t
    rw [wakeReader_eq]
  cases m with
  | step => exact absurd rfl hm
  | start =>
    show (if s.reader = .notStarted then _ else s).focus = _
    split <;> rfl
  | shutdown =>
    obtain ⟨tasks, due, journal, hclose, -⟩ := s.closeWith_spec .closed
    show (s.closeWith .closed).focus = _
    rw [hclose]
  | requestStop => exact hwake _
  | abandon tag =>
    rw [move, abandon]
    split <;> rfl
  | openGate gate =>
    obtain ⟨tasks, due, hresume, -⟩ := resumeGate_spec { s with openGates := gate :: s.openGates } gate
    show (resumeGate { s with openGates := gate :: s.openGates } gate).focus = _
    rw [hresume]
  | handOver id method args =>
    rw [move]
    rcases s.dispatchRequest_spec id method args with ⟨-, due, journal, writerDue, herror⟩ | ⟨-, hok⟩
    · rw [herror]
    · rw [hok]
      rfl
  | hostSend m =>
    rw [move, hostSend]
    split
    · next hopen =>
      split at hopen
      · cases hopen
      · cases hopen
        exact hwake _
    · rfl
  | hostWrite bytes => exact hwake _
  | hostHangUp => exact hwake _
  | hostLeave => exact hwake _
  | _ => rfl

/-- The end of a run stays what it is. -/
theorem Effect.runEnd {s s' : Session} (h : Effect s s')
    (hone : ∀ first second, s.ComesTo first → s.ComesTo second → first = second) {result : Except Failure Unit}
    (hend : s.runEnd = some result) : s'.runEnd = some result := by
  cases h with
  | spares hstanding _ => exact (congrArg Standing.runEnd hstanding).trans hend
  | begins _ hstanding _ => exact (congrArg Standing.runEnd hstanding).trans hend
  | drops _ _ hstanding _ => exact (congrArg Standing.runEnd hstanding).trans hend
  | @ends t hstanding htasks =>
    refine (congrArg Standing.runEnd hstanding).trans ?_
    show t.role.result?.or s.runEnd = some result
    rw [hend]
    cases hown : t.role.result? with
    | none => rfl
    | some own =>
      have hsame := hone own result (Or.inr ⟨t, by simp [htasks], hown⟩) (Or.inl hend)
      rw [hsame]
      rfl

/-- The run has ended with this result, or its next step ends it. -/
def Returns (s : Session) (result : Except Failure Unit) : Prop :=
  s.runEnd = some result ∨ ∃ id, s.focus = .running id (.farewell result) (.finish .done) []

/-- A run without a last part ends with its next step. -/
theorem Returns.step {s : Session} {result : Except Failure Unit} (h : Returns s result) (hended : s.reader = .ended)
    {setup : Setup} {receipts : List Receipt} (hjudged : Judged setup s receipts) (hfocus : s.focus = .reading → s.reader ≠ .ended) :
    (s.move .step).runEnd = some result := by
  rcases h with hend | ⟨id, hlast⟩
  · have haside : IsAside s .step := ⟨fun _ hreading => hfocus hreading hended, by simp⟩
    exact (beside_move haside hjudged.stopping).effect.runEnd hjudged.one hend
  · rw [move, Session.step, hlast]
    rfl

/-- The message that a deed is the handling of. -/
def Deed.message? : Deed → Option Message
  | link (.read id outcome) => some (.reply id outcome)
  | accepted _ (.notification method) args => some (.notify method args)
  | accepted _ (.request id method) args => some (.request id method args)
  | refused (.notification method) args => some (.notify method args)
  | refused (.request id method) args => some (.request id method args)
  | _ => none

/-- The messages that were handled, first things first. -/
def messages (log : List Deed) : List Message :=
  log.filterMap Deed.message?

end EditorLink.Session
