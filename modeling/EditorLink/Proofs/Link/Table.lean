import EditorLink.Link
import Mathlib.Data.List.Nodup
import Mathlib.Tactic.Tauto

/-!
# EditorLink.Proofs.Link.Table -- what the operations of a link do to its table

The table of a link is **ordered**: its calls have different ids, lowest first. Each operation is described once, by what it leaves of
the table, of the queue and of the reason for closing; nothing later opens an operation.
-/

namespace EditorLink.Link

variable {Caller : Type}

/-! ## Order -/

/-- The calls of the table have different ids, lowest first. -/
def Ordered (l : Link Caller) : Prop :=
  l.pending.Pairwise fun c d => c.id < d.id

theorem Ordered.nodup {l : Link Caller} (h : l.Ordered) : (l.pending.map (·.id)).Nodup := by
  rw [List.Nodup, List.pairwise_map]
  exact h.imp fun hlt => UInt32.ne_of_lt hlt

/-- In an ordered table an id has one call. -/
theorem Ordered.eq_of_id_eq {l : Link Caller} (h : l.Ordered) {c d : PendingCall Caller}
    (hc : c ∈ l.pending) (hd : d ∈ l.pending) (heq : c.id = d.id) : c = d :=
  List.inj_on_of_nodup_map h.nodup hc hd heq

theorem mem_insertCall {c d : PendingCall Caller} {calls : List (PendingCall Caller)} :
    d ∈ insertCall c calls ↔ d = c ∨ d ∈ calls := by
  induction calls with
  | nil => simp [insertCall]
  | cons e rest ih =>
    by_cases hlt : c.id < e.id
    · simp [insertCall, hlt]
    · simp only [insertCall, hlt, if_false, List.mem_cons, ih]
      tauto

theorem pairwise_insertCall {c : PendingCall Caller} {calls : List (PendingCall Caller)}
    (hcalls : calls.Pairwise fun d e => d.id < e.id) (hfresh : ∀ d ∈ calls, d.id ≠ c.id) :
    (insertCall c calls).Pairwise fun d e => d.id < e.id := by
  induction calls with
  | nil => simp [insertCall]
  | cons e rest ih =>
    obtain ⟨hhead, hrest⟩ := List.pairwise_cons.mp hcalls
    -- the new call goes in front of `e`, or somewhere behind it
    by_cases hlt : c.id < e.id
    · simp only [insertCall, hlt, if_true]
      refine List.pairwise_cons.mpr ⟨?_, hcalls⟩
      intro d hd
      rcases List.mem_cons.mp hd with rfl | hd
      · exact hlt
      · exact UInt32.lt_trans hlt (hhead d hd)
    · simp only [insertCall, hlt, if_false]
      have hec : e.id < c.id :=
        UInt32.lt_of_le_of_ne (UInt32.not_lt.mp hlt) (hfresh e List.mem_cons_self)
      refine List.pairwise_cons.mpr ⟨?_, ih hrest fun d hd => hfresh d (List.mem_cons_of_mem _ hd)⟩
      intro d hd
      rcases mem_insertCall.mp hd with rfl | hd
      · exact hec
      · exact hhead d hd

/-! ## Looking up -/

theorem holds_iff {l : Link Caller} {id : UInt32} :
    l.holds id = true ↔ ∃ c ∈ l.pending, c.id = id := by
  simp [holds]

theorem holds_eq_false_iff {l : Link Caller} {id : UInt32} :
    l.holds id = false ↔ ∀ c ∈ l.pending, c.id ≠ id := by
  simp [holds]

theorem find?_eq_some_iff {l : Link Caller} (h : l.Ordered) {id : UInt32} {c : PendingCall Caller} :
    l.find? id = some c ↔ c ∈ l.pending ∧ c.id = id := by
  constructor
  · intro hfind
    exact ⟨List.mem_of_find?_eq_some hfind, by simpa using List.find?_some hfind⟩
  · rintro ⟨hc, rfl⟩
    cases hfind : l.find? c.id with
    | none => exact absurd hfind (by simpa [find?] using ⟨c, hc, rfl⟩)
    | some d =>
      have hd : d ∈ l.pending := List.mem_of_find?_eq_some hfind
      have hid : d.id = c.id := by simpa using List.find?_some hfind
      rw [h.eq_of_id_eq hd hc hid]

theorem find?_eq_none_iff {l : Link Caller} {id : UInt32} :
    l.find? id = none ↔ ∀ c ∈ l.pending, c.id ≠ id := by
  simp [find?]

theorem freeId?_of_not_holds {l : Link Caller} {id : UInt32} (h : l.holds id = false) (fuel : Nat) :
    l.freeId? (fuel + 1) id = some id := by
  simp [freeId?, h]

/-- The id that a search ends with is free. -/
theorem not_holds_of_freeId? {l : Link Caller} {fuel : Nat} {start id : UInt32}
    (h : l.freeId? fuel start = some id) : l.holds id = false := by
  induction fuel generalizing start with
  | zero => simp [freeId?] at h
  | succ fuel ih =>
    cases hheld : l.holds start with
    | true => exact ih (by simpa [freeId?, hheld] using h)
    | false =>
      have hid : start = id := by simpa [freeId?, hheld] using h
      exact hid ▸ hheld

/-! ## Taking calls out -/

theorem mem_dropCall {l : Link Caller} {id : UInt32} {c : PendingCall Caller} :
    c ∈ (l.dropCall id).pending ↔ c ∈ l.pending ∧ c.id ≠ id := by
  simp [dropCall]

theorem Ordered.dropCall {l : Link Caller} (h : l.Ordered) (id : UInt32) : (l.dropCall id).Ordered :=
  List.Pairwise.filter _ h

/-! ## Calls that end -/

/-- Some calls of the table end: the others stay, and nothing is queued. -/
structure Settles (l : Link Caller) (ended : List (Completion Caller)) (after : Link Caller) : Prop where
  registered : ∀ c ∈ ended, c.call ∈ l.pending
  once : (ended.map (·.call.id)).Nodup
  mem_pending : ∀ call, call ∈ after.pending ↔ call ∈ l.pending ∧ ∀ c ∈ ended, c.call.id ≠ call.id
  ordered : after.Ordered
  outbound : after.outbound = l.outbound
  nextId : after.nextId = l.nextId

/-- One call ends. -/
theorem settles_dropCall {l : Link Caller} (h : l.Ordered) {call : PendingCall Caller}
    (hcall : call ∈ l.pending) (result : CallResult) :
    l.Settles [⟨call, result⟩] (l.dropCall call.id) where
  registered := by simpa using hcall
  once := by simp
  mem_pending := by
    intro other
    rw [mem_dropCall]
    simp [ne_comm]
  ordered := h.dropCall call.id
  outbound := rfl
  nextId := rfl

theorem settles_nothing {l after : Link Caller} (hordered : after.Ordered) (hpending : after.pending = l.pending)
    (houtbound : after.outbound = l.outbound) (hnextId : after.nextId = l.nextId) : l.Settles [] after where
  registered := by simp
  once := by simp
  mem_pending := by simp [hpending]
  ordered := hordered
  outbound := houtbound
  nextId := hnextId

/-! ## Operations -/

/-- A closed link refuses with its reason. -/
theorem invoke_closed {l : Link Caller} {reason : TransportError} (h : l.closedWith = some reason)
    (caller : Caller) (method : String) (args : List Value) :
    l.invoke caller method args = some (.error reason) := by
  simp [invoke, h]

/-- What an accepted call changes. -/
structure Accepted (l : Link Caller) (caller : Caller) (method : String) (args : List Value)
    (id : UInt32) (after : Link Caller) : Prop where
  wasOpen : l.closedWith = none
  free : ∀ c ∈ l.pending, c.id ≠ id
  pending : after.pending = insertCall ⟨id, method, caller⟩ l.pending
  outbound : after.outbound = l.outbound ++ [.request id method args]
  closedWith : after.closedWith = none
  nextId : after.nextId = id + 1

theorem accepted_of_invoke {l after : Link Caller} {caller : Caller} {method : String} {args : List Value}
    {id : UInt32} (h : l.invoke caller method args = some (.ok (id, after))) :
    l.Accepted caller method args id after := by
  unfold invoke at h
  split at h
  · simp at h
  · rename_i hopen
    split at h
    · simp at h
    · rename_i found hfree
      simp only [Option.some.injEq, Except.ok.injEq, Prod.mk.injEq] at h
      obtain ⟨rfl, rfl⟩ := h
      exact ⟨hopen, holds_eq_false_iff.mp (not_holds_of_freeId? hfree), rfl, rfl, hopen, rfl⟩

theorem refused_of_invoke {l : Link Caller} {caller : Caller} {method : String} {args : List Value}
    {reason : TransportError} (h : l.invoke caller method args = some (.error reason)) :
    l.closedWith = some reason := by
  unfold invoke at h
  split at h
  · rename_i hclosed
    simp only [Option.some.injEq, Except.error.injEq] at h
    rw [hclosed, h]
  · split at h <;> simp at h

/-- An id that is free when its turn comes is the id of the next call. -/
theorem id_of_invoke {l after : Link Caller} {caller : Caller} {method : String} {args : List Value}
    {id : UInt32} (hfree : l.holds l.nextId = false)
    (h : l.invoke caller method args = some (.ok (id, after))) : id = l.nextId := by
  unfold invoke at h
  split at h
  · simp at h
  · rw [freeId?_of_not_holds hfree] at h
    simp only [Option.some.injEq, Except.ok.injEq, Prod.mk.injEq] at h
    exact h.1.symm

theorem takeOutbound_eq_some_iff {l after : Link Caller} {m : Message} :
    l.takeOutbound = some (m, after) ↔ ∃ rest, l.outbound = m :: rest ∧ after = { l with outbound := rest } := by
  unfold takeOutbound
  split
  · rename_i hnil
    simp [hnil]
  · rename_i n rest hcons
    simp only [hcons, Option.some.injEq, Prod.mk.injEq, List.cons.injEq]
    constructor
    · rintro ⟨rfl, rfl⟩
      exact ⟨rest, ⟨rfl, rfl⟩, rfl⟩
    · rintro ⟨_, ⟨rfl, rfl⟩, rfl⟩
      exact ⟨rfl, rfl⟩

/-- A reply ends the call with its id. -/
theorem resolve_eq_ok_iff {l after : Link Caller} {id : UInt32} {outcome : Outcome} {c : Completion Caller} :
    l.resolve id outcome = .ok (c, after) ↔
      ∃ call, l.find? id = some call ∧ c = ⟨call, resultOf call.method outcome⟩ ∧ after = l.dropCall id := by
  unfold resolve
  cases l.find? id with
  | none => simp
  | some call =>
    simp only [Except.ok.injEq, Prod.mk.injEq, Option.some.injEq]
    constructor
    · rintro ⟨rfl, rfl⟩
      exact ⟨call, rfl, rfl, rfl⟩
    · rintro ⟨_, rfl, rfl, rfl⟩
      exact ⟨rfl, rfl⟩

theorem resolve_eq_error_iff {l : Link Caller} {id : UInt32} {outcome : Outcome} {e : Failure} :
    l.resolve id outcome = .error e ↔ l.find? id = none ∧ e = .unmatchedReply id := by
  unfold resolve
  cases l.find? id with
  | none => simp [eq_comm]
  | some call => simp

/-- A reply ends exactly the call with its id, with what it means for the method of that call. -/
theorem resolve_spec {l after : Link Caller} (h : l.Ordered) {id : UInt32} {outcome : Outcome}
    {c : Completion Caller} (hresolve : l.resolve id outcome = .ok (c, after)) :
    l.Settles [c] after ∧ after.closedWith = l.closedWith ∧ c.call.id = id ∧
      c.result = resultOf c.call.method outcome := by
  obtain ⟨call, hfind, rfl, rfl⟩ := resolve_eq_ok_iff.mp hresolve
  obtain ⟨hcall, rfl⟩ := (find?_eq_some_iff h).mp hfind
  exact ⟨settles_dropCall h hcall _, rfl, rfl, rfl⟩

/-- A failed write ends the call of the request, if that is still registered, and no other. -/
theorem writeFailed_spec {l after : Link Caller} (h : l.Ordered) {m : Message} {reason : TransportError}
    {ended : Option (Completion Caller)} (hfail : l.writeFailed m reason = (ended, after)) :
    l.Settles ended.toList after ∧ after.closedWith = l.closedWith ∧
      (∀ c ∈ ended.toList, m.requestId? = some c.call.id ∧ c.result = .error (.transport reason)) ∧
      ∀ call ∈ after.pending, m.requestId? ≠ some call.id := by
  unfold writeFailed at hfail
  cases hid : m.requestId? with
  | none =>
    simp only [hid, Prod.mk.injEq] at hfail
    obtain ⟨rfl, rfl⟩ := hfail
    exact ⟨settles_nothing h rfl rfl rfl, rfl, by simp, by simp⟩
  | some id =>
    simp only [hid, reject, Prod.mk.injEq] at hfail
    obtain ⟨rfl, rfl⟩ := hfail
    have hleft : ∀ call ∈ (l.dropCall id).pending, some id ≠ some call.id := by
      intro call hcall heq
      exact (mem_dropCall.mp hcall).2 (Option.some.inj heq).symm
    -- the call may have gone before, by a reply or by closing
    cases hfind : l.find? id with
    | none =>
      have hpending : (l.dropCall id).pending = l.pending := by
        simpa [dropCall] using find?_eq_none_iff.mp hfind
      exact ⟨settles_nothing (h.dropCall id) hpending rfl rfl, rfl, by simp, hleft⟩
    | some call =>
      obtain ⟨hcall, rfl⟩ := (find?_eq_some_iff h).mp hfind
      exact ⟨settles_dropCall h hcall _, rfl, by simp, hleft⟩

/-- Closing ends every call with the reason given, and keeps the reason of the first time. -/
theorem close_spec {l after : Link Caller} (h : l.Ordered) {reason : TransportError}
    {ended : List (Completion Caller)} (hclose : l.close reason = (ended, after)) :
    l.Settles ended after ∧ after.pending = [] ∧ after.closedWith = l.closedWith.or (some reason) ∧
      (∀ c ∈ ended, c.result = .error (.transport reason)) ∧
      ∀ call ∈ l.pending, ⟨call, .error (.transport reason)⟩ ∈ ended := by
  simp only [close, Prod.mk.injEq] at hclose
  obtain ⟨rfl, rfl⟩ := hclose
  refine ⟨⟨?_, ?_, ?_, ?_, rfl, rfl⟩, rfl, rfl, ?_, ?_⟩
  · intro c hc
    obtain ⟨call, hcall, rfl⟩ := List.mem_map.mp hc
    exact hcall
  · simpa [Function.comp_def] using h.nodup
  · intro call
    simp only [List.not_mem_nil, false_iff, not_and, not_forall]
    exact fun hcall => ⟨⟨call, _⟩, List.mem_map.mpr ⟨call, hcall, rfl⟩, by simp⟩
  · exact List.Pairwise.nil
  · intro c hc
    obtain ⟨call, -, rfl⟩ := List.mem_map.mp hc
    rfl
  · exact fun call hcall => List.mem_map.mpr ⟨call, hcall, rfl⟩

end EditorLink.Link
