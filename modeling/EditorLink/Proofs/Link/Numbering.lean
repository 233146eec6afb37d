import Mathlib.Algebra.Group.Nat.Defs
import EditorLink.Proofs.Link.Invariant

/-!
# EditorLink.Proofs.Link.Numbering -- calls are numbered

Ids are given out in order from 1. As long as there have been fewer than 2^32 calls no id has come round again, so the `k`-th call
has the id `k`, and different calls of a history have different ids.
-/

namespace EditorLink.Exchange

variable {Caller : Type}

/-- The id of a call that comes after `k` others. -/
def numberedId (k : Nat) : UInt32 :=
  UInt32.ofNat (k + 1)

theorem numberedId_inj {j k : Nat} (hj : j + 1 < 2 ^ 32) (hk : k + 1 < 2 ^ 32)
    (h : numberedId j = numberedId k) : j = k := by
  have hnat : (numberedId j).toNat = (numberedId k).toNat := congrArg UInt32.toNat h
  rw [numberedId, numberedId, UInt32.toNat_ofNat_of_lt' hj, UInt32.toNat_ofNat_of_lt' hk] at hnat
  omega

theorem numberedId_succ (k : Nat) : numberedId k + 1 = numberedId (k + 1) := by
  rw [numberedId, numberedId, UInt32.ofNat_add (k + 1) 1]
  rfl

/-- The calls of a history have the ids from 1 on, and the next id follows them. -/
structure Numbered (x : Exchange Caller) : Prop where
  ids : (calls x.log).map (·.id) = (List.range (calls x.log).length).map numberedId
  next : x.link.nextId = numberedId (calls x.log).length

theorem Numbered.exists_number {x : Exchange Caller} (h : x.Numbered) {call : PendingCall Caller}
    (hcall : call ∈ calls x.log) : ∃ k < (calls x.log).length, call.id = numberedId k := by
  have hid : call.id ∈ (calls x.log).map (·.id) := List.mem_map.mpr ⟨call, hcall, rfl⟩
  rw [h.ids] at hid
  obtain ⟨k, hk, hkid⟩ := List.mem_map.mp hid
  exact ⟨k, List.mem_range.mp hk, hkid.symm⟩

/-- Different calls have different ids. -/
theorem Numbered.nodup {x : Exchange Caller} (h : x.Numbered) (few : (calls x.log).length < 2 ^ 32) :
    ((calls x.log).map (·.id)).Nodup := by
  rw [h.ids]
  refine List.Nodup.map_on ?_ List.nodup_range
  intro j hj k hk
  -- both numbers are below 2^32, where none comes round
  have hj := List.mem_range.mp hj
  have hk := List.mem_range.mp hk
  exact numberedId_inj (by omega) (by omega)

/-- The next id is no call's as long as it has not come round. -/
theorem Numbered.next_free {x : Exchange Caller} (htable : x.Table) (h : x.Numbered)
    (few : (calls x.log).length + 1 < 2 ^ 32) : x.link.holds x.link.nextId = false := by
  rw [Link.holds_eq_false_iff]
  intro call hcall heq
  obtain ⟨k, hk, hid⟩ := h.exists_number ((htable.mem_pending call).mp hcall).mem_calls
  have hsame : numberedId k = numberedId (calls x.log).length := by
    rw [← hid, heq, h.next]
  have := numberedId_inj (by omega) few hsame
  omega

theorem calls_append (log more : List (Moment Caller)) : calls (log ++ more) = calls log ++ calls more :=
  List.filterMap_append

/-- Moments that register no call. -/
theorem Numbered.keep {x y : Exchange Caller} (h : x.Numbered) (hnext : y.link.nextId = x.link.nextId)
    {more : List (Moment Caller)} (hlog : y.log = x.log ++ more) (hmore : calls more = []) : y.Numbered := by
  have hcalls : calls y.log = calls x.log := by rw [hlog, calls_append, hmore, List.append_nil]
  constructor
  · rw [hcalls, h.ids]
  · rw [hcalls, hnext, h.next]

theorem Numbered.change {x y : Exchange Caller} (htable : x.Table) (h : x.Numbered) (hxy : Change x y)
    (few : (calls y.log).length < 2 ^ 32) : y.Numbered := by
  cases hxy with
  | nothing => exact h
  | @called caller method args id link accepted nextFree =>
    have hcalls : calls (x.log ++ [⟨.called ⟨id, method, caller⟩ args, []⟩]) =
        calls x.log ++ [⟨id, method, caller⟩] := calls_append _ _
    rw [note_log, hcalls, List.length_append, List.length_singleton] at few
    -- no call holds the next id yet, so the search for a free one ends there at once
    have hid : id = numberedId (calls x.log).length := by
      rw [nextFree (h.next_free htable few), h.next]
    constructor
    · rw [note_log, hcalls]
      simp [List.range_succ, h.ids, hid]
    · rw [note_log, note_link, hcalls, accepted.nextId, hid, List.length_append]
      exact numberedId_succ _
  | refused caller method _ => exact h.keep rfl rfl rfl
  | abandoned caller => exact h.keep rfl rfl rfl
  | posted _ => exact h.keep rfl rfl rfl
  | taken _ _ => exact ⟨h.ids, h.next⟩
  | written _ => exact h.keep rfl rfl rfl
  | lost _ fails => exact h.keep (Link.writeFailed_spec htable.ordered fails).1.nextId rfl rfl
  | answered _ found => exact h.keep (Link.resolve_spec htable.ordered found).1.nextId rfl rfl
  | @unmatched id outcome _ _ =>
    have hread : (x.note (.read id outcome)).Numbered := h.keep rfl rfl rfl
    exact hread.keep rfl rfl rfl
  | halted cause _ => exact h.keep rfl rfl rfl
  | closed closes => exact h.keep (Link.close_spec htable.ordered closes).1.nextId rfl rfl

theorem length_calls_le_of_change {x y : Exchange Caller} (h : Change x y) :
    (calls x.log).length ≤ (calls y.log).length := by
  obtain ⟨more, hmore⟩ := h.log_grows
  rw [hmore, calls_append, List.length_append]
  exact Nat.le_add_right _ _

/-- Fewer than 2^32 calls have the ids from 1 on. -/
theorem numbered_after (acts : List (Act Caller)) (few : (calls (after acts).log).length < 2 ^ 32) :
    (after acts).Numbered := by
  induction acts using List.reverseRecOn with
  | nil => exact ⟨rfl, rfl⟩
  | append_singleton acts a ih =>
    rw [after_concat] at few ⊢
    have hchange := change_act (after acts) a
    -- what bounds the calls of the longer history bounds those of the shorter one
    have hle := length_calls_le_of_change hchange
    exact (ih (by omega)).change (table_after acts) hchange few

end EditorLink.Exchange
