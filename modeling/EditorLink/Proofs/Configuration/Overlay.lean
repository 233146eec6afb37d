import EditorLink.Configuration.Variables
import EditorLink.Proofs.Record
import EditorLink.Proofs.Value

/-!
# EditorLink.Proofs.Configuration.Overlay -- values put over each other

Under a key of the later object, the object put over an earlier one has what the later one has there, put over what the earlier one had;
under every other key it has what the earlier one had (`get?_overlayFields`). Whatever holds of an object as soon as its fields are in
order and it holds of what is in them, survives being put over and having something put over it (`overlay_closed`).
-/

namespace EditorLink.Configuration

/-- A value over what was there before, if there was anything. -/
def overlaid (base : Option Value) (v : Value) : Value :=
  match base with
  | some b => overlay b v
  | none => v

theorem overlayFields_cons (base : Fields) (key : String) (v : Value) (rest : Fields) :
    overlayFields base ((key, v) :: rest) = overlayFields (Keyed.insert key (overlaid (Keyed.get? base key) v) base) rest := by
  rw [overlayFields]
  rfl

@[simp] theorem overlay_objects (base later : Fields) : overlay (.object base) (.object later) = .object (overlayFields base later) := by
  rw [overlay]

/-- What is no object replaces everything. -/
theorem overlay_of_flat {later : Value} (flat : ∀ fields, later ≠ .object fields) (base : Value) : overlay base later = later := by
  cases later with
  | object fields => exact absurd rfl (flat fields)
  | _ => cases base <;> simp [overlay]

/-- What is no object is replaced by everything. -/
theorem overlay_over_flat {base : Value} (flat : ∀ fields, base ≠ .object fields) (later : Value) : overlay base later = later := by
  cases base with
  | object fields => exact absurd rfl (flat fields)
  | _ => simp [overlay]

/-- **What is found in objects put over each other.** -/
theorem get?_overlayFields (base : Fields) {later : Fields} (ordered : Keyed.Ordered later) (key : String) :
    Keyed.get? (overlayFields base later) key =
      match Keyed.get? later key with
      | some v => some (overlaid (Keyed.get? base key) v)
      | none => Keyed.get? base key := by
  induction later generalizing base with
  | nil => rw [overlayFields]; rfl
  | cons f rest ih =>
    obtain ⟨k, v⟩ := f
    obtain ⟨hfirst, hrest⟩ := List.pairwise_cons.mp ordered
    rw [overlayFields_cons, ih _ hrest, Keyed.get?_insert, Keyed.get?_cons]
    by_cases hk : k = key
    · -- the key does not occur again behind
      have hgone : Keyed.get? rest key = none := by
        rw [← Option.not_isSome_iff_eq_none]
        intro hsome
        obtain ⟨w, hw⟩ := Option.isSome_iff_exists.mp hsome
        exact Keyed.ne_of_lt (hfirst _ (Keyed.mem_of_get? hw)) hk
      rw [hgone, if_pos hk, if_pos hk, hk]
    · rw [if_neg hk, if_neg hk]

section Closed

variable {P : Value → Prop}

theorem overlayFields_closed {later : Fields} (step : ∀ f ∈ later, ∀ b, P b → P (overlay b f.2)) (hlater : ∀ f ∈ later, P f.2)
    {base : Fields} (ordered : Keyed.Ordered base) (hbase : ∀ f ∈ base, P f.2) :
    Keyed.Ordered (overlayFields base later) ∧ ∀ f ∈ overlayFields base later, P f.2 := by
  induction later generalizing base with
  | nil =>
    rw [overlayFields]
    exact ⟨ordered, hbase⟩
  | cons f rest ih =>
    obtain ⟨key, v⟩ := f
    have hover : P (overlaid (Keyed.get? base key) v) := by
      cases hfound : Keyed.get? base key with
      | none => exact hlater _ List.mem_cons_self
      | some b => exact step _ List.mem_cons_self b (hbase _ (Keyed.mem_of_get? hfound))
    rw [overlayFields_cons]
    refine ih (fun g hg => step g (List.mem_cons_of_mem _ hg)) (fun g hg => hlater g (List.mem_cons_of_mem _ hg)) (ordered.insert ..)
      fun g hg => ?_
    rcases Keyed.mem_insert hg with rfl | hg
    · exact hover
    · exact hbase g hg

/-- **A property of values that looks at an object field by field, and wants its fields in order, survives overlays.** -/
theorem overlay_closed (object : ∀ fields, P (.object fields) ↔ Keyed.Ordered fields ∧ ∀ f ∈ fields, P f.2) {base later : Value}
    (hbase : P base) (hlater : P later) : P (overlay base later) := by
  induction later using Value.induct generalizing base with
  | object later ih =>
    cases base with
    | object base =>
      obtain ⟨-, hfields⟩ := (object later).mp hlater
      obtain ⟨ordered, hbefore⟩ := (object base).mp hbase
      rw [overlay_objects, object]
      exact overlayFields_closed (fun f hf b hb => ih f hf hb (hfields f hf)) hfields ordered hbefore
    | _ =>
      rw [overlay_over_flat (by simp)]
      exact hlater
  | _ =>
    rw [overlay_of_flat (by simp)]
    exact hlater

end Closed

/-! ## Declared fields -/

section Records

variable {base later : Fields} {names : Record.Names}

theorem ordered_overlayFields (ordered : Keyed.Ordered base) (later : Fields) : Keyed.Ordered (overlayFields base later) :=
  (overlayFields_closed (P := fun _ => True) (fun _ _ _ _ => trivial) (fun _ _ => trivial) ordered fun _ _ => trivial).1

/-- A field that the later object does not have is as it was. -/
theorem slot?_overlayFields_of_absent (hbase : Keyed.Ordered base) (hlater : Keyed.Ordered later) {slot : Option Value}
    (absent : Record.slot? later names = some none) (h : Record.slot? base names = some slot) :
    Record.slot? (overlayFields base later) names = some slot := by
  have hsame : ∀ n ∈ names, Keyed.get? (overlayFields base later) n = Keyed.get? base n := by
    intro n hn
    rw [get?_overlayFields base hlater, Record.slot?_eq_none_iff.mp absent n hn]
  cases slot with
  | none => exact Record.slot?_eq_none_iff.mpr fun n hn => (hsame n hn).trans (Record.slot?_eq_none_iff.mp h n hn)
  | some v =>
    obtain ⟨n, hn, hget, honly⟩ := (Record.slot?_eq_some_iff hbase).mp h
    refine (Record.slot?_eq_some_iff (ordered_overlayFields hbase later)).mpr ⟨n, hn, (hsame n hn).trans hget, fun m hm hsome => ?_⟩
    exact honly m hm (hsame m hm ▸ hsome)

/-- A field that the later object has, and the earlier one has under no other name, is the later one's. -/
theorem slot?_overlayFields_of_given (hbase : Keyed.Ordered base) (hlater : Keyed.Ordered later) {v : Value}
    (flat : ∀ fields, v ≠ .object fields) (given : Record.slot? later names = some (some v))
    (agree : ∀ j ∈ names, ∀ k ∈ names, (Keyed.get? base j).isSome → (Keyed.get? later k).isSome → j = k) :
    Record.slot? (overlayFields base later) names = some (some v) := by
  obtain ⟨n, hn, hget, honly⟩ := (Record.slot?_eq_some_iff hlater).mp given
  refine (Record.slot?_eq_some_iff (ordered_overlayFields hbase later)).mpr ⟨n, hn, ?_, fun m hm hsome => ?_⟩
  · rw [get?_overlayFields base hlater, hget]
    show some (overlaid (Keyed.get? base n) v) = some v
    cases Keyed.get? base n with
    | none => rfl
    | some b => exact congrArg some (overlay_of_flat flat b)
  · rw [get?_overlayFields base hlater] at hsome
    cases hfound : Keyed.get? later m with
    | some w => exact honly m hm (by rw [hfound]; rfl)
    | none =>
      rw [hfound] at hsome
      exact agree m hm n hn hsome (by rw [hget]; rfl)

/-- A field that the two objects have under different names is given twice. -/
theorem slot?_overlayFields_of_clash (hbase : Keyed.Ordered base) (hlater : Keyed.Ordered later) {j k : String} (hj : j ∈ names)
    (hk : k ∈ names) (different : j ≠ k) (hbefore : (Keyed.get? base j).isSome) (hafter : (Keyed.get? later k).isSome) :
    Record.slot? (overlayFields base later) names = none := by
  have hboth : ∀ m, (Keyed.get? base m).isSome ∨ (Keyed.get? later m).isSome → (Keyed.get? (overlayFields base later) m).isSome := by
    intro m hm
    rw [get?_overlayFields base hlater]
    cases hfound : Keyed.get? later m with
    | some w => rfl
    | none =>
      rw [hfound] at hm
      simpa using hm
  cases hslot : Record.slot? (overlayFields base later) names with
  | none => rfl
  | some slot =>
    cases slot with
    | none =>
      have hmissing := hboth j (Or.inl hbefore)
      rw [Record.slot?_eq_none_iff.mp hslot j hj] at hmissing
      cases hmissing
    | some v =>
      obtain ⟨n, -, -, honly⟩ := (Record.slot?_eq_some_iff (ordered_overlayFields hbase later)).mp hslot
      exact absurd ((honly j hj (hboth j (Or.inl hbefore))).trans (honly k hk (hboth k (Or.inr hafter))).symm) different

end Records

end EditorLink.Configuration
