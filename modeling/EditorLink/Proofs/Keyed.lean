import EditorLink.Keyed

/-!
# EditorLink.Proofs.Keyed -- lists of named things

What a list has under a key is found by `get?`, and what is put under a key or left out there changes nothing under others. A list that
is ordered stays so; what `ofList` gives is ordered, and of a list that is ordered it gives the same. In an ordered list `get?` finds all
that there is.
-/

namespace EditorLink.Keyed

variable {α : Type}

/-! ## Looking up -/

theorem get?_cons (list : Keyed α) (key name : String) (value : α) :
    get? ((key, value) :: list) name = if key = name then some value else get? list name := by
  by_cases h : key = name <;> simp [get?, h]

/-- What is put under a key is found there, and under other keys nothing changes. -/
theorem get?_insert (list : Keyed α) (key name : String) (value : α) :
    get? (insert key value list) name = if key = name then some value else get? list name := by
  induction list with
  | nil => exact get?_cons [] key name value
  | cons entry rest ih =>
    obtain ⟨k, v⟩ := entry
    rw [insert]
    split
    · exact get?_cons _ key name value
    · split
      · next hkey =>
        subst hkey
        simp only [get?_cons]
        split <;> rfl
      · next hkey =>
        simp only [get?_cons, ih]
        by_cases hk : k = name
        · have hname : key ≠ name := fun h => hkey (h.trans hk.symm)
          rw [if_pos hk, if_pos hk, if_neg hname]
        · rw [if_neg hk, if_neg hk]

theorem get?_filter (list : Keyed α) (kept : String → Bool) (name : String) :
    get? (list.filter fun f => kept f.1) name = if kept name then get? list name else none := by
  induction list with
  | nil => simp [get?]
  | cons entry rest ih =>
    obtain ⟨k, v⟩ := entry
    by_cases hk : k = name
    · subst hk
      cases hkept : kept k <;> simp [get?_cons, hkept, ih]
    · rw [List.filter_cons]
      split
      · rw [get?_cons, get?_cons, if_neg hk, if_neg hk, ih]
      · rw [get?_cons, if_neg hk, ih]

theorem mem_of_get? {list : Keyed α} {key : String} {value : α} (h : get? list key = some value) : (key, value) ∈ list := by
  induction list with
  | nil => cases h
  | cons entry rest ih =>
    obtain ⟨k, v⟩ := entry
    rw [get?_cons] at h
    split at h
    · next hk =>
      cases h
      exact hk ▸ List.mem_cons_self
    · exact List.mem_cons_of_mem _ (ih h)

theorem isSome_get?_iff (list : Keyed α) (key : String) : (get? list key).isSome ↔ key ∈ list.keys := by
  rw [get?, Option.isSome_map, List.find?_isSome]
  simp [keys]

/-! ## Order -/

theorem ne_of_lt {j k : String} (h : j < k) : j ≠ k := by
  rintro rfl
  exact String.lt_irrefl _ h

/-- An ordered list has one thing under a key. -/
theorem Ordered.get?_eq_some_iff {list : Keyed α} (h : Ordered list) {key : String} {value : α} :
    get? list key = some value ↔ (key, value) ∈ list := by
  refine ⟨mem_of_get?, fun hmem => ?_⟩
  induction list with
  | nil => cases hmem
  | cons entry rest ih =>
    obtain ⟨hfirst, hrest⟩ := List.pairwise_cons.mp h
    rw [get?_cons]
    rcases List.mem_cons.mp hmem with rfl | hmem
    · exact if_pos rfl
    · rw [if_neg (ne_of_lt (hfirst _ hmem)), ih hrest hmem]

theorem mem_insert {list : Keyed α} {key : String} {value : α} {f : String × α} (h : f ∈ insert key value list) :
    f = (key, value) ∨ f ∈ list := by
  induction list with
  | nil => exact Or.inl (List.mem_singleton.mp h)
  | cons entry rest ih =>
    obtain ⟨k, v⟩ := entry
    rw [insert] at h
    split at h
    · exact List.mem_cons.mp h
    · split at h
      · exact (List.mem_cons.mp h).imp_right (List.mem_cons_of_mem _)
      · rcases List.mem_cons.mp h with rfl | h
        · exact Or.inr List.mem_cons_self
        · exact (ih h).imp_right (List.mem_cons_of_mem _)

theorem Ordered.insert {list : Keyed α} (h : Ordered list) (key : String) (value : α) : Ordered (insert key value list) := by
  induction list with
  | nil => exact List.pairwise_singleton ..
  | cons entry rest ih =>
    obtain ⟨k, v⟩ := entry
    obtain ⟨hfirst, hrest⟩ := List.pairwise_cons.mp h
    rw [Keyed.insert]
    split
    · next hlt =>
      refine List.pairwise_cons.mpr ⟨fun f hf => ?_, h⟩
      rcases List.mem_cons.mp hf with rfl | hf
      · exact hlt
      · exact String.lt_trans hlt (hfirst f hf)
    · next hge =>
      split
      · next hkey => exact hkey ▸ List.pairwise_cons.mpr ⟨hfirst, hrest⟩
      · next hne =>
        refine List.pairwise_cons.mpr ⟨fun f hf => ?_, ih hrest⟩
        rcases mem_insert hf with rfl | hf
        · exact Std.lt_of_le_of_ne (String.not_lt.mp hge) (Ne.symm hne)
        · exact hfirst f hf

/-- Neighbours with different keys are both kept. -/
theorem keepLast_of_ordered {list : Keyed α} (h : Ordered list) : keepLast list = list := by
  induction list with
  | nil => rfl
  | cons f rest ih =>
    obtain ⟨hfirst, hrest⟩ := List.pairwise_cons.mp h
    show pushUnlessHead f (keepLast rest) = f :: rest
    rw [ih hrest]
    cases rest with
    | nil => rfl
    | cons g rest => rw [pushUnlessHead, if_neg (ne_of_lt (hfirst g List.mem_cons_self))]

/-- Putting fields in order that are in order changes nothing. -/
theorem ofList_of_ordered {list : Keyed α} (h : Ordered list) : ofList list = list := by
  have hsorted : list.Pairwise fun f g => (fun f g : String × α => decide (f.1 ≤ g.1)) f g = true := by
    refine h.imp ?_
    intro f g hlt
    exact decide_eq_true (Std.le_of_lt hlt)
  rw [ofList, List.mergeSort_of_pairwise hsorted]
  exact keepLast_of_ordered h

theorem mem_keepLast {list : Keyed α} {f : String × α} (h : f ∈ keepLast list) : f ∈ list := by
  induction list with
  | nil => exact h
  | cons g rest ih =>
    have hpush : f ∈ pushUnlessHead g (keepLast rest) := h
    cases hrest : keepLast rest with
    | nil =>
      rw [hrest] at hpush
      exact List.mem_singleton.mp hpush ▸ List.mem_cons_self
    | cons head tail =>
      rw [hrest, pushUnlessHead] at hpush
      split at hpush
      · exact List.mem_cons_of_mem _ (ih (hrest ▸ hpush))
      · exact (List.mem_cons.mp hpush).elim (fun heq => heq ▸ List.mem_cons_self) fun hmem => List.mem_cons_of_mem _ (ih (hrest ▸ hmem))

/-- Of fields in order, in which keys may occur again, the last of each key are in order without any such. -/
theorem ordered_keepLast {list : Keyed α} (h : list.Pairwise fun f g => f.1 ≤ g.1) : Ordered (keepLast list) := by
  induction list with
  | nil => exact List.Pairwise.nil
  | cons f rest ih =>
    obtain ⟨hfirst, hrest⟩ := List.pairwise_cons.mp h
    have hkept := ih hrest
    show Ordered (pushUnlessHead f (keepLast rest))
    cases hcases : keepLast rest with
    | nil => exact List.pairwise_singleton ..
    | cons g tail =>
      rw [hcases] at hkept
      rw [pushUnlessHead]
      split
      · exact hkept
      · next hne =>
        refine List.pairwise_cons.mpr ⟨fun e he => ?_, hkept⟩
        have hbelow : f.1 < g.1 :=
          Std.lt_of_le_of_ne (hfirst g (mem_keepLast (hcases ▸ List.mem_cons_self))) hne
        rcases List.mem_cons.mp he with rfl | he
        · exact hbelow
        · exact String.lt_trans hbelow ((List.pairwise_cons.mp hkept).1 e he)

theorem ordered_ofList (list : Keyed α) : Ordered (ofList list) := by
  have htrans : ∀ f g h : String × α, decide (f.1 ≤ g.1) = true → decide (g.1 ≤ h.1) = true → decide (f.1 ≤ h.1) = true :=
    fun f g h hfg hgh => decide_eq_true (Std.le_trans (of_decide_eq_true hfg) (of_decide_eq_true hgh))
  have htotal : ∀ f g : String × α, (decide (f.1 ≤ g.1) || decide (g.1 ≤ f.1)) = true := fun f g => by simpa using Std.le_total
  exact ordered_keepLast ((List.pairwise_mergeSort htrans htotal list).imp of_decide_eq_true)

theorem mem_ofList {list : Keyed α} {f : String × α} (h : f ∈ ofList list) : f ∈ list :=
  List.mem_mergeSort.mp (mem_keepLast h)

end EditorLink.Keyed
