import EditorLink.Proofs.Keyed
import EditorLink.Record

/-!
# EditorLink.Proofs.Record -- what an object gives for a declared field

An object whose fields are in order gives a declared field once if exactly one of its names is there, and not at all if none is. With
two of them the object is no record.
-/

namespace EditorLink.Record

variable {fields : Fields} {names : Names}

theorem slot?_eq_none_iff : slot? fields names = some none ↔ ∀ n ∈ names, Keyed.get? fields n = none := by
  have hslot : slot? fields names = some none ↔ fields.filter (fun f => names.contains f.1) = [] := by
    unfold slot?
    split
    · next hfilter => exact ⟨fun _ => hfilter, fun _ => rfl⟩
    · next f hfilter => exact ⟨nofun, fun hempty => absurd (hfilter.symm.trans hempty) (by simp)⟩
    · next hfilter _ => exact ⟨nofun, fun hempty => absurd hempty hfilter⟩
  rw [hslot, List.filter_eq_nil_iff]
  constructor
  · intro h n hn
    rw [← Option.not_isSome_iff_eq_none]
    intro hsome
    obtain ⟨v, hv⟩ := Option.isSome_iff_exists.mp hsome
    exact h _ (Keyed.mem_of_get? hv) (List.contains_iff_mem.mpr hn)
  · intro h f hf hname
    have hgiven := (Keyed.isSome_get?_iff fields f.1).mpr (List.mem_map_of_mem hf)
    rw [h f.1 (List.contains_iff_mem.mp hname)] at hgiven
    cases hgiven

theorem slot?_eq_some_iff (ordered : Keyed.Ordered fields) {v : Value} :
    slot? fields names = some (some v) ↔
      ∃ n ∈ names, Keyed.get? fields n = some v ∧ ∀ m ∈ names, (Keyed.get? fields m).isSome → m = n := by
  have hkept : ∀ {f}, f ∈ fields.filter (fun f => names.contains f.1) ↔ Keyed.get? fields f.1 = some f.2 ∧ f.1 ∈ names := by
    intro f
    rw [List.mem_filter, ordered.get?_eq_some_iff, List.contains_iff_mem]
  constructor
  · intro h
    rw [slot?] at h
    split at h
    · cases h
    · next f hfilter =>
      cases h
      rw [hfilter] at hkept
      obtain ⟨hget, hname⟩ := hkept.mp (List.mem_singleton_self f)
      refine ⟨f.1, hname, hget, fun m hm hsome => ?_⟩
      obtain ⟨w, hw⟩ := Option.isSome_iff_exists.mp hsome
      have hmember : (m, w) ∈ [f] := hkept.mpr ⟨hw, hm⟩
      exact congrArg Prod.fst (List.mem_singleton.mp hmember)
    · cases h
  · rintro ⟨n, hn, hget, honly⟩
    have hall : ∀ f ∈ fields.filter (fun f => names.contains f.1), f = (n, v) := by
      intro f hf
      obtain ⟨hf, hname⟩ := hkept.mp hf
      have hkey := honly f.1 hname (by rw [hf]; rfl)
      rw [hkey, hget] at hf
      exact Prod.ext hkey (Option.some.inj hf).symm
    have hthere : (n, v) ∈ fields.filter (fun f => names.contains f.1) := hkept.mpr ⟨hget, hn⟩
    rw [slot?]
    split
    · next hfilter =>
      rw [hfilter] at hthere
      cases hthere
    · next f hfilter =>
      rw [hfilter] at hall
      rw [hall f List.mem_cons_self]
    · next hnone hone =>
      -- two fields with the same key cannot be in order
      cases hfilter : fields.filter (fun f => names.contains f.1) with
      | nil => exact absurd hfilter hnone
      | cons f rest =>
        cases rest with
        | nil => exact absurd hfilter (hone f)
        | cons g rest =>
          rw [hfilter] at hall
          have hlt : f.1 < g.1 := by
            have hordered : Keyed.Ordered (f :: g :: rest) := hfilter ▸ ordered.filter _
            exact (List.pairwise_cons.mp hordered).1 g List.mem_cons_self
          rw [hall f List.mem_cons_self, hall g (List.mem_cons_of_mem _ List.mem_cons_self)] at hlt
          exact absurd hlt (String.lt_irrefl n)

end EditorLink.Record
