import EditorLink.Configuration.Loading
import EditorLink.Proofs.Keyed

/-!
# EditorLink.Proofs.Configuration.Substitution -- when references can be replaced

A text can be expanded exactly if each of its references has a value, that is, if its variable is set or it has a fallback. So with more
variables more texts can be expanded, and a text whose references mean the same expands to the same.
-/

namespace EditorLink.Configuration

section Mapping

variable {ε α β : Type}

/-- `mapM` succeeds if it does at every item. -/
theorem mapM_of_ok {f : α → Except ε β} {items : List α} (h : ∀ a ∈ items, ∃ b, f a = .ok b) : ∃ results, items.mapM f = .ok results := by
  induction items with
  | nil => exact ⟨[], rfl⟩
  | cons a rest ih =>
    obtain ⟨b, hb⟩ := h a List.mem_cons_self
    obtain ⟨results, hrest⟩ := ih fun a' ha' => h a' (List.mem_cons_of_mem _ ha')
    exact ⟨b :: results, by rw [List.mapM_cons, hb, hrest]; rfl⟩

theorem ok_of_mapM {f : α → Except ε β} {items : List α} {results : List β} (h : items.mapM f = .ok results) : ∀ a ∈ items, ∃ b, f a = .ok b := by
  induction items generalizing results with
  | nil => exact nofun
  | cons a rest ih =>
    rw [List.mapM_cons] at h
    cases hfirst : f a with
    | error e =>
      rw [hfirst] at h
      cases h
    | ok b =>
      rw [hfirst] at h
      cases hrest : rest.mapM f with
      | error e =>
        rw [hrest] at h
        cases h
      | ok others => exact List.forall_mem_cons.mpr ⟨⟨b, hfirst⟩, ih hrest⟩

theorem mapM_congr {f g : α → Except ε β} {items : List α} (h : ∀ a ∈ items, f a = g a) : items.mapM f = items.mapM g := by
  induction items with
  | nil => rfl
  | cons a rest ih =>
    rw [List.mapM_cons, List.mapM_cons, h a List.mem_cons_self, ih fun a' ha' => h a' (List.mem_cons_of_mem _ ha')]

end Mapping

variable {env env' : Environment}

/-- References can be replaced exactly if each of them has a value. -/
theorem expandEach_ok_iff {refs : List Reference} {cs : List Char} :
    (∃ result, expandEach env refs cs = .ok result) ↔ ∀ r ∈ refs, (r.value? env).isSome := by
  induction refs generalizing cs with
  | nil => exact ⟨fun _ => nofun, fun _ => ⟨cs, rfl⟩⟩
  | cons r rest ih =>
    rw [expandEach]
    cases hvalue : r.value? env with
    | none =>
      refine ⟨fun ⟨result, hresult⟩ => ?_, fun h => ?_⟩
      · cases hresult
      · have hgiven := h r List.mem_cons_self
        rw [hvalue] at hgiven
        cases hgiven
    | some value =>
      rw [ih, List.forall_mem_cons, hvalue]
      exact ⟨fun h => ⟨rfl, h⟩, fun h => h.2⟩

theorem expandEach_congr {refs : List Reference} (h : ∀ r ∈ refs, r.value? env = r.value? env') (cs : List Char) :
    expandEach env refs cs = expandEach env' refs cs := by
  induction refs generalizing cs with
  | nil => rfl
  | cons r rest ih =>
    rw [expandEach, expandEach, h r List.mem_cons_self]
    cases r.value? env' with
    | none => rfl
    | some value => exact ih (fun r' hr' => h r' (List.mem_cons_of_mem _ hr')) _

/-- **A text can be expanded exactly if each of its references has a value.** -/
theorem expand_ok_iff {text : String} : (∃ result, expand env text = .ok result) ↔ ∀ r ∈ Reference.find text.toList, (r.value? env).isSome := by
  rw [← @expandEach_ok_iff env _ text.toList, expand]
  cases expandEach env (Reference.find text.toList) text.toList with
  | error e => exact ⟨nofun, nofun⟩
  | ok result => exact ⟨fun _ => ⟨result, rfl⟩, fun _ => ⟨_, rfl⟩⟩

theorem expand_congr {text : String} (h : ∀ r ∈ Reference.find text.toList, r.value? env = r.value? env') : expand env text = expand env' text := by
  rw [expand, expand, expandEach_congr h]

/-- One environment has all that another one has, and perhaps more. -/
def Extends (env env' : Environment) : Prop :=
  ∀ name value, env'.get? name = some value → env.get? name = some value

theorem Reference.value?_of_extends (more : Extends env env') {r : Reference} (h : (r.value? env').isSome) : (r.value? env).isSome := by
  rw [Reference.value?] at h ⊢
  cases hfound : env'.get? r.name with
  | some value =>
    rw [more _ _ hfound]
    rfl
  | none =>
    rw [hfound] at h
    cases env.get? r.name with
    | some value => rfl
    | none => exact h

/-- With more variables more texts can be expanded. -/
theorem expand_of_extends (more : Extends env env') {text : String} (h : ∃ result, expand env' text = .ok result) :
    ∃ result, expand env text = .ok result :=
  expand_ok_iff.mpr fun r hr => Reference.value?_of_extends more (expand_ok_iff.mp h r hr)

end EditorLink.Configuration
