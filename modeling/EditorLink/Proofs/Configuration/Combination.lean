import EditorLink.Proofs.Configuration.Settings
import EditorLink.Proofs.Configuration.Sources

/-!
# EditorLink.Proofs.Configuration.Combination -- a setting that comes from two sides

What variables give is put over what files give, and each of the two may be good on its own. Setting by setting this leaves three
possibilities (`slot?_overlay`): the variables' value, the files' value, or nothing, where a section that is an array has replaced
another one as a whole. There is a fourth only for the settings of two words: when the two sides spell one of them differently it is
given twice (`slot?_overlay_of_clash`).

The settings that variables give are those that their names lead to (`hasField_settings`, `named_of_gives`).
-/

namespace EditorLink.Configuration

open Variables

/-! ## One setting in two values -/

/-- Some settings have a value for a setting. -/
def Gives (settings : Value) (item : Item) : Prop :=
  ∃ v, item.slot? (settings.get? item.sectionKey) = some (some v)

/-- The section of a setting is in both values, and in one of them it is an array. -/
def Replaced (base later : Value) (item : Item) : Prop :=
  ∃ b v, base.get? item.sectionKey = some b ∧ later.get? item.sectionKey = some v ∧ ∃ items, b = .array items ∨ v = .array items

/-- What is under a key in a section. -/
def fieldAt (settings : Value) (sectionKey key : String) : Option Value :=
  (settings.get? sectionKey).bind (·.get? key)

/-- Two values have one setting in different spellings. -/
def Clash (base later : Value) (item : Item) : Prop :=
  ∃ j ∈ item.names, ∃ k ∈ item.names, j ≠ k ∧ (fieldAt base item.sectionKey j).isSome ∧ (fieldAt later item.sectionKey k).isSome

instance (base later : Value) (item : Item) : Decidable (Clash base later item) :=
  inferInstanceAs (Decidable (∃ j ∈ item.names, ∃ k ∈ item.names, j ≠ k ∧ _ ∧ _))

/-- What is read for a setting is no object, unless there is a null in it. -/
theorem Item.Reads.flat {item : Item} {v : Value} {c : Configuration} (solid : v.Solid) (h : item.Reads (some v) c) :
    ∀ fields, v ≠ .object fields := by
  rintro fields rfl
  cases item with
  | format =>
    have hread : format? .ignored (.object fields) = some c.wire.format := h
    rw [format?.eq_def] at hread
    split at hread
    · next heq => cases heq
    · next name rest heq =>
      cases heq
      obtain ⟨-, hfields⟩ := (Value.solid_object_iff _).mp solid
      cases hfields _ List.mem_cons_self
    · cases hread
  | _ => cases h

theorem object_or_array_of_slot? {item : Item} {v : Value} {slot : Option Value} (h : item.slot? (some v) = some slot) :
    (∃ fields, v = .object fields) ∨ ∃ items, v = .array items := by
  cases v with
  | object fields => exact Or.inl ⟨fields, rfl⟩
  | array items => exact Or.inr ⟨items, rfl⟩
  | _ => cases h

section Overlay

variable {base later : Fields} {item : Item}

/-- A setting that two objects give without a clash, or not at all. -/
theorem slot?_sections {a b : Option Value} {c : Configuration} {first second : Fields} (hfirst : Keyed.Ordered first)
    (hsecond : (Value.object second).Solid) (ha : item.slot? (some (.object first)) = some a)
    (hb : item.slot? (some (.object second)) = some b) (reads : item.Reads b c)
    (agree : ∀ j ∈ item.names, ∀ k ∈ item.names, (Keyed.get? first j).isSome → (Keyed.get? second k).isSome → j = k) :
    item.slot? (some (.object (overlayFields first second))) = some (b.or a) := by
  obtain ⟨hordered, hfields⟩ := (Value.solid_object_iff second).mp hsecond
  cases b with
  | none => exact slot?_overlayFields_of_absent hfirst hordered hb ha
  | some v =>
    have hsolid : v.Solid := by
      obtain ⟨n, -, hget, -⟩ := (Record.slot?_eq_some_iff hordered).mp hb
      exact hfields _ (Keyed.mem_of_get? hget)
    exact slot?_overlayFields_of_given hfirst hordered (reads.flat hsolid) hb agree

/-- What is left for a setting of what two values give for it: what the later one gives, and failing this what the earlier one gives, unless
its section was replaced. -/
structure Chosen (base later : Value) (item : Item) (a b slot : Option Value) : Prop where
  given : Gives later item → slot = b
  replaced : ¬ Gives later item → Replaced base later item → slot = none
  kept : ¬ Gives later item → ¬ Replaced base later item → slot = a

theorem eq_none_of_not_gives {b : Option Value} (hb : item.slot? (Keyed.get? later item.sectionKey) = some b)
    (hgives : ¬ Gives (.object later) item) : b = none := by
  cases b with
  | none => rfl
  | some v => exact absurd ⟨v, hb⟩ hgives

/-- What two values give for a setting whose section both have. -/
theorem slot?_overlay_sections (hbase : (Value.object base).WellFormed) (hlater : (Value.object later).Solid) {a b : Option Value}
    {c : Configuration} {w v : Value} (hbefore : Keyed.get? base item.sectionKey = some w) (hafter : Keyed.get? later item.sectionKey = some v)
    (ha : item.slot? (some w) = some a) (hb : item.slot? (some v) = some b) (reads : item.Reads b c)
    (agree : ¬ Clash (.object base) (.object later) item) :
    ∃ slot, item.slot? (some (overlay w v)) = some slot ∧ Chosen (.object base) (.object later) item a b slot := by
  obtain ⟨-, hsections⟩ := Value.wellFormed_object_iff.mp hbase
  obtain ⟨-, hsolid⟩ := (Value.solid_object_iff later).mp hlater
  have hnothing : ¬ Gives (.object later) item → b = none := eq_none_of_not_gives (hafter ▸ hb)
  -- an array on either side replaces or is replaced as a whole
  have hwhole : (∃ items, w = .array items ∨ v = .array items) → overlay w v = v →
      ∃ slot, item.slot? (some (overlay w v)) = some slot ∧ Chosen (.object base) (.object later) item a b slot := by
    intro harray hover
    rw [hover]
    exact ⟨b, hb, fun _ => rfl, fun hgives _ => hnothing hgives, fun _ hkept => absurd ⟨w, v, hbefore, hafter, harray⟩ hkept⟩
  rcases object_or_array_of_slot? ha with ⟨first, rfl⟩ | ⟨items, rfl⟩
  · rcases object_or_array_of_slot? hb with ⟨second, rfl⟩ | ⟨items, rfl⟩
    · obtain ⟨hfirst, -⟩ := Value.wellFormed_object_iff.mp (hsections _ (Keyed.mem_of_get? hbefore))
      have hsame : ∀ j ∈ item.names, ∀ k ∈ item.names, (Keyed.get? first j).isSome → (Keyed.get? second k).isSome → j = k := by
        intro j hj k hk hfirst hsecond
        by_contra hne
        refine agree ⟨j, hj, k, hk, hne, ?_, ?_⟩
        · rw [fieldAt, show (Value.object base).get? item.sectionKey = _ from hbefore]
          exact hfirst
        · rw [fieldAt, show (Value.object later).get? item.sectionKey = _ from hafter]
          exact hsecond
      have hslot := slot?_sections hfirst (hsolid _ (Keyed.mem_of_get? hafter)) ha hb reads hsame
      refine ⟨b.or a, hslot, fun ⟨x, hx⟩ => ?_, fun _ hreplaced => ?_, fun hgives _ => ?_⟩
      · obtain rfl : b = some x := Option.some.inj (hb.symm.trans ((congrArg item.slot? hafter).symm.trans hx))
        rfl
      · obtain ⟨_, _, hw, hv, items, harray⟩ := hreplaced
        cases hbefore.symm.trans hw
        cases hafter.symm.trans hv
        rcases harray with harray | harray <;> cases harray
      · rw [hnothing hgives]
        rfl
    · exact hwhole ⟨items, Or.inr rfl⟩ (overlay_of_flat (by simp) _)
  · exact hwhole ⟨items, Or.inl rfl⟩ (overlay_over_flat (by simp) _)

/-- **What two values give for a setting when one is put over the other.** -/
theorem slot?_overlay (hbase : (Value.object base).WellFormed) (hlater : (Value.object later).Solid) {a b : Option Value} {c : Configuration}
    (ha : item.slot? (Keyed.get? base item.sectionKey) = some a) (hb : item.slot? (Keyed.get? later item.sectionKey) = some b)
    (reads : item.Reads b c) (agree : ¬ Clash (.object base) (.object later) item) :
    ∃ slot, item.slot? (Keyed.get? (overlayFields base later) item.sectionKey) = some slot ∧
      Chosen (.object base) (.object later) item a b slot := by
  rw [get?_overlayFields base ((Value.solid_object_iff later).mp hlater).1]
  have hnothing := eq_none_of_not_gives hb
  cases hafter : Keyed.get? later item.sectionKey with
  | none =>
    refine ⟨a, ha, fun ⟨v, hv⟩ => ?_, fun _ ⟨_, v, _, hv, _⟩ => ?_, fun _ _ => rfl⟩
    · cases (congrArg item.slot? hafter).symm.trans hv
    · cases hafter.symm.trans hv
  | some v =>
    rw [hafter] at hb
    cases hbefore : Keyed.get? base item.sectionKey with
    | none =>
      obtain rfl : none = a := Option.some.inj ((congrArg item.slot? hbefore).symm.trans ha)
      exact ⟨b, hb, fun _ => rfl, fun hgives _ => hnothing hgives, fun hgives _ => hnothing hgives⟩
    | some w =>
      rw [hbefore] at ha
      exact slot?_overlay_sections hbase hlater hbefore hafter ha hb reads agree

/-- Two values that spell a setting differently give it twice. -/
theorem slot?_overlay_of_clash (hbase : (Value.object base).WellFormed) (hlater : (Value.object later).Solid)
    (clash : Clash (.object base) (.object later) item) : item.slot? (Keyed.get? (overlayFields base later) item.sectionKey) = none := by
  obtain ⟨j, hj, k, hk, hne, hbefore, hafter⟩ := clash
  obtain ⟨-, hsections⟩ := Value.wellFormed_object_iff.mp hbase
  obtain ⟨hordered, hsolid⟩ := (Value.solid_object_iff later).mp hlater
  have hobject : ∀ {fields : Fields} {key}, (fieldAt (.object fields) item.sectionKey key).isSome →
      ∃ inner, Keyed.get? fields item.sectionKey = some (.object inner) ∧ (Keyed.get? inner key).isSome := by
    intro fields key h
    rw [fieldAt, show (Value.object fields).get? item.sectionKey = Keyed.get? fields item.sectionKey from rfl] at h
    cases hfound : Keyed.get? fields item.sectionKey with
    | none =>
      rw [hfound] at h
      cases h
    | some v =>
      rw [hfound] at h
      cases v with
      | object inner => exact ⟨inner, rfl, h⟩
      | _ => cases h
  obtain ⟨first, hfirst, hj'⟩ := hobject hbefore
  obtain ⟨second, hsecond, hk'⟩ := hobject hafter
  rw [get?_overlayFields base hordered, hfirst, hsecond]
  show item.slot? (some (overlay (.object first) (.object second))) = none
  rw [overlay_objects]
  exact slot?_overlayFields_of_clash (Value.wellFormed_object_iff.mp (hsections _ (Keyed.mem_of_get? hfirst))).1
    ((Value.solid_object_iff second).mp (hsolid _ (Keyed.mem_of_get? hsecond))).1 hj hk hne hj' hk'

end Overlay

/-! ## The settings that variables name -/

section Naming

/-- A key in a section that is an object. -/
def HasField (v : Value) (sectionKey key : String) : Prop :=
  ∃ fields, v.get? sectionKey = some (.object fields) ∧ (Keyed.get? fields key).isSome

theorem ordered_pair (key : String) (v : Value) : Keyed.Ordered [(key, v)] :=
  List.pairwise_singleton ..

theorem get?_pair (key name : String) (v : Value) : Keyed.get? [(key, v)] name = if key = name then some v else none :=
  Keyed.get?_cons [] key name v

/-- One field is put over an object. -/
theorem get?_overlayFields_pair (base : Fields) (key name : String) (v : Value) :
    Keyed.get? (overlayFields base [(key, v)]) name = if key = name then some (overlaid (Keyed.get? base name) v) else Keyed.get? base name := by
  rw [get?_overlayFields base (ordered_pair ..), get?_pair]
  by_cases hkey : key = name
  · rw [if_pos hkey, if_pos hkey]
  · rw [if_neg hkey, if_neg hkey]

/-- What a value has in a section stays there unless the section is replaced. -/
theorem HasField.overlay {fields : Fields} {s key p : String} {w : Value} (h : HasField (.object fields) s key)
    (kept : p = s → ∃ inner, w = .object inner ∧ Keyed.Ordered inner) : HasField (overlay (.object fields) (.object [(p, w)])) s key := by
  obtain ⟨inner, hsection, hkey⟩ := h
  have hsection' : Keyed.get? fields s = some (.object inner) := hsection
  rw [overlay_objects]
  by_cases hp : p = s
  · obtain ⟨more, rfl, hordered⟩ := kept hp
    refine ⟨overlayFields inner more, ?_, ?_⟩
    · show Keyed.get? (overlayFields fields [(p, .object more)]) s = _
      rw [get?_overlayFields_pair, if_pos hp, hsection']
      exact congrArg some (overlay_objects ..)
    · rw [get?_overlayFields inner hordered]
      cases Keyed.get? more key with
      | some v => rfl
      | none => exact hkey
  · refine ⟨inner, ?_, hkey⟩
    show Keyed.get? (overlayFields fields [(p, w)]) s = _
    rw [get?_overlayFields_pair, if_neg hp]
    exact hsection'

/-- What stands at the end of a path has its first part at the front. -/
theorem nested_cons (p : String) (path : List String) (v : Value) : nested (p :: path) v = .object [(p, nested path v)] := rfl

theorem hasField_named {v : Value} (hv : SolidObject v) (s key : String) (w : Value) : HasField (overlay v (nested [s, key] w)) s key := by
  obtain ⟨fields, rfl, -⟩ := hv
  rw [nested_cons, overlay_objects]
  have hsection : Keyed.get? (overlayFields fields [(s, nested [key] w)]) s = some (overlaid (Keyed.get? fields s) (.object [(key, w)])) := by
    rw [get?_overlayFields_pair, if_pos rfl]
    rfl
  have hpair : (Keyed.get? [(key, w)] key).isSome := by
    rw [get?_pair, if_pos rfl]
    rfl
  cases hbefore : Keyed.get? fields s with
  | none => exact ⟨[(key, w)], hsection.trans (by rw [hbefore]; rfl), hpair⟩
  | some b =>
    rw [hbefore] at hsection
    cases b with
    | object inner =>
      refine ⟨overlayFields inner [(key, w)], hsection.trans (congrArg some (overlay_objects ..)), ?_⟩
      rw [get?_overlayFields_pair, if_pos rfl]
      rfl
    | _ => exact ⟨[(key, w)], hsection.trans (congrArg some (overlay_over_flat (by simp) _)), hpair⟩

theorem hasField_put {v : Value} (hv : SolidObject v) {s key : String} (h : HasField v s key) {entry : String × String}
    (kept : path? entry.1 = some [s] → ∃ fields, valueOf entry.2 = .object fields) : HasField (put v entry) s key := by
  obtain ⟨fields, rfl, -⟩ := hv
  rw [put]
  cases hpath : path? entry.1 with
  | none => exact h
  | some path =>
    cases path with
    | nil => exact absurd rfl (ne_nil_of_path? hpath)
    | cons p rest =>
      refine h.overlay fun hp => ?_
      cases rest with
      | nil =>
        obtain ⟨inner, hinner⟩ := kept (hp ▸ hpath)
        have hsolid := solid_valueOf entry.2
        rw [hinner] at hsolid
        exact ⟨inner, hinner, ((Value.solid_object_iff inner).mp hsolid).1⟩
      | cons q rest => exact ⟨_, nested_cons .., ordered_pair ..⟩

/-- **What a variable names is among the settings that variables give**, unless another variable replaces the section as a whole. -/
theorem hasField_settings {env : Environment} {s key : String} {entry : String × String} (hentry : entry ∈ env)
    (hpath : path? entry.1 = some [s, key])
    (objects : ∀ other ∈ env, path? other.1 = some [s] → ∃ fields, valueOf other.2 = .object fields) : HasField (settings env) s key := by
  obtain ⟨before, after, rfl⟩ := List.append_of_mem hentry
  rw [settings_eq, List.foldl_append, List.foldl_cons, ← settings_eq]
  have hthere : HasField (put (settings before) entry) s key := by
    rw [put, hpath]
    exact hasField_named (solid_settings before) ..
  have hkeeps : ∀ later : Environment, (∀ other ∈ later, path? other.1 = some [s] → ∃ fields, valueOf other.2 = .object fields) →
      ∀ v, SolidObject v → HasField v s key → HasField (later.foldl put v) s key := by
    intro later hlater
    induction later with
    | nil => exact fun v _ h => h
    | cons other rest ih =>
      obtain ⟨hother, hrest⟩ := List.forall_mem_cons.mp hlater
      exact fun v hv h => ih hrest _ (hv.put other) (hasField_put hv h hother)
  exact hkeeps after (fun other hother => objects other (List.mem_append_right _ (List.mem_cons_of_mem _ hother))) _
    ((solid_settings before).put entry) hthere

/-- A variable's path leads to a setting or to the whole section that it is in. -/
def LeadsTo (path : List String) (item : Item) : Prop :=
  path = [item.sectionKey] ∨ ∃ key ∈ item.names, ∃ rest, path = item.sectionKey :: key :: rest

/-- A value has nothing for a setting. -/
def Lacks (v : Value) (item : Item) : Prop :=
  v.get? item.sectionKey = none ∨ ∃ fields, v.get? item.sectionKey = some (.object fields) ∧ ∀ n ∈ item.names, Keyed.get? fields n = none

theorem not_gives_of_lacks {v : Value} {item : Item} (h : Lacks v item) : ¬ Gives v item := by
  rintro ⟨w, hw⟩
  rcases h with hnone | ⟨fields, hsection, hnone⟩
  · rw [hnone] at hw
    cases hw
  · rw [hsection] at hw
    have habsent : item.slot? (some (.object fields)) = some none := Record.slot?_eq_none_iff.mpr hnone
    cases hw.symm.trans habsent

theorem lacks_put {v : Value} (hv : SolidObject v) {item : Item} (h : Lacks v item) {entry : String × String}
    (elsewhere : ∀ path, path? entry.1 = some path → ¬ LeadsTo path item) : Lacks (put v entry) item := by
  obtain ⟨fields, rfl, -⟩ := hv
  rw [put]
  cases hpath : path? entry.1 with
  | none => exact h
  | some path =>
    cases path with
    | nil => exact absurd rfl (ne_nil_of_path? hpath)
    | cons p rest =>
      have hother := elsewhere _ hpath
      show Lacks (overlay (.object fields) (nested (p :: rest) (valueOf entry.2))) item
      rw [nested_cons, overlay_objects]
      have hget : ∀ name, (Value.object (overlayFields fields [(p, nested rest (valueOf entry.2))])).get? name = _ :=
        fun name => get?_overlayFields_pair ..
      rw [Lacks, hget]
      by_cases hp : p = item.sectionKey
      · subst hp
        rw [if_pos rfl]
        cases rest with
        | nil => exact absurd (Or.inl rfl) hother
        | cons q rest =>
          have hq : ∀ n ∈ item.names, q ≠ n := by
            rintro n hn rfl
            exact hother (Or.inr ⟨q, hn, rest, rfl⟩)
          refine Or.inr ?_
          rcases h with hnone | ⟨inner, hsection, hnone⟩
          · refine ⟨[(q, nested rest (valueOf entry.2))], ?_, fun n hn => (get?_pair ..).trans (if_neg (hq n hn))⟩
            rw [show Keyed.get? fields item.sectionKey = none from hnone]
            rfl
          · refine ⟨overlayFields inner [(q, nested rest (valueOf entry.2))], ?_, fun n hn => ?_⟩
            · rw [show Keyed.get? fields item.sectionKey = _ from hsection]
              exact congrArg some (overlay_objects ..)
            · rw [get?_overlayFields_pair, if_neg (hq n hn)]
              exact hnone n hn
      · rw [if_neg hp]
        exact h

/-- **What variables give, some variable names.** -/
theorem named_of_gives {env : Environment} {item : Item} (h : Gives (settings env) item) :
    ∃ entry ∈ env, ∃ path, path? entry.1 = some path ∧ LeadsTo path item := by
  by_contra hnone
  have hlacks : SolidObject (settings env) ∧ Lacks (settings env) item := by
    refine List.foldlRecOn (motive := fun v => SolidObject v ∧ Lacks v item) env put ⟨⟨[], rfl, .object List.Pairwise.nil nofun⟩, Or.inl rfl⟩
      fun v hv entry hentry => ?_
    exact ⟨hv.1.put entry, lacks_put hv.1 hv.2 fun path hpath hleads => hnone ⟨entry, hentry, path, hpath, hleads⟩⟩
  exact not_gives_of_lacks hlacks.2 h

end Naming

end EditorLink.Configuration
