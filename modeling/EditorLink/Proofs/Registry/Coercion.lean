import EditorLink.Extension.Facade
import EditorLink.Proofs.Extension.Runs
import EditorLink.Proofs.Registry.LeadingInteger

/-!
# EditorLink.Proofs.Registry.Coercion -- settings read as values of their type

Whatever the host holds, a setting of flags reads as a flag, one of integers as an integer of sixty-four bits and one of floats as a number,
as long as a declared default is of the declared type itself (`hasType_coerce`). So the facade's typed operations find a value whenever the host
answers. A setting of an unknown type reads as null if the host has a value. If the host has none, it reads as its default like any
other: only without a default is it null in any case.
-/

namespace EditorLink.Registry.Setting

open Text

/-! ## Values of a type -/

/-- The value is of the type. Numbers are finite, and of an unknown type nothing is known. -/
inductive HasType : SettingType → Value → Prop
  | bool (b : Bool) : HasType .bool (.bool b)
  | string (text : String) : HasType .string (.string text)
  | int {i : Int} (fits : Fits i) : HasType .int (.ofInt i)
  | float (n : Number) : HasType .float (.number n)
  | unknown (v : Value) : HasType .unknown v

theorem hasType_bool_iff {v : Value} : HasType .bool v ↔ ∃ b, v = .bool b :=
  ⟨fun | .bool b => ⟨b, rfl⟩, fun ⟨b, h⟩ => h ▸ .bool b⟩

theorem hasType_int_iff {v : Value} : HasType .int v ↔ ∃ i, Fits i ∧ v = .ofInt i :=
  ⟨fun | .int fits => ⟨_, fits, rfl⟩, fun ⟨_, fits, h⟩ => h ▸ .int fits⟩

theorem hasType_float_iff {v : Value} : HasType .float v ↔ ∃ n, v = .number n :=
  ⟨fun | .float n => ⟨n, rfl⟩, fun ⟨n, h⟩ => h ▸ .float n⟩

/-- All but texts have a zero of their own type. -/
theorem hasType_zero {type : SettingType} (h : type ≠ .string) : HasType type (zero type) := by
  cases type with
  | bool => exact .bool false
  | int => exact .int (i := 0) (by decide)
  | float => exact .float _
  | unknown => exact .unknown _
  | string => exact absurd rfl h

theorem fits_clamp (i : Int) : Fits (clamp i) := by
  rw [clamp]
  constructor <;> omega

/-- **What is read as an integer has sixty-four bits**, also if it is read from a float that is far larger. -/
theorem fits_of_int? {v : Value} {i : Int} (h : int? v = some i) : Fits i := by
  cases v with
  | number n =>
    obtain rfl := Option.some.inj h
    rw [intOfNumber]
    split
    · next i hi => exact (integer?_eq_some_iff.mp hi).1
    · exact fits_clamp _
  | string text =>
    obtain ⟨blanks, sign, digits, rest, hparts⟩ := exists_parts text.toList
    have hread := (leadingInt?_of_parts hparts).symm.trans h
    split at hread
    · next hfits =>
      obtain rfl := Option.some.inj hread
      exact hfits.2
    · cases hread
  | _ => cases h

theorem hasType_convert? {type : SettingType} (h : type ≠ .string) {raw v : Value} (hconvert : convert? type raw = some v) :
    HasType type v := by
  cases type with
  | bool =>
    obtain rfl := Option.some.inj hconvert
    exact .bool _
  | int =>
    obtain ⟨i, hi, rfl⟩ := Option.map_eq_some_iff.mp hconvert
    exact .int (fits_of_int? hi)
  | float =>
    obtain ⟨x, -, rfl⟩ := Option.map_eq_some_iff.mp hconvert
    exact .float (.float x)
  | unknown => exact .unknown v
  | string => exact absurd rfl h

/-! ## Coercion -/

variable {s : Setting} {raw v : Value}

theorem coerce_of_ne_null (h : v ≠ .null) : s.coerce (some v) = (convert? s.type v).getD s.fallback := by
  cases v with
  | null => exact absurd rfl h
  | _ => rfl

theorem hasType_fallback (hdefault : ∀ d, s.default? = some d → HasType s.type d) (h : s.type ≠ .string) : HasType s.type s.fallback := by
  rw [fallback]
  cases hd : s.default? with
  | none => exact hasType_zero h
  | some d => exact hdefault d hd

/-- **A setting reads as a value of its type**, but for texts, which are read as they are. -/
theorem hasType_coerce (hdefault : ∀ d, s.default? = some d → HasType s.type d) (h : s.type ≠ .string) (raw : Option Value) :
    HasType s.type (s.coerce raw) := by
  have hfallback := hasType_fallback hdefault h
  cases raw with
  | none => exact hfallback
  | some raw =>
    by_cases hnull : raw = .null
    · rw [hnull]
      exact hfallback
    · rw [coerce_of_ne_null hnull]
      cases hconvert : convert? s.type raw with
      | none => exact hfallback
      | some v => exact hasType_convert? h hconvert

/-- A value that does not read as one of the type gives way to the default. -/
theorem coerce_of_unreadable (h : convert? s.type v = none) : s.coerce (some v) = s.fallback := by
  by_cases hnull : v = .null
  · rw [hnull]
    rfl
  · rw [coerce_of_ne_null hnull, h]
    rfl

end EditorLink.Registry.Setting

namespace EditorLink.Session

open Extension Registry Registry.Setting

/-! ## The host's answers -/

/-- A typed operation on a setting asks the host for it and goes on with a value that is there, whatever the host answers. -/
def Gives {α : Type} (s : Session) (name : String) (op : Op (Asked (Option α))) : Prop :=
  ∀ k, ∃ next, Comes s (op k) s (.invoke "getConfig" [.string name] id next) ∧ ∀ raw, ∃ a, next (.ok raw) = k (.ok (some a))

/-- An operation that can read all that the setting may be has a value to go on with. -/
theorem gives_settingAs {α : Type} {s : Session} {name : String} {setting : Setting} (declared : s.workspace.settings.get? name = some setting)
    (read : Value → Option α) (h : ∀ raw, ∃ a, read (setting.coerce (some raw)) = some a) : Gives s name (Facade.settingAs read name) := by
  intro k
  have hasks : Comes s (Facade.settingAs read name k) s
      (Facade.queryAlways "getConfig" [.string name] (fun raw => setting.coerce (some raw)) fun answer => k (answer.map read)) := by
    refine .access ?_
    simp only [declared]
    exact .here s _
  refine ⟨_, hasks, fun raw => ?_⟩
  obtain ⟨a, ha⟩ := h raw
  exact ⟨a, congrArg (fun found => k (.ok found)) ha⟩

/-- **Settings are read as values of their type.** Let a declared default be of the declared type. Whatever the host holds, or if it holds nothing, a
setting of flags reads as a flag, one of integers as an integer of sixty-four bits, and one of floats as a number; so whenever the host
answers, the facade's typed operations have a value. A setting of texts reads as what the host holds, unless that is null, and one of an
unknown type as null, if the host holds something or there is no default. What is missing, or null, reads as the default, and so does what
cannot be read as an integer or as a float; without a default it is the zero of the type, or null. -/
theorem settings_have_their_type (s : Setting) (hdefault : ∀ d, s.default? = some d → HasType s.type d) :
    (∀ raw, (s.type = .bool → ∃ b, s.coerce raw = .bool b) ∧ (s.type = .int → ∃ i, Fits i ∧ s.coerce raw = .ofInt i) ∧
      (s.type = .float → ∃ n, s.coerce raw = .number n)) ∧
    (∀ (t : Session) (name : String), t.workspace.settings.get? name = some s →
      (s.type = .bool → Gives t name (Facade.settingBool name)) ∧ (s.type = .int → Gives t name (Facade.settingInt name)) ∧
      (s.type = .float → Gives t name (Facade.settingFloat name))) ∧
    (s.type = .string → ∀ v, v ≠ .null → s.coerce (some v) = v) ∧
    (s.type = .unknown → (∀ v, v ≠ .null → s.coerce (some v) = .null) ∧ (s.default? = none → ∀ raw, s.coerce raw = .null)) ∧
    (s.coerce none = s.default?.getD (zero s.type) ∧ s.coerce (some .null) = s.default?.getD (zero s.type)) ∧
    (s.type = .int → ∀ v, int? v = none → s.coerce (some v) = s.default?.getD (.ofInt 0)) ∧
    (s.type = .float → ∀ v, float? v = none → s.coerce (some v) = s.default?.getD (.ofInt 0)) := by
  have htyped : ∀ {type : SettingType}, s.type = type → type ≠ .string → ∀ raw, HasType type (s.coerce raw) := by
    rintro _ rfl hno
    exact hasType_coerce hdefault hno
  have hbool : s.type = .bool → ∀ raw, ∃ b, s.coerce raw = .bool b :=
    fun htype raw => hasType_bool_iff.mp (htyped htype nofun raw)
  have hint : s.type = .int → ∀ raw, ∃ i, Fits i ∧ s.coerce raw = .ofInt i :=
    fun htype raw => hasType_int_iff.mp (htyped htype nofun raw)
  have hfloat : s.type = .float → ∀ raw, ∃ n, s.coerce raw = .number n :=
    fun htype raw => hasType_float_iff.mp (htyped htype nofun raw)
  refine ⟨fun raw => ⟨(hbool · raw), (hint · raw), (hfloat · raw)⟩, fun t name declared => ⟨?_, ?_, ?_⟩, ?_, ?_, ⟨rfl, rfl⟩, ?_, ?_⟩
  · intro htype
    refine gives_settingAs declared Value.flag? fun raw => ?_
    obtain ⟨b, hb⟩ := hbool htype (some raw)
    exact ⟨b, by rw [hb]; rfl⟩
  · intro htype
    refine gives_settingAs declared Value.integer? fun raw => ?_
    obtain ⟨i, hi⟩ := hint htype (some raw)
    exact ⟨i, integer?_eq_some_iff.mpr hi⟩
  · intro htype
    refine gives_settingAs declared Value.double? fun raw => ?_
    obtain ⟨n, hn⟩ := hfloat htype (some raw)
    exact ⟨n.toDouble, by rw [hn]; rfl⟩
  · intro htype v hv
    rw [coerce_of_ne_null hv, htype]
    rfl
  · intro htype
    have hpresent : ∀ v, v ≠ .null → s.coerce (some v) = .null := by
      intro v hv
      rw [coerce_of_ne_null hv, htype]
      rfl
    refine ⟨hpresent, fun hnone raw => ?_⟩
    have hfallback : s.fallback = .null := by
      rw [fallback, hnone, htype]
      rfl
    cases raw with
    | none => exact hfallback
    | some v =>
      by_cases hv : v = .null
      · rw [hv]
        exact hfallback
      · exact hpresent v hv
  · intro htype v hv
    rw [coerce_of_unreadable (by rw [htype, convert?, hv]; rfl), fallback, htype]
    rfl
  · intro htype v hv
    rw [coerce_of_unreadable (by rw [htype, convert?, hv]; rfl), fallback, htype]
    rfl

/-- A color, which is no known type, reads as its default as long as the host has none, and as null when it has one. A width that the host holds as
a flag, or not at all, reads as its default. -/
theorem unknown_setting_reads_as_its_default_until_it_is_set :
    let color : Setting := ⟨.unknown, some (.string "red")⟩
    let width : Setting := ⟨.int, some (.ofInt 12)⟩
    ((∀ d, color.default? = some d → HasType color.type d) ∧ color.coerce none = .string "red" ∧
      color.coerce (some .null) = .string "red" ∧ color.coerce (some (.string "blue")) = .null) ∧
    (∀ d, width.default? = some d → HasType width.type d) ∧ width.coerce none = .ofInt 12 ∧ width.coerce (some (.bool true)) = .ofInt 12 := by
  intro color width
  have hcolor : ∀ d, color.default? = some d → HasType color.type d := fun d _ => .unknown d
  have hwidth : ∀ d, width.default? = some d → HasType width.type d := by
    rintro _ ⟨⟩
    exact .int (by decide)
  obtain ⟨-, -, -, hunknown, ⟨hmissing, hnull⟩, -⟩ := settings_have_their_type color hcolor
  obtain ⟨-, -, -, -, ⟨hnothing, -⟩, hunread, -⟩ := settings_have_their_type width hwidth
  exact ⟨⟨hcolor, hmissing, hnull, (hunknown rfl).1 _ nofun⟩, hwidth, hnothing, hunread rfl _ rfl⟩

end EditorLink.Session
