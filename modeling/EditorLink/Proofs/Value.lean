import EditorLink.Proofs.Keyed
import EditorLink.Value

/-!
# EditorLink.Proofs.Value -- values and their parts

What holds of a value as a whole is proved by induction over its containers (`Value.induct`). `Value.Part` goes the other way, from a
value to all that it is made of, so that a bound on every text, array and object in a value can be said once (`Value.Short`).
-/

namespace EditorLink.Value

/-! ## Induction -/

/-- What holds of a container as soon as it holds of what is in it, and of all that is no container, holds of every value. -/
@[elab_as_elim]
theorem induct {motive : Value → Prop} (null : motive .null) (bool : ∀ b, motive (.bool b)) (number : ∀ n, motive (.number n))
    (string : ∀ s, motive (.string s)) (array : ∀ items, (∀ v ∈ items, motive v) → motive (.array items))
    (object : ∀ fields, (∀ f ∈ fields, motive f.2) → motive (.object fields)) : ∀ v, motive v
  | .null => null
  | .bool b => bool b
  | .number n => number n
  | .string s => string s
  | .array items => array items fun v _ => induct null bool number string array object v
  | .object fields => object fields fun f _ => induct null bool number string array object f.2
termination_by v => v
decreasing_by
  · have := List.sizeOf_lt_of_mem ‹_›
    simp_wf
    omega
  · have := List.sizeOf_lt_of_mem ‹_›
    have : sizeOf f = 1 + sizeOf f.1 + sizeOf f.2 := by cases f; simp
    simp_wf
    omega

/-! ## Depth -/

theorem depthItems_le_iff {items : List Value} {deepest d : Nat} :
    depthItems items deepest ≤ d ↔ deepest ≤ d ∧ ∀ v ∈ items, v.depth ≤ d := by
  induction items generalizing deepest with
  | nil => simp [depthItems]
  | cons v items ih =>
    rw [depthItems, ih, Nat.max_le, List.forall_mem_cons, and_assoc]

theorem depthFields_le_iff {fields : Fields} {deepest d : Nat} :
    depthFields fields deepest ≤ d ↔ deepest ≤ d ∧ ∀ f ∈ fields, f.2.depth ≤ d := by
  induction fields generalizing deepest with
  | nil => simp [depthFields]
  | cons f fields ih =>
    obtain ⟨key, v⟩ := f
    rw [depthFields, ih, Nat.max_le, List.forall_mem_cons, and_assoc]

/-- What is in an array may have one container less around its innermost value. -/
theorem depth_array_le_iff {items : List Value} {d : Nat} : (array items).depth ≤ d ↔ 1 ≤ d ∧ ∀ v ∈ items, v.depth ≤ d - 1 := by
  rw [depth]
  have hitems := @depthItems_le_iff items 0 (d - 1)
  constructor
  · intro h
    exact ⟨by omega, (hitems.mp (by omega)).2⟩
  · rintro ⟨hd, h⟩
    have := hitems.mpr ⟨Nat.zero_le _, h⟩
    omega

theorem depth_object_le_iff {fields : Fields} {d : Nat} : (object fields).depth ≤ d ↔ 1 ≤ d ∧ ∀ f ∈ fields, f.2.depth ≤ d - 1 := by
  rw [depth]
  have hfields := @depthFields_le_iff fields 0 (d - 1)
  constructor
  · intro h
    exact ⟨by omega, (hfields.mp (by omega)).2⟩
  · rintro ⟨hd, h⟩
    have := hfields.mpr ⟨Nat.zero_le _, h⟩
    omega

/-! ## Parts -/

/-- What a value is made of: itself, and all that is in it. -/
inductive Part : Value → Value → Prop where
  | self (v) : Part v v
  | item {part v items} : v ∈ items → Part part v → Part part (.array items)
  | field {part f fields} : f ∈ fields → Part part f.2 → Part part (.object fields)

section Part

variable {part : Value}

/-- A value with nothing in it has no other part. -/
@[simp] theorem part_iff_of_flat {v : Value} (noArray : ∀ items, v ≠ .array items) (noObject : ∀ fields, v ≠ .object fields) :
    Part part v ↔ part = v := by
  constructor
  · intro h
    cases h with
    | self => rfl
    | item _ _ => exact absurd rfl (noArray _)
    | field _ _ => exact absurd rfl (noObject _)
  · rintro rfl
    exact .self _

@[simp] theorem part_array_iff {items : List Value} : Part part (.array items) ↔ part = .array items ∨ ∃ v ∈ items, Part part v := by
  constructor
  · intro h
    cases h with
    | self => exact .inl rfl
    | item hv h => exact .inr ⟨_, hv, h⟩
  · rintro (rfl | ⟨v, hv, h⟩)
    · exact .self _
    · exact .item hv h

@[simp] theorem part_object_iff {fields : Fields} :
    Part part (.object fields) ↔ part = .object fields ∨ ∃ f ∈ fields, Part part f.2 := by
  constructor
  · intro h
    cases h with
    | self => exact .inl rfl
    | field hf h => exact .inr ⟨_, hf, h⟩
  · rintro (rfl | ⟨f, hf, h⟩)
    · exact .self _
    · exact .field hf h

end Part

/-! ## Sizes -/

/-- A text, a key, an array or an object has less than so many bytes, items or fields. -/
def BelowSize (bound : Nat) : Value → Prop
  | .string s => s.utf8ByteSize < bound
  | .array items => items.length < bound
  | .object fields => fields.length < bound ∧ ∀ f ∈ fields, f.1.utf8ByteSize < bound
  | _ => True

/-- All texts, keys, arrays and objects in a value are below a size. -/
def Short (bound : Nat) (v : Value) : Prop :=
  ∀ part, Part part v → part.BelowSize bound

section Short

variable {bound : Nat}

/-- Only its own size counts for a value with nothing in it. -/
theorem short_iff_of_flat {v : Value} (noArray : ∀ items, v ≠ .array items) (noObject : ∀ fields, v ≠ .object fields) :
    Short bound v ↔ v.BelowSize bound := by
  simp [Short, part_iff_of_flat noArray noObject]

@[simp] theorem short_null : Short bound .null :=
  (short_iff_of_flat (by simp) (by simp)).mpr trivial

@[simp] theorem short_bool (b : Bool) : Short bound (.bool b) :=
  (short_iff_of_flat (by simp) (by simp)).mpr trivial

@[simp] theorem short_number (n : Number) : Short bound (.number n) :=
  (short_iff_of_flat (by simp) (by simp)).mpr trivial

@[simp] theorem short_string_iff {s : String} : Short bound (.string s) ↔ s.utf8ByteSize < bound :=
  short_iff_of_flat (by simp) (by simp)

@[simp] theorem short_array_iff {items : List Value} :
    Short bound (.array items) ↔ items.length < bound ∧ ∀ v ∈ items, Short bound v := by
  constructor
  · intro h
    exact ⟨h _ (.self _), fun v hv part hpart => h part (.item hv hpart)⟩
  · rintro ⟨hcount, hitems⟩ part hpart
    rcases part_array_iff.mp hpart with rfl | ⟨v, hv, hpart⟩
    · exact hcount
    · exact hitems v hv part hpart

@[simp] theorem short_object_iff {fields : Fields} :
    Short bound (.object fields) ↔
      fields.length < bound ∧ ∀ f ∈ fields, f.1.utf8ByteSize < bound ∧ Short bound f.2 := by
  constructor
  · intro h
    obtain ⟨hcount, hkeys⟩ : fields.length < bound ∧ ∀ f ∈ fields, f.1.utf8ByteSize < bound := h _ (.self _)
    exact ⟨hcount, fun f hf => ⟨hkeys f hf, fun part hpart => h part (.field hf hpart)⟩⟩
  · rintro ⟨hcount, hfields⟩ part hpart
    rcases part_object_iff.mp hpart with rfl | ⟨f, hf, hpart⟩
    · exact ⟨hcount, fun f hf => (hfields f hf).1⟩
    · exact (hfields f hf).2 part hpart

end Short

/-! ## Order -/

@[simp] theorem wellFormed_array_iff {items : List Value} : WellFormed (.array items) ↔ ∀ v ∈ items, WellFormed v := by
  constructor
  · rintro ⟨⟩
    assumption
  · intro h
    exact .array h

@[simp] theorem wellFormed_object_iff {fields : Fields} :
    WellFormed (.object fields) ↔ Keyed.Ordered fields ∧ ∀ f ∈ fields, WellFormed f.2 := by
  constructor
  · rintro ⟨⟩
    constructor <;> assumption
  · rintro ⟨hordered, h⟩
    exact .object hordered h

end EditorLink.Value
