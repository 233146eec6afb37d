import EditorLink.Proofs.Text.Bytes
import EditorLink.Wire.Scan

/-!
# EditorLink.Proofs.Wire.Grammar -- what a MessagePack value is

The grammar of MessagePack is recursive: a value is a marker, the bytes that belong to the marker itself, and as many values as the
marker announces. `IsValue` says this of byte strings, without a buffer, an offset or a count of what is still missing. `Own.layout` and
`own_of_whole` tie it to the layouts that a walk over markers goes by: what belongs to a marker is what its layout takes.
-/

namespace EditorLink.Wire

open Pack (Head)

/-! ## The grammar -/

/-- The bytes that belong to a marker itself, which are those between it and the values that it announces, and the number of these
values. -/
inductive Own : Head → (own : Bytes) → (items : Nat) → Prop where
  | nil : Own .nil [] 0
  | bool (b) : Own (.bool b) [] 0
  | natural (n) : Own (.natural n) [] 0
  | negative (n) : Own (.negative n) [] 0
  | unsigned (digits) : Own (.unsigned digits.length) digits 0
  | signed (digits) : Own (.signed digits.length) digits 0
  | single (digits) : digits.length = 4 → Own .single digits 0
  | double (digits) : digits.length = 8 → Own .double digits 0
  | text (content) : Own (.text content.length) content 0
  | textSized (digits content) : content.length = Bytes.toNat digits →
    Own (.textSized digits.length) (digits ++ content) 0
  | binarySized (digits content) : content.length = Bytes.toNat digits →
    Own (.binarySized digits.length) (digits ++ content) 0
  | extension (type) (content) : Own (.extension content.length) (type :: content) 0
  | extensionSized (digits type content) : content.length = Bytes.toNat digits →
    Own (.extensionSized digits.length) (digits ++ type :: content) 0
  | array (count) : Own (.array count) [] count
  | arrayCounted (digits) : Own (.arrayCounted digits.length) digits (Bytes.toNat digits)
  | map (count) : Own (.map count) [] (2 * count)
  | mapCounted (digits) : Own (.mapCounted digits.length) digits (2 * Bytes.toNat digits)

/-- So many values, one after another. -/
inductive Values : (count : Nat) → Bytes → Prop where
  | none : Values 0 []
  | cons {b own items inner count rest} : Own (Head.ofByte b) own items → Values items inner → Values count rest →
    Values (count + 1) (b :: (own ++ inner) ++ rest)

/-- The bytes are one MessagePack value. -/
def IsValue (bytes : Bytes) : Prop :=
  Values 1 bytes

theorem IsValue.ne_nil {bytes : Bytes} (h : IsValue bytes) : bytes ≠ [] := by
  unfold IsValue at h
  generalize hone : 1 = count at h
  cases h with
  | none => cases hone
  | cons => simp

theorem Values.append {m n : Nat} {bytes more : Bytes} (h : Values m bytes) (hmore : Values n more) :
    Values (m + n) (bytes ++ more) := by
  induction h with
  | none => simpa using hmore
  | @cons b own items inner count rest hown hinner _ _ ih =>
    have hrest := Values.cons hown hinner ih
    rw [Nat.add_right_comm]
    simpa using hrest

/-- Values one after another are some of them and then the others. -/
theorem Values.split {m n : Nat} {bytes : Bytes} (h : Values (m + n) bytes) :
    ∃ first second, bytes = first ++ second ∧ Values m first ∧ Values n second := by
  induction m generalizing bytes with
  | zero => exact ⟨[], bytes, rfl, .none, by simpa using h⟩
  | succ m ih =>
    rw [Nat.add_right_comm] at h
    obtain _ | ⟨hown, hinner, hrest⟩ := h
    obtain ⟨first, second, rfl, hfirst, hsecond⟩ := ih hrest
    exact ⟨_, second, by simp, .cons hown hinner hfirst, hsecond⟩

/-- The values that a marker announces may be counted together with those after it, as a walk does. -/
theorem Values.flat {b : UInt8} {own tail : Bytes} {items count : Nat} (hown : Own (Head.ofByte b) own items)
    (h : Values (count + items) tail) : Values (count + 1) (b :: own ++ tail) := by
  obtain ⟨inner, rest, rfl, hinner, hrest⟩ := (Nat.add_comm count items ▸ h).split
  simpa using Values.cons hown hinner hrest

/-! ## What one marker takes -/

namespace Scan

/-- A number that is incomplete stays so until enough bytes are there. -/
theorem stride_short {start need : Nat} {bytes : Bytes} {layout : Layout} (h : stride start bytes layout = .short need) :
    start + bytes.length < need ∧
      ∀ more, start + (bytes ++ more).length < need → stride start (bytes ++ more) layout = .short need := by
  -- only a layout with a number of some width can be short
  obtain ⟨width, rfl, hshort, hstays⟩ : ∃ width, start + width = need ∧ Bytes.readNat? width bytes = none ∧
      ∀ bytes', Bytes.readNat? width bytes' = none → stride start bytes' layout = .short need := by
    cases layout with
    | fixed size => simp [stride] at h
    | items count => simp [stride] at h
    | sized width extra =>
      simp only [stride] at h ⊢
      split at h
      · next hread => exact ⟨width, by simpa using h, hread, fun bytes' hread' => by rw [hread']; exact h⟩
      · simp at h
    | counted width per =>
      simp only [stride] at h ⊢
      split at h
      · next hread => exact ⟨width, by simpa using h, hread, fun bytes' hread' => by rw [hread']; exact h⟩
      · simp at h
  rw [Bytes.readNat?_eq_none_iff] at hshort
  exact ⟨by omega, fun more hmore => hstays _ (Bytes.readNat?_eq_none_iff.mpr (by omega))⟩

/-- A marker takes the same bytes of its own wherever it stands and whatever follows them. -/
theorem stride_full {start stop added : Nat} {bytes rest : Bytes} {layout : Layout}
    (h : stride start bytes layout = .full stop added (some rest)) :
    ∃ own, bytes = own ++ rest ∧ stop = start + own.length ∧
      ∀ start more, stride start (own ++ more) layout = .full (start + own.length) added (some more) := by
  cases layout with
  | fixed size =>
    simp only [stride, Stride.full.injEq] at h
    obtain ⟨rfl, rfl, hdrop⟩ := h
    obtain ⟨own, rfl, rfl⟩ := Bytes.dropExactly?_eq_some_iff.mp hdrop
    exact ⟨own, rfl, rfl, fun start more => by simp [stride]⟩
  | items count =>
    simp only [stride, Stride.full.injEq, Option.some.injEq] at h
    obtain ⟨rfl, rfl, rfl⟩ := h
    exact ⟨[], rfl, rfl, fun start more => rfl⟩
  | sized width extra =>
    simp only [stride] at h
    split at h
    · simp at h
    · next hread =>
      simp only [Stride.full.injEq] at h
      obtain ⟨rfl, rfl, hdrop⟩ := h
      obtain ⟨digits, rfl, rfl, rfl⟩ := Bytes.readNat?_eq_some_iff.mp hread
      obtain ⟨content, rfl, hcontent⟩ := Bytes.dropExactly?_eq_some_iff.mp hdrop
      refine ⟨digits ++ content, by simp, by simp; omega, fun start more => ?_⟩
      simp [stride, ← hcontent]
      omega
  | counted width per =>
    simp only [stride] at h
    split at h
    · simp at h
    · next hread =>
      simp only [Stride.full.injEq, Option.some.injEq] at h
      obtain ⟨rfl, rfl, rfl⟩ := h
      obtain ⟨digits, rfl, rfl, rfl⟩ := Bytes.readNat?_eq_some_iff.mp hread
      exact ⟨digits, rfl, rfl, fun start more => by simp [stride]⟩

/-- Where a payload ends is known before all of it is there. -/
theorem stride_beyond {start stop added : Nat} {bytes : Bytes} {layout : Layout}
    (h : stride start bytes layout = .full stop added none) :
    start + bytes.length < stop ∧
      ∀ more, stride start (bytes ++ more) layout = .full stop added (Bytes.dropExactly? (stop - start) (bytes ++ more)) := by
  cases layout with
  | fixed size =>
    simp only [stride, Stride.full.injEq] at h ⊢
    obtain ⟨rfl, rfl, hdrop⟩ := h
    rw [Bytes.dropExactly?_eq_none_iff] at hdrop
    exact ⟨by omega, fun more => by simp⟩
  | items count => simp [stride] at h
  | sized width extra =>
    simp only [stride] at h ⊢
    split at h
    · simp at h
    · next size rest hread =>
      simp only [Stride.full.injEq] at h
      obtain ⟨rfl, rfl, hdrop⟩ := h
      obtain ⟨digits, rfl, rfl, rfl⟩ := Bytes.readNat?_eq_some_iff.mp hread
      rw [Bytes.dropExactly?_eq_none_iff] at hdrop
      refine ⟨by simp; omega, fun more => ?_⟩
      have hreach : start + digits.length + extra + Bytes.toNat digits - start =
          digits.length + (extra + Bytes.toNat digits) := by omega
      rw [hreach, List.append_assoc, Bytes.readNat?_length_append, Bytes.dropExactly?_add]
  | counted width per =>
    simp only [stride] at h
    split at h <;> simp at h

end Scan

/-! ## The markers of the grammar -/

section Whole

variable {own : Bytes} {items : Nat}

theorem stride_fixed_iff {size : Nat} :
    Scan.stride 0 own (.fixed size) = .full own.length items (some []) ↔ own.length = size ∧ items = 0 := by
  simp only [Scan.stride, Scan.Stride.full.injEq, Bytes.dropExactly?_eq_some_iff, List.append_nil]
  constructor
  · rintro ⟨-, rfl, _, rfl, rfl⟩
    exact ⟨rfl, rfl⟩
  · rintro ⟨rfl, rfl⟩
    exact ⟨by omega, rfl, own, rfl, rfl⟩

theorem stride_items_iff {count : Nat} :
    Scan.stride 0 own (.items count) = .full own.length items (some []) ↔ own = [] ∧ items = count := by
  simp only [Scan.stride, Scan.Stride.full.injEq, Option.some.injEq]
  constructor
  · rintro ⟨-, rfl, rfl⟩
    exact ⟨rfl, rfl⟩
  · rintro ⟨rfl, rfl⟩
    exact ⟨rfl, rfl, rfl⟩

theorem stride_sized_iff {width extra : Nat} :
    Scan.stride 0 own (.sized width extra) = .full own.length items (some []) ↔
      ∃ digits content, own = digits ++ content ∧ digits.length = width ∧
        content.length = extra + Bytes.toNat digits ∧ items = 0 := by
  constructor
  · intro h
    rw [Scan.stride] at h
    split at h
    · simp at h
    · next hread =>
      simp only [Scan.Stride.full.injEq] at h
      obtain ⟨-, rfl, hdrop⟩ := h
      obtain ⟨digits, rfl, rfl, rfl⟩ := Bytes.readNat?_eq_some_iff.mp hread
      obtain ⟨content, rfl, hcontent⟩ := Bytes.dropExactly?_eq_some_iff.mp hdrop
      exact ⟨digits, content, by simp, rfl, hcontent, rfl⟩
  · rintro ⟨digits, content, rfl, rfl, hcontent, rfl⟩
    simp [Scan.stride, ← hcontent, Bytes.dropExactly?_eq]
    omega

theorem stride_counted_iff {width per : Nat} :
    Scan.stride 0 own (.counted width per) = .full own.length items (some []) ↔
      own.length = width ∧ items = Bytes.toNat own * per := by
  constructor
  · intro h
    rw [Scan.stride] at h
    split at h
    · simp at h
    · next hread =>
      simp only [Scan.Stride.full.injEq, Option.some.injEq] at h
      obtain ⟨-, rfl, rfl⟩ := h
      obtain ⟨digits, rfl, rfl, rfl⟩ := Bytes.readNat?_eq_some_iff.mp hread
      simp
  · rintro ⟨rfl, rfl⟩
    simp [Scan.stride]

/-- What belongs to a marker is all that its layout takes. -/
theorem Own.layout {head : Head} (h : Own head own items) :
    ∃ layout, layout? head = some layout ∧ Scan.stride 0 own layout = .full own.length items (some []) := by
  cases h with
  | nil => exact ⟨_, rfl, stride_fixed_iff.mpr ⟨rfl, rfl⟩⟩
  | bool b => exact ⟨_, rfl, stride_fixed_iff.mpr ⟨rfl, rfl⟩⟩
  | natural n => exact ⟨_, rfl, stride_fixed_iff.mpr ⟨rfl, rfl⟩⟩
  | negative n => exact ⟨_, rfl, stride_fixed_iff.mpr ⟨rfl, rfl⟩⟩
  | unsigned digits => exact ⟨_, rfl, stride_fixed_iff.mpr ⟨rfl, rfl⟩⟩
  | signed digits => exact ⟨_, rfl, stride_fixed_iff.mpr ⟨rfl, rfl⟩⟩
  | single digits hlength => exact ⟨_, rfl, stride_fixed_iff.mpr ⟨hlength, rfl⟩⟩
  | double digits hlength => exact ⟨_, rfl, stride_fixed_iff.mpr ⟨hlength, rfl⟩⟩
  | text content => exact ⟨_, rfl, stride_fixed_iff.mpr ⟨rfl, rfl⟩⟩
  | textSized digits content hlength =>
    exact ⟨_, rfl, stride_sized_iff.mpr ⟨digits, content, rfl, rfl, by omega, rfl⟩⟩
  | binarySized digits content hlength =>
    exact ⟨_, rfl, stride_sized_iff.mpr ⟨digits, content, rfl, rfl, by omega, rfl⟩⟩
  | extension type content => exact ⟨_, rfl, stride_fixed_iff.mpr ⟨rfl, rfl⟩⟩
  | extensionSized digits type content hlength =>
    exact ⟨_, rfl, stride_sized_iff.mpr ⟨digits, type :: content, rfl, rfl, by simp; omega, rfl⟩⟩
  | array count => exact ⟨_, rfl, stride_items_iff.mpr ⟨rfl, rfl⟩⟩
  | arrayCounted digits => exact ⟨_, rfl, stride_counted_iff.mpr ⟨rfl, by omega⟩⟩
  | map count => exact ⟨_, rfl, stride_items_iff.mpr ⟨rfl, rfl⟩⟩
  | mapCounted digits => exact ⟨_, rfl, stride_counted_iff.mpr ⟨rfl, by omega⟩⟩

/-- A marker without bytes of its own announces nothing either. -/
theorem eq_nil_of_stride_fixed (h : Scan.stride 0 own (.fixed 0) = .full own.length items (some [])) :
    own = [] ∧ items = 0 := by
  obtain ⟨hlength, hitems⟩ := stride_fixed_iff.mp h
  exact ⟨List.length_eq_zero_iff.mp hlength, hitems⟩

/-- All that the layout of a marker takes belongs to the marker. -/
theorem own_of_whole {head : Head} {layout : Layout} (hlayout : layout? head = some layout)
    (h : Scan.stride 0 own layout = .full own.length items (some [])) : Own head own items := by
  cases head with
  | reserved => simp [layout?] at hlayout
  | nil =>
    obtain rfl := Option.some.inj hlayout
    obtain ⟨rfl, rfl⟩ := eq_nil_of_stride_fixed h
    exact .nil
  | bool b =>
    obtain rfl := Option.some.inj hlayout
    obtain ⟨rfl, rfl⟩ := eq_nil_of_stride_fixed h
    exact .bool b
  | natural n =>
    obtain rfl := Option.some.inj hlayout
    obtain ⟨rfl, rfl⟩ := eq_nil_of_stride_fixed h
    exact .natural n
  | negative n =>
    obtain rfl := Option.some.inj hlayout
    obtain ⟨rfl, rfl⟩ := eq_nil_of_stride_fixed h
    exact .negative n
  | unsigned width =>
    obtain rfl := Option.some.inj hlayout
    obtain ⟨rfl, rfl⟩ := stride_fixed_iff.mp h
    exact .unsigned own
  | signed width =>
    obtain rfl := Option.some.inj hlayout
    obtain ⟨rfl, rfl⟩ := stride_fixed_iff.mp h
    exact .signed own
  | single =>
    obtain rfl := Option.some.inj hlayout
    obtain ⟨hlength, rfl⟩ := stride_fixed_iff.mp h
    exact .single own hlength
  | double =>
    obtain rfl := Option.some.inj hlayout
    obtain ⟨hlength, rfl⟩ := stride_fixed_iff.mp h
    exact .double own hlength
  | text length =>
    obtain rfl := Option.some.inj hlayout
    obtain ⟨rfl, rfl⟩ := stride_fixed_iff.mp h
    exact .text own
  | textSized width =>
    obtain rfl := Option.some.inj hlayout
    obtain ⟨digits, content, rfl, rfl, hlength, rfl⟩ := stride_sized_iff.mp h
    exact .textSized digits content (by omega)
  | binarySized width =>
    obtain rfl := Option.some.inj hlayout
    obtain ⟨digits, content, rfl, rfl, hlength, rfl⟩ := stride_sized_iff.mp h
    exact .binarySized digits content (by omega)
  | extension length =>
    obtain rfl := Option.some.inj hlayout
    obtain ⟨hlength, rfl⟩ := stride_fixed_iff.mp h
    obtain ⟨type, content, rfl⟩ := List.exists_cons_of_length_eq_add_one hlength
    obtain rfl : content.length = length := by simpa using hlength
    exact .extension type content
  | extensionSized width =>
    obtain rfl := Option.some.inj hlayout
    obtain ⟨digits, content, rfl, rfl, hlength, rfl⟩ := stride_sized_iff.mp h
    rw [Nat.add_comm] at hlength
    obtain ⟨type, content, rfl⟩ := List.exists_cons_of_length_eq_add_one hlength
    exact .extensionSized digits type content (by simpa using hlength)
  | array count =>
    obtain rfl := Option.some.inj hlayout
    obtain ⟨rfl, rfl⟩ := stride_items_iff.mp h
    exact .array items
  | arrayCounted width =>
    obtain rfl := Option.some.inj hlayout
    obtain ⟨rfl, rfl⟩ := stride_counted_iff.mp h
    exact (Nat.mul_one _).symm ▸ .arrayCounted own
  | map count =>
    obtain rfl := Option.some.inj hlayout
    obtain ⟨rfl, rfl⟩ := stride_items_iff.mp h
    exact .map count
  | mapCounted width =>
    obtain rfl := Option.some.inj hlayout
    obtain ⟨rfl, rfl⟩ := stride_counted_iff.mp h
    exact Nat.mul_comm _ _ ▸ .mapCounted own

end Whole

end EditorLink.Wire
