import Mathlib.Algebra.Group.Nat.Defs
import EditorLink.Text.Bytes

/-!
# EditorLink.Proofs.Text.Bytes -- bytes that are read as they were written

Reading some bytes off the front depends on their number alone. A number that was written in so many digits, and a text that was
written in UTF-8, read back as they were; and a newline is in the bytes of a text exactly if it is in the text, because every byte
of a longer character is above all of ASCII. So a newline after some bytes makes them neither more nor less of a text.
-/

namespace EditorLink.Bytes

/-! ## Reading off the front -/

/-- A cut somewhere in `front ++ rest` falls inside `front`, or at its end or behind it. -/
theorem cut_cases {before after front rest : Bytes} (h : before ++ after = front ++ rest) :
    (∃ missing, missing ≠ [] ∧ before ++ missing = front ∧ after = missing ++ rest) ∨
      ∃ more, before = front ++ more ∧ more ++ after = rest := by
  rcases List.append_eq_append_iff.mp h with ⟨missing, hfront, hafter⟩ | ⟨more, hbefore, hrest⟩
  · by_cases hmissing : missing = []
    · subst hmissing
      exact Or.inr ⟨[], by simpa using hfront.symm, by simpa using hafter⟩
    · exact Or.inl ⟨missing, hmissing, hfront.symm, hafter⟩
  · exact Or.inr ⟨more, hbefore, hrest.symm⟩

theorem dropExactly?_eq_none_iff {n : Nat} {bytes : Bytes} : dropExactly? n bytes = none ↔ bytes.length < n := by
  simp [dropExactly?_eq]

theorem dropExactly?_eq_some_iff {n : Nat} {bytes rest : Bytes} :
    dropExactly? n bytes = some rest ↔ ∃ front, bytes = front ++ rest ∧ front.length = n := by
  constructor
  · intro h
    have hlength := length_of_dropExactly? h
    have hdrop : bytes.drop n = rest := by simpa [dropExactly?_eq, show n ≤ bytes.length by omega] using h
    exact ⟨bytes.take n, by simp [← hdrop], by simp; omega⟩
  · rintro ⟨front, rfl, rfl⟩
    simp [dropExactly?_eq]

@[simp] theorem dropExactly?_length_append (front rest : Bytes) :
    dropExactly? front.length (front ++ rest) = some rest :=
  dropExactly?_eq_some_iff.mpr ⟨front, rfl, rfl⟩

theorem dropExactly?_add (front rest : Bytes) (n : Nat) :
    dropExactly? (front.length + n) (front ++ rest) = dropExactly? n rest := by
  simp [dropExactly?_eq]

@[simp] theorem splitExactly?_length_append (front rest : Bytes) :
    splitExactly? front.length (front ++ rest) = some (front, rest) := by
  simp [splitExactly?]

theorem readNat?_eq_none_iff {width : Nat} {bytes : Bytes} : readNat? width bytes = none ↔ bytes.length < width := by
  simp [readNat?, splitExactly?, dropExactly?_eq_none_iff]

theorem readNat?_eq_some_iff {width n : Nat} {bytes rest : Bytes} :
    readNat? width bytes = some (n, rest) ↔ ∃ digits, bytes = digits ++ rest ∧ digits.length = width ∧ toNat digits = n := by
  constructor
  · intro h
    simp only [readNat?, splitExactly?, Option.map_map, Option.map_eq_some_iff, Function.comp, Prod.mk.injEq] at h
    obtain ⟨_, hdrop, rfl, rfl⟩ := h
    obtain ⟨front, rfl, rfl⟩ := dropExactly?_eq_some_iff.mp hdrop
    exact ⟨front, rfl, rfl, by simp⟩
  · rintro ⟨digits, rfl, rfl, rfl⟩
    simp [readNat?]

@[simp] theorem readNat?_length_append (digits rest : Bytes) :
    readNat? digits.length (digits ++ rest) = some (toNat digits, rest) :=
  readNat?_eq_some_iff.mpr ⟨digits, rfl, rfl, rfl⟩

@[simp] theorem readNat?_length (digits : Bytes) : readNat? digits.length digits = some (toNat digits, []) :=
  readNat?_eq_some_iff.mpr ⟨digits, by simp, rfl, rfl⟩

/-! ## Numbers -/

@[simp] theorem length_ofNat (width n : Nat) : (ofNat width n).length = width := by
  induction width generalizing n with
  | zero => rfl
  | succ width ih => simp [ofNat, ih]

theorem toNat_concat (bytes : Bytes) (b : UInt8) : toNat (bytes ++ [b]) = toNat bytes * 256 + b.toNat := by
  simp [toNat]

/-- So many digits carry every number below that power of their base. -/
theorem toNat_ofNat {width n : Nat} (h : n < 256 ^ width) : toNat (ofNat width n) = n := by
  induction width generalizing n with
  | zero => simp [ofNat, toNat]; omega
  | succ width ih =>
    have hhigh : n / 256 < 256 ^ width := Nat.div_lt_of_lt_mul (by rwa [Nat.mul_comm, ← Nat.pow_succ])
    rw [ofNat, toNat_concat, ih hhigh]
    simp
    omega

theorem readNat?_ofNat {width n : Nat} (h : n < 256 ^ width) (rest : Bytes) :
    readNat? width (ofNat width n ++ rest) = some (n, rest) :=
  readNat?_eq_some_iff.mpr ⟨_, rfl, length_ofNat .., toNat_ofNat h⟩

/-! ## Texts -/

theorem toList_loop (bytes : ByteArray) (i : Nat) (taken : List UInt8) :
    ByteArray.toList.loop bytes i taken = taken.reverse ++ bytes.data.toList.drop i := by
  fun_induction ByteArray.toList.loop bytes i taken with
  | case1 i taken hi ih =>
    have hsize : i < bytes.data.toList.length := by simpa using hi
    rw [ih, List.drop_eq_getElem_cons hsize]
    simp [ByteArray.get!, hi]
  | case2 i taken hi =>
    have hsize : bytes.data.toList.length ≤ i := by simpa using hi
    simp [List.drop_eq_nil_of_le hsize]

theorem toList_eq (bytes : ByteArray) : bytes.toList = bytes.data.toList := by
  rw [ByteArray.toList, toList_loop]
  simp

/-- The bytes of a text are those of its characters, one after another. -/
theorem ofText_eq (s : String) : ofText s = s.toList.flatMap String.utf8EncodeChar := by
  rw [ofText, toList_eq, ← String.utf8Encode_toList, List.utf8Encode, List.toList_data_toByteArray]

@[simp] theorem length_ofText (s : String) : (ofText s).length = s.utf8ByteSize := by
  rw [ofText, toList_eq]
  simp

/-- A text reads back from its bytes. -/
@[simp] theorem text?_ofText (s : String) : text? (ofText s) = some s := by
  have hbytes : (ofText s).toByteArray = s.toByteArray := by
    rw [ofText_eq, ← List.utf8Encode, String.utf8Encode_toList]
  rw [text?, hbytes, String.fromUTF8?, dif_pos s.isValidUTF8]
  rfl

theorem newline_eq_ofNat_iff (n : Nat) : 0x0a = UInt8.ofNat n ↔ n % 256 = 0x0a := by
  rw [← UInt8.toNat_inj]
  simp
  omega

/-- The byte of a newline is that character and no part of another one. -/
theorem newline_mem_utf8EncodeChar {c : Char} : 0x0a ∈ String.utf8EncodeChar c ↔ c = '\n' := by
  have hcode : c = '\n' ↔ c.val.toNat = 0x0a := by
    rw [← Char.toNat_inj]
    rfl
  rw [hcode, String.utf8EncodeChar]
  -- one byte to four, by the size of the code point
  generalize c.val.toNat = code
  repeat' split
  all_goals
    simp only [List.mem_cons, List.not_mem_nil, or_false, newline_eq_ofNat_iff]
    omega

theorem newline_mem_ofText {s : String} : 0x0a ∈ ofText s ↔ '\n' ∈ s.toList := by
  simp [ofText_eq, newline_mem_utf8EncodeChar]

end EditorLink.Bytes
