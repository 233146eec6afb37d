import EditorLink.Proofs.Number.Digits
import EditorLink.Registry.Setting

/-!
# EditorLink.Proofs.Registry.LeadingInteger -- what a setting of integers makes of a text

A text is cut into four parts: all the blanks at its front, a sign if there is one, all the digits after that, and the rest (`Parts`). A
setting of integers reads the sign and the digits and nothing else (`leadingInt?_of_parts`), so an integer is the same setting whether
the host stores it as a number or as its decimal text, with blanks before it and a unit behind it.
-/

namespace EditorLink.Registry.Setting

open Text

/-! ## Integers of sixty-four bits -/

/-- Sixty-four bits with sign hold the integer. -/
def Fits (i : Int) : Prop :=
  -0x8000_0000_0000_0000 ≤ i ∧ i < 0x8000_0000_0000_0000

instance (i : Int) : Decidable (Fits i) :=
  inferInstanceAs (Decidable (_ ∧ _))

/-- **The values that hold an integer of sixty-four bits** are those made of one. -/
theorem integer?_eq_some_iff {v : Value} {i : Int} : v.integer? = some i ↔ Fits i ∧ v = .ofInt i := by
  constructor
  · intro h
    cases v with
    | number n =>
      cases n with
      | natural u =>
        have hu := u.toNat_lt
        simp only [Value.integer?, Number.int?, Option.filter_some, decide_eq_true_eq] at h
        split at h
        · obtain rfl := Option.some.inj h
          refine ⟨⟨by omega, by omega⟩, ?_⟩
          rw [Value.ofInt, Number.ofInt?, if_pos (by omega), if_pos (by omega)]
          simp
        · cases h
      | negative k =>
        simp only [Value.integer?, Number.int?, Option.filter_some, decide_eq_true_eq] at h
        split at h
        · obtain rfl := Option.some.inj h
          have hk := k.isLt
          refine ⟨⟨by omega, by omega⟩, ?_⟩
          rw [Value.ofInt, Number.ofInt?, if_neg (by omega), dif_pos (by omega)]
          have hback : (-(-(k.val : Int) - 1) - 1).toNat = k.val := by omega
          simp only [hback]
        · cases h
      | float x => cases h
    | _ => cases h
  · rintro ⟨⟨hlow, hhigh⟩, rfl⟩
    rw [Value.ofInt, Number.ofInt?]
    by_cases hsign : 0 ≤ i
    · rw [if_pos hsign, if_pos (by omega)]
      simp [Value.integer?, Number.int?, Option.filter_some]
      omega
    · rw [if_neg hsign, dif_pos (by omega)]
      simp [Value.integer?, Number.int?, Option.filter_some]
      omega

theorem int?_ofInt {i : Int} (h : Fits i) : int? (.ofInt i) = some i := by
  have hinteger : (Value.ofInt i).integer? = some i := integer?_eq_some_iff.mpr ⟨h, rfl⟩
  cases hvalue : Value.ofInt i with
  | number n =>
    rw [hvalue] at hinteger
    rw [int?, intOfNumber, hinteger]
  | _ =>
    rw [hvalue] at hinteger
    cases hinteger

/-! ## Parts of a text -/

/-- The text in its four parts, each but the last as long as it can be. -/
structure Parts (text blanks sign digits rest : List Char) : Prop where
  whole : text = blanks ++ (sign ++ (digits ++ rest))
  blank : ∀ c ∈ blanks, isBlank c = true
  noMoreBlanks : ∀ c, (sign ++ (digits ++ rest)).head? = some c → isBlank c = false
  sign : sign = ['-'] ∨ sign = ['+'] ∨ sign = [] ∧ ∀ c, (digits ++ rest).head? = some c → c ≠ '-' ∧ c ≠ '+'
  digit : ∀ c ∈ digits, isDigit c = true
  noMoreDigits : ∀ c, rest.head? = some c → isDigit c = false

/-- The integer that a sign and digits write. -/
def signed (sign digits : List Char) : Int :=
  if sign = ['-'] then -(digitsToNat digits : Int) else digitsToNat digits

/-- A run of characters of one kind ends where a character of another kind stands. -/
theorem run_exact {p : Char → Bool} {run rest : List Char} (inside : ∀ c ∈ run, p c = true)
    (boundary : ∀ c, rest.head? = some c → p c = false) : (run ++ rest).takeWhile p = run ∧ (run ++ rest).dropWhile p = rest := by
  rw [List.takeWhile_append_of_pos inside, List.dropWhile_append_of_pos inside]
  cases rest with
  | nil => simp
  | cons c rest => simp [boundary c rfl]

/-- What stands behind the longest run of one kind is of another kind. -/
theorem head?_dropWhile {p : Char → Bool} {cs : List Char} {c : Char} (h : (cs.dropWhile p).head? = some c) : p c = false := by
  simpa [h] using List.head?_dropWhile_not p cs

theorem exists_parts (text : List Char) : ∃ blanks sign digits rest, Parts text blanks sign digits rest := by
  -- the sign is what is left to be found between the blanks and the digits
  have hsign : ∃ sign unsigned, text.dropWhile isBlank = sign ++ unsigned ∧
      (sign = ['-'] ∨ sign = ['+'] ∨ sign = [] ∧ ∀ c, unsigned.head? = some c → c ≠ '-' ∧ c ≠ '+') := by
    cases hafter : text.dropWhile isBlank with
    | nil => exact ⟨[], [], rfl, Or.inr (Or.inr ⟨rfl, nofun⟩)⟩
    | cons c cs =>
      by_cases hminus : c = '-'
      · exact ⟨['-'], cs, by rw [hminus]; rfl, Or.inl rfl⟩
      by_cases hplus : c = '+'
      · exact ⟨['+'], cs, by rw [hplus]; rfl, Or.inr (Or.inl rfl)⟩
      refine ⟨[], c :: cs, rfl, Or.inr (Or.inr ⟨rfl, ?_⟩)⟩
      rintro _ ⟨⟩
      exact ⟨hminus, hplus⟩
  obtain ⟨sign, unsigned, hafter, hsign⟩ := hsign
  have hdigits : unsigned.takeWhile isDigit ++ unsigned.dropWhile isDigit = unsigned := List.takeWhile_append_dropWhile
  refine ⟨text.takeWhile isBlank, sign, unsigned.takeWhile isDigit, unsigned.dropWhile isDigit, ?_, ?_, ?_, ?_, ?_, ?_⟩
  · rw [hdigits, ← hafter, List.takeWhile_append_dropWhile]
  · intro c hc
    exact List.all_eq_true.mp List.all_takeWhile c hc
  · intro c hc
    rw [hdigits, ← hafter] at hc
    exact head?_dropWhile hc
  · rw [hdigits]
    exact hsign
  · intro c hc
    exact List.all_eq_true.mp List.all_takeWhile c hc
  · intro c hc
    exact head?_dropWhile hc

theorem Parts.splitSign {text blanks sign digits rest : List Char} (h : Parts text blanks sign digits rest) :
    Literal.splitSign (sign ++ (digits ++ rest)) = (decide (sign = ['-']), digits ++ rest) := by
  rcases h.sign with rfl | rfl | ⟨rfl, hnone⟩
  · rfl
  · rfl
  · rw [List.nil_append, Literal.splitSign.eq_def]
    split
    · next hminus => exact absurd rfl (hnone '-' (hminus ▸ rfl)).1
    · next hplus => exact absurd rfl (hnone '+' (hplus ▸ rfl)).2
    · rfl

/-- **A setting of integers reads the sign and the digits of a text.** -/
theorem leadingInt?_of_parts {text : String} {blanks sign digits rest : List Char} (h : Parts text.toList blanks sign digits rest) :
    leadingInt? text = if digits ≠ [] ∧ Fits (signed sign digits) then some (signed sign digits) else none := by
  have htrim : trimStart text.toList = sign ++ (digits ++ rest) := by
    rw [trimStart, h.whole]
    exact (run_exact h.blank h.noMoreBlanks).2
  have hdigits : (digits ++ rest).takeWhile isDigit = digits := (run_exact h.digit h.noMoreDigits).1
  have hleading : leadingDigits (trimStart text.toList) = (decide (sign = ['-']), digits) := by
    rw [htrim, leadingDigits, h.splitSign]
    simp only [hdigits]
  have hsigned : (if decide (sign = ['-']) = true then -(digitsToNat digits : Int) else digitsToNat digits) = signed sign digits := by
    rw [signed]
    simp only [decide_eq_true_eq]
  rw [leadingInt?, hleading]
  simp only [hsigned]
  by_cases hempty : digits = []
  · rw [hempty]
    rfl
  · rw [if_neg (by simpa using hempty)]
    simp only [ne_eq, hempty, not_false_eq_true, true_and]
    rfl

/-! ## Decimal texts -/

/-- No digit is blank. -/
theorem isBlank_of_isDigit {c : Char} (h : isDigit c = true) : isBlank c = false := by
  simp only [isDigit, Bool.and_eq_true, decide_eq_true_eq, Char.le_def, UInt32.le_iff_toNat_le] at h
  obtain ⟨hlow, hhigh⟩ : 48 ≤ c.toNat ∧ c.toNat ≤ 57 := h
  simp only [isBlank, blankCodes, List.contains_eq_mem, decide_eq_false_iff_not, List.mem_cons, List.not_mem_nil, or_false]
  omega

/-- The decimal text of an integer: a minus in front of it if it is negative, and digits. -/
theorem toList_toString (i : Int) : (toString i).toList = (if i < 0 then ['-'] else []) ++ Nat.toDigits 10 i.natAbs := by
  rw [Int.toString_eq_repr, Int.repr_eq_if]
  by_cases hsign : 0 ≤ i
  · have habs : i.toNat = i.natAbs := by omega
    rw [if_pos hsign, if_neg (by omega), Nat.toList_repr, habs, List.nil_append]
  · have habs : (-i).toNat = i.natAbs := by omega
    rw [if_neg hsign, if_pos (by omega), String.toList_append, Nat.toList_repr, habs]
    rfl

/-- The decimal text of an integer, between blanks and something that is no digit, is read as this integer. -/
theorem leadingInt?_toString {i : Int} (h : Fits i) {blanks suffix : String} (hblanks : ∀ c ∈ blanks.toList, isBlank c = true)
    (hsuffix : ∀ c, suffix.toList.head? = some c → isDigit c = false) : leadingInt? (blanks ++ toString i ++ suffix) = some i := by
  have hdigits : ∀ c ∈ Nat.toDigits 10 i.natAbs, isDigit c = true := fun c => isDigit_of_mem_toDigits
  have hsome : Nat.toDigits 10 i.natAbs ≠ [] := Nat.toDigits_ne_nil
  obtain ⟨first, more, hfirst⟩ := List.exists_cons_of_ne_nil hsome
  have hdigit : isDigit first = true := hdigits first (hfirst ▸ List.mem_cons_self)
  have hsigned : signed (if i < 0 then ['-'] else []) (Nat.toDigits 10 i.natAbs) = i := by
    rw [signed, digitsToNat_toDigits]
    by_cases hsign : i < 0
    · rw [if_pos hsign, if_pos rfl]
      omega
    · rw [if_neg hsign, if_neg (by simp)]
      omega
  have hparts : Parts (blanks ++ toString i ++ suffix).toList blanks.toList (if i < 0 then ['-'] else []) (Nat.toDigits 10 i.natAbs)
      suffix.toList := by
    refine ⟨?_, hblanks, ?_, ?_, hdigits, hsuffix⟩
    · rw [String.toList_append, String.toList_append, toList_toString]
      simp only [List.append_assoc]
    · intro c hc
      split at hc
      · obtain rfl : '-' = c := Option.some.inj hc
        rfl
      · rw [hfirst] at hc
        obtain rfl : first = c := Option.some.inj hc
        exact isBlank_of_isDigit hdigit
    · split
      · exact Or.inl rfl
      · refine Or.inr (Or.inr ⟨rfl, fun c hc => ?_⟩)
        rw [hfirst] at hc
        obtain rfl : first = c := Option.some.inj hc
        constructor
        · rintro rfl
          cases hdigit
        · rintro rfl
          cases hdigit
  rw [leadingInt?_of_parts hparts, hsigned, if_pos ⟨hsome, h⟩]

/-! ## Settings of integers -/

/-- **A setting of integers reads the leading integer.** Every text is cut into blanks, a sign, digits and a rest. The setting reads as the
integer that sign and digits write, if there are digits and sixty-four bits hold the integer, and as its default otherwise, which is zero
if none is declared. So every integer of sixty-four bits is read from its number, from its decimal text, and from that text behind any
blanks and before anything that does not start with a digit; and what was read as such an integer is read as the same again. -/
theorem int_settings_read_the_leading_integer (default? : Option Value) :
    let s : Setting := ⟨.int, default?⟩
    (∀ text : String, ∃ blanks sign digits rest, Parts text.toList blanks sign digits rest) ∧
    (∀ (text : String) blanks sign digits rest, Parts text.toList blanks sign digits rest →
      s.coerce (some (.string text)) =
        if digits ≠ [] ∧ Fits (signed sign digits) then .ofInt (signed sign digits) else default?.getD (.ofInt 0)) ∧
    (∀ i, Fits i → (Value.ofInt i).integer? = some i ∧
      s.coerce (some (.ofInt i)) = .ofInt i ∧ s.coerce (some (.string (toString i))) = .ofInt i ∧
      ∀ blanks suffix : String, (∀ c ∈ blanks.toList, isBlank c = true) → (∀ c, suffix.toList.head? = some c → isDigit c = false) →
        s.coerce (some (.string (blanks ++ toString i ++ suffix))) = .ofInt i) ∧
    ∀ raw i, (s.coerce raw).integer? = some i → s.coerce (some (s.coerce raw)) = s.coerce raw := by
  intro s
  have hread : ∀ {v : Value} {i : Int}, v ≠ .null → int? v = some i → s.coerce (some v) = .ofInt i := by
    intro v i hv hi
    have hcoerce : s.coerce (some v) = ((int? v).map Value.ofInt).getD s.fallback := by
      cases v with
      | null => exact absurd rfl hv
      | _ => rfl
    rw [hcoerce, hi]
    rfl
  have hnumber : ∀ {i : Int}, Fits i → s.coerce (some (.ofInt i)) = .ofInt i := by
    intro i hi
    refine hread (fun hnull => ?_) (int?_ofInt hi)
    have hinteger : (Value.ofInt i).integer? = some i := integer?_eq_some_iff.mpr ⟨hi, rfl⟩
    rw [hnull] at hinteger
    cases hinteger
  have htext : ∀ {i : Int} (blanks suffix : String), Fits i → (∀ c ∈ blanks.toList, isBlank c = true) →
      (∀ c, suffix.toList.head? = some c → isDigit c = false) →
      s.coerce (some (.string (blanks ++ toString i ++ suffix))) = .ofInt i :=
    fun blanks suffix hi hblanks hsuffix => hread nofun (leadingInt?_toString hi hblanks hsuffix)
  refine ⟨fun text => exists_parts text.toList, fun text blanks sign digits rest h => ?_, fun i hi => ⟨?_, hnumber hi, ?_, ?_⟩, ?_⟩
  · show ((leadingInt? text).map Value.ofInt).getD (default?.getD (.nat 0)) = _
    rw [leadingInt?_of_parts h]
    split <;> rfl
  · exact integer?_eq_some_iff.mpr ⟨hi, rfl⟩
  · simpa using htext "" "" hi (by simp) (by simp)
  · exact fun blanks suffix => htext blanks suffix hi
  · intro raw i hresult
    obtain ⟨hi, hvalue⟩ := integer?_eq_some_iff.mp hresult
    rw [hvalue]
    exact hnumber hi

/-- A size with its unit behind a blank that is not of ASCII, one that is too large by one, a word, and the least integer there is. -/
theorem sizes_with_units_are_read :
    let s : Setting := ⟨.int, some (.ofInt 12)⟩
    s.coerce (some (.string "\u00a0-14px")) = .ofInt (-14) ∧ s.coerce (some (.string "9223372036854775808")) = .ofInt 12 ∧
      s.coerce (some (.string "+large")) = .ofInt 12 ∧
      s.coerce (some (.string ("\t" ++ toString (-9223372036854775808 : Int) ++ "em"))) = .ofInt (-9223372036854775808) ∧
      s.coerce (some (s.coerce (some (.string "\u00a0-14px")))) = .ofInt (-14) := by
  intro s
  obtain ⟨-, hparts, hintegers, hagain⟩ := int_settings_read_the_leading_integer (some (.ofInt 12))
  have hnegative : s.coerce (some (.string "\u00a0-14px")) = .ofInt (-14) :=
    hparts _ ['\u00a0'] ['-'] ['1', '4'] ['p', 'x'] {
      whole := rfl
      blank := List.all_eq_true.mp rfl
      noMoreBlanks := fun _ h => Option.some.inj h ▸ rfl
      sign := Or.inl rfl
      digit := List.all_eq_true.mp rfl
      noMoreDigits := fun _ h => Option.some.inj h ▸ rfl }
  have hlarge : s.coerce (some (.string "9223372036854775808")) = .ofInt 12 :=
    hparts _ [] [] "9223372036854775808".toList [] {
      whole := rfl
      blank := nofun
      noMoreBlanks := fun _ h => Option.some.inj h ▸ rfl
      sign := Or.inr (Or.inr ⟨rfl, fun _ h => Option.some.inj h ▸ ⟨by decide, by decide⟩⟩)
      digit := List.all_eq_true.mp rfl
      noMoreDigits := nofun }
  have hword : s.coerce (some (.string "+large")) = .ofInt 12 :=
    hparts _ [] ['+'] [] "large".toList {
      whole := rfl
      blank := nofun
      noMoreBlanks := fun _ h => Option.some.inj h ▸ rfl
      sign := Or.inr (Or.inl rfl)
      digit := nofun
      noMoreDigits := fun _ h => Option.some.inj h ▸ rfl }
  refine ⟨hnegative, hlarge, hword, ?_, ?_⟩
  · exact (hintegers (-9223372036854775808) (by decide)).2.2.2 "\t" "em" (List.all_eq_true.mp rfl) fun _ h => Option.some.inj h ▸ rfl
  · exact (hagain (some (.string "\u00a0-14px")) (-14) (hnegative ▸ rfl)).trans hnegative

end EditorLink.Registry.Setting
