import EditorLink.Number.Literal
import EditorLink.Number.Shortest

/-!
# EditorLink.Proofs.Number.Digits -- decimal digits, written and read

The digits of a natural number read back as the number (`digitsToNat_toDigits`) and never start with a zero that they do not need. A reader
of numbers takes as many digits as there are; what it takes does not change when something follows that no number goes on with (`Stops`).
-/

namespace EditorLink

open Text

/-! ## Digits -/

theorem isDigit_of_mem_toDigits {n : Nat} {c : Char} (h : c ∈ Nat.toDigits 10 n) : isDigit c = true := by
  have hdigit : c.isDigit = true := Nat.isDigit_of_mem_toDigits (by decide) (by decide) h
  simp only [Char.isDigit, Bool.and_eq_true, decide_eq_true_eq] at hdigit
  rw [isDigit, Bool.and_eq_true, decide_eq_true_eq, decide_eq_true_eq]
  exact hdigit

/-- The digits of a number write that number. -/
theorem digitsToNat_toDigits (n : Nat) : digitsToNat (Nat.toDigits 10 n) = n := by
  have hfold : digitsToNat (Nat.toDigits 10 n) = Nat.ofDigitChars 10 (Nat.toDigits 10 n) 0 := by
    rw [digitsToNat, Nat.ofDigitChars_eq_foldl]
    congr 1
    funext sofar c
    rw [Nat.mul_comm]
    rfl
  rw [hfold, Nat.ofDigitChars_ten_toDigits]

theorem digitChar_ne_zero {d : Nat} (hd : d < 10) (hpos : d ≠ 0) : d.digitChar ≠ '0' := by
  have hall : ∀ d < 10, d ≠ 0 → d.digitChar ≠ '0' := by decide
  exact hall d hd hpos

/-- The first digit of a number is zero for zero alone. -/
theorem head?_toDigits {n : Nat} (h : n ≠ 0) : (Nat.toDigits 10 n).head? ≠ some '0' := by
  induction n using Nat.strongRecOn with
  | _ n ih =>
    rw [Nat.toDigits_eq_if (by decide)]
    split
    · next hsmall =>
      intro heq
      exact digitChar_ne_zero hsmall h (Option.some.inj heq)
    · next hlarge =>
      have hrest : (Nat.toDigits 10 (n / 10)).head? ≠ some '0' := ih (n / 10) (by omega) (by omega)
      obtain ⟨c, cs, hcons⟩ := List.exists_cons_of_ne_nil (@Nat.toDigits_ne_nil (n / 10) 10)
      rw [hcons] at hrest ⊢
      exact hrest

/-! ## Runs of digits -/

/-- No number goes on with what stands here. -/
def Stops (rest : List Char) : Prop :=
  ∀ c, rest.head? = some c → isDigit c = false ∧ c ≠ '.' ∧ c ≠ 'e' ∧ c ≠ 'E'

theorem stops_nil : Stops [] := by
  intro c h
  cases h

theorem Stops.head?_ne {rest : List Char} (h : Stops rest) {c : Char} (hc : c = '.' ∨ c = 'e' ∨ c = 'E') :
    rest.head? ≠ some c := by
  intro heq
  obtain ⟨-, hpoint, hlower, hupper⟩ := h c heq
  rcases hc with rfl | rfl | rfl <;> contradiction

/-- A run of digits ends where no number goes on. -/
theorem spanDigits_append {rest : List Char} (h : Stops rest) (cs : List Char) :
    spanDigits (cs ++ rest) = ((spanDigits cs).1, (spanDigits cs).2 ++ rest) := by
  induction cs with
  | nil =>
    cases rest with
    | nil => rfl
    | cons c rest =>
      have hc : isDigit c = false := (h c rfl).1
      simp [spanDigits, hc]
  | cons c cs ih =>
    simp only [spanDigits, Prod.mk.injEq] at ih ⊢
    cases hc : isDigit c with
    | true => simpa [hc] using ih
    | false => simp [hc]

theorem spanDigits_digits {digits : List Char} (h : ∀ c ∈ digits, isDigit c = true) : spanDigits digits = (digits, []) := by
  have htake : (digits ++ []).takeWhile isDigit = digits ++ [] := List.takeWhile_append_of_pos h
  have hdrop : (digits ++ []).dropWhile isDigit = [] := List.dropWhile_append_of_pos h
  rw [List.append_nil] at htake hdrop
  rw [spanDigits, htake, hdrop]

/-! ## Fractions and exponents -/

theorem readFraction_append {rest : List Char} (h : Stops rest) (cs : List Char) :
    Literal.readFraction (cs ++ rest) = ((Literal.readFraction cs).1, (Literal.readFraction cs).2 ++ rest) := by
  have hplain : ∀ cs : List Char, cs.head? ≠ some '.' → Literal.readFraction cs = ([], cs) := by
    intro cs hcs
    rw [Literal.readFraction.eq_def]
    split
    · exact absurd rfl hcs
    · rfl
  cases cs with
  | nil =>
    rw [List.nil_append, hplain rest (h.head?_ne (.inl rfl))]
    rfl
  | cons c cs =>
    by_cases hc : c = '.'
    · subst hc
      exact spanDigits_append h cs
    · have hne : ∀ more, (c :: more).head? ≠ some '.' := by
        intro more heq
        exact hc (Option.some.inj heq)
      rw [List.cons_append, hplain _ (hne _), hplain _ (hne _)]
      rfl

theorem splitSign_append {cs : List Char} (h : cs ≠ []) (rest : List Char) :
    Literal.splitSign (cs ++ rest) = ((Literal.splitSign cs).1, (Literal.splitSign cs).2 ++ rest) := by
  obtain ⟨c, cs, rfl⟩ := List.exists_cons_of_ne_nil h
  rw [List.cons_append, Literal.splitSign.eq_def, Literal.splitSign.eq_def (c :: cs)]
  split <;> simp_all

theorem readExponent?_append {rest cs more : List Char} {exponent : Int} (h : Stops rest)
    (hread : Literal.readExponent? cs = some (exponent, more)) :
    Literal.readExponent? (cs ++ rest) = some (exponent, more ++ rest) := by
  cases cs with
  | nil =>
    obtain ⟨rfl, rfl⟩ : 0 = exponent ∧ [] = more := by simpa [Literal.readExponent?] using hread
    rw [List.nil_append]
    cases rest with
    | nil => rfl
    | cons c rest =>
      obtain ⟨-, -, hlower, hupper⟩ := h c rfl
      rw [Literal.readExponent?, if_neg (not_or.mpr ⟨hlower, hupper⟩)]
  | cons c cs =>
    rw [Literal.readExponent?] at hread
    rw [List.cons_append, Literal.readExponent?]
    split at hread
    · next hexponent =>
      rw [if_pos hexponent]
      -- an exponent without digits would have been refused
      have hcs : cs ≠ [] := by
        rintro rfl
        simp [Literal.splitSign, spanDigits] at hread
      rw [splitSign_append hcs]
      simp only [spanDigits_append h] at hread ⊢
      split at hread
      · cases hread
      · next hdigits =>
        rw [if_neg hdigits]
        cases hread
        rfl
    · next hplain =>
      rw [if_neg hplain]
      cases hread
      rfl

theorem atExponent_append {rest : List Char} (h : Stops rest) (cs : List Char) :
    Literal.atExponent (cs ++ rest) = Literal.atExponent cs := by
  cases cs with
  | nil =>
    have hlower := h.head?_ne (.inr (.inl rfl))
    have hupper := h.head?_ne (.inr (.inr rfl))
    simp [Literal.atExponent, hlower, hupper]
  | cons c cs => rfl

/-! ## Characters of numbers -/

/-- The characters that the text of a number is made of. -/
def IsNumeric (c : Char) : Prop :=
  isDigit c = true ∨ c ∈ ['-', '+', '.', 'e']

instance (c : Char) : Decidable (IsNumeric c) :=
  inferInstanceAs (Decidable (_ ∨ _))

theorem isNumeric_toDigits {n : Nat} {c : Char} (h : c ∈ Nat.toDigits 10 n) : IsNumeric c :=
  .inl (isDigit_of_mem_toDigits h)

theorem isNumeric_replicate {n : Nat} {c : Char} (h : c ∈ List.replicate n '0') : IsNumeric c := by
  obtain ⟨-, rfl⟩ := List.mem_replicate.mp h
  exact .inl rfl

namespace Double

theorem isNumeric_positional {digits : List Char} (hdigits : ∀ c ∈ digits, IsNumeric c) (first : Int) :
    ∀ c ∈ positional digits first, IsNumeric c := by
  intro c hc
  rw [positional] at hc
  split at hc
  · replace hc : c ∈ ['0', '.'] ++ List.replicate (-first - 1).toNat '0' ++ digits := hc
    simp only [List.mem_append, List.mem_cons, List.not_mem_nil, or_false] at hc
    rcases hc with ((rfl | rfl) | hc) | hc
    · exact .inl rfl
    · exact .inr (by decide)
    · exact isNumeric_replicate hc
    · exact hdigits c hc
  · simp only at hc
    split at hc
    · replace hc : c ∈ digits ++ List.replicate (first.toNat + 1 - digits.length) '0' ++ ['.', '0'] := hc
      simp only [List.mem_append, List.mem_cons, List.not_mem_nil, or_false] at hc
      rcases hc with (hc | hc) | rfl | rfl
      · exact hdigits c hc
      · exact isNumeric_replicate hc
      · exact .inr (by decide)
      · exact .inl rfl
    · rcases List.mem_append.mp hc with hc | hc
      · exact hdigits c (List.mem_of_mem_take hc)
      · rcases List.mem_cons.mp hc with rfl | hc
        · exact .inr (by decide)
        · exact hdigits c (List.mem_of_mem_drop hc)

theorem isNumeric_scientific {digits : List Char} (hdigits : ∀ c ∈ digits, IsNumeric c) (first : Int) :
    ∀ c ∈ scientific digits first, IsNumeric c := by
  intro c hc
  rw [scientific.eq_def] at hc
  simp only [List.mem_append, List.mem_cons, List.not_mem_nil, or_false] at hc
  rcases hc with (hc | rfl | rfl) | hc
  · split at hc
    · next d e rest =>
      rcases List.mem_cons.mp hc with rfl | hc
      · exact hdigits _ (by simp)
      · rcases List.mem_cons.mp hc with rfl | hc
        · exact .inr (by decide)
        · exact hdigits c (List.mem_cons_of_mem _ hc)
    · exact hdigits c hc
  · exact .inr (by decide)
  · split
    · exact .inr (by decide)
    · exact .inr (by decide)
  · exact isNumeric_toDigits hc

/-- The text of a float is made of characters of numbers. -/
theorem isNumeric_chars (x : Double) : ∀ c ∈ x.chars, IsNumeric c := by
  have hsign : ∀ c ∈ (if x.isNegative then ['-'] else []), IsNumeric c := by
    intro c hc
    split at hc
    · obtain rfl := List.mem_singleton.mp hc
      exact .inr (by decide)
    · cases hc
  have hdigits : ∀ c ∈ trimZeros (Nat.toDigits 10 x.shortest.digits), IsNumeric c := by
    intro c hc
    rw [trimZeros, List.mem_reverse] at hc
    have hmem := (List.dropWhile_sublist _).subset hc
    exact isNumeric_toDigits (List.mem_reverse.mp hmem)
  intro c hc
  rw [chars] at hc
  split at hc
  · rcases List.mem_append.mp hc with hc | hc
    · exact hsign c hc
    · simp only [List.mem_cons, List.not_mem_nil, or_false] at hc
      rcases hc with rfl | rfl | rfl
      · exact .inl rfl
      · exact .inr (by decide)
      · exact .inl rfl
  · rcases List.mem_append.mp hc with hc | hc
    · exact hsign c hc
    · split at hc
      · exact isNumeric_positional hdigits _ c hc
      · exact isNumeric_scientific hdigits _ c hc

end Double
end EditorLink
