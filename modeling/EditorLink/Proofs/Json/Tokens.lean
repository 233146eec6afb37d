import Mathlib.Algebra.Group.Nat.Defs
import EditorLink.Json.Printer
import EditorLink.Json.Reader
import EditorLink.Proofs.Number.Digits

/-!
# EditorLink.Proofs.Json.Tokens -- strings and numbers in JSON text

A character between quotes reads back whether it stands there itself, as a named escape or by its code (`readCharacter_escape`), and so does
a whole string (`readCharacters_quoted`). A number reads back whatever follows it, if no number goes on there: integers because their digits
do, and a float if its text does so alone (`Double.ReadsBack`).
-/

namespace EditorLink

open Text

/-- The text of a float, read as a whole, is that float again. -/
def Double.ReadsBack (x : Double) : Prop :=
  Json.readNumber x.chars = some (.float x, [])

namespace Json

/-! ## Strings -/

theorem hexValue?_hexDigit {d : Nat} (h : d < 16) : hexValue? (hexDigit d) = some d := by
  have hall : ∀ d < 16, hexValue? (hexDigit d) = some d := by decide
  exact hall d h

/-- Two digits after two zeros are a code below 256. -/
theorem readHex?_code {code : Nat} (h : code < 256) (rest : List Char) :
    readHex? 4 ('0' :: '0' :: hexDigit (code / 16) :: hexDigit (code % 16) :: rest) = some (code, rest) := by
  have hzero : hexValue? '0' = some 0 := by decide
  have hhigh := hexValue?_hexDigit (show code / 16 < 16 by omega)
  have hlow := hexValue?_hexDigit (show code % 16 < 16 by omega)
  simp only [readHex?, readHexAfter, hzero, hhigh, hlow]
  congr 2
  omega

/-- A character between quotes reads back, and does not start like the closing quote. -/
theorem readCharacter_escape (c : Char) (rest : List Char) :
    readCharacter (escape c ++ rest) = some (c, rest) ∧ (escape c ++ rest).head? ≠ some '"' := by
  have hcode : ∀ n, c.toNat = n → c = Char.ofNat n := by
    rintro _ rfl
    exact (Char.ofNat_toNat c).symm
  rw [escape]
  split
  · next hquote =>
    subst hquote
    exact ⟨rfl, by simp⟩
  split
  · next hslash =>
    subst hslash
    exact ⟨rfl, by simp⟩
  split
  · next hquote hslash hprinted =>
    refine ⟨?_, fun heq => hquote (Option.some.inj heq)⟩
    show readCharacter (c :: rest) = _
    rw [readCharacter.eq_def]
    split
    · next heq => cases heq
    · next heq =>
      cases heq
      exact absurd rfl hslash
    · next heq =>
      cases heq
      exact absurd rfl hslash
    · next heq =>
      cases heq
      rw [if_neg (not_or.mpr ⟨by omega, hslash⟩)]
  -- five control characters have a name
  split
  · next h => exact hcode _ h ▸ ⟨rfl, by simp⟩
  split
  · next h => exact hcode _ h ▸ ⟨rfl, by simp⟩
  split
  · next h => exact hcode _ h ▸ ⟨rfl, by simp⟩
  split
  · next h => exact hcode _ h ▸ ⟨rfl, by simp⟩
  split
  · next h => exact hcode _ h ▸ ⟨rfl, by simp⟩
  · refine ⟨?_, by simp⟩
    show readUnicode ('0' :: '0' :: hexDigit (c.toNat / 16) :: hexDigit (c.toNat % 16) :: rest) = _
    have hhigh : isHighUnit c.toNat = false := by
      simp [isHighUnit]
      omega
    have hlow : isLowUnit c.toNat = false := by
      simp [isLowUnit]
      omega
    rw [readUnicode, readHex?_code (by omega)]
    simp [hhigh, hlow]

/-- The characters of a string read back up to the closing quote. -/
theorem readCharacters_quoted {cs : List Char} {fuel : Nat} (hfuel : cs.length < fuel) (taken rest : List Char) :
    readCharacters fuel taken (cs.flatMap escape ++ '"' :: rest) = some (String.ofList (taken.reverse ++ cs), rest) := by
  induction cs generalizing fuel taken with
  | nil =>
    obtain ⟨fuel, rfl⟩ : ∃ n, fuel = n + 1 := ⟨fuel - 1, by simp at hfuel; omega⟩
    simp [readCharacters]
  | cons c cs ih =>
    obtain ⟨fuel, rfl⟩ : ∃ n, fuel = n + 1 := ⟨fuel - 1, by simp at hfuel; omega⟩
    obtain ⟨hread, hquote⟩ := readCharacter_escape c (cs.flatMap escape ++ '"' :: rest)
    have hrest := @ih fuel (by simpa using hfuel) (c :: taken)
    rw [List.flatMap_cons, List.append_assoc, readCharacters]
    · rw [hread]
      simp only
      rw [hrest]
      simp
    · intro more heq
      rw [heq] at hquote
      exact hquote rfl

/-! ## Numbers -/

theorem readUnsigned_append {rest cs more : List Char} {negative : Bool} {n : Number} (h : Stops rest)
    (hread : readUnsigned negative cs = some (n, more)) : readUnsigned negative (cs ++ rest) = some (n, more ++ rest) := by
  have hpoint : ∀ cs : List Char, ((cs ++ rest).head? = some '.') = (cs.head? = some '.') := by
    intro cs
    cases cs with
    | nil => simp [h.head?_ne (.inl rfl)]
    | cons c cs => rfl
  rw [readUnsigned] at hread ⊢
  rw [spanDigits_append h]
  simp only [readFraction_append h, hpoint, atExponent_append h] at hread ⊢
  split at hread
  · cases hread
  · next hproper =>
    rw [if_neg hproper]
    split at hread
    · next hfloat =>
      rw [if_pos hfloat]
      split at hread
      · cases hread
      · next exponent after hexponent =>
        rw [readExponent?_append h hexponent]
        simp only [Option.map_eq_some_iff] at hread ⊢
        obtain ⟨x, hx, heq⟩ := hread
        obtain ⟨rfl, rfl⟩ := Prod.mk.inj heq
        exact ⟨x, hx, rfl⟩
    · next hinteger =>
      rw [if_neg hinteger]
      simp only [Option.map_eq_some_iff] at hread ⊢
      obtain ⟨x, hx, heq⟩ := hread
      obtain ⟨rfl, rfl⟩ := Prod.mk.inj heq
      exact ⟨x, hx, rfl⟩

/-- A number reads the same when something follows that no number goes on with. -/
theorem readNumber_append {rest cs more : List Char} {n : Number} (h : Stops rest) (hread : readNumber cs = some (n, more)) :
    readNumber (cs ++ rest) = some (n, more ++ rest) := by
  cases cs with
  | nil => cases hread
  | cons c cs =>
    by_cases hc : c = '-'
    · subst hc
      exact readUnsigned_append h hread
    · have hplain : ∀ cs, readNumber (c :: cs) = readUnsigned false (c :: cs) := by
        intro cs
        rw [readNumber.eq_def]
        split
        · next heq =>
          cases heq
          exact absurd rfl hc
        · rfl
      rw [hplain] at hread
      rw [List.cons_append, hplain]
      exact readUnsigned_append h hread

/-- Digits of a number start with no zero that they do not need. -/
theorem properWhole_toDigits (n : Nat) : properWhole (Nat.toDigits 10 n) = true := by
  by_cases hn : n = 0
  · subst hn
    rfl
  · have hhead := head?_toDigits hn
    rw [properWhole.eq_def]
    split
    · next heq => exact absurd heq Nat.toDigits_ne_nil
    · rfl
    · next heq =>
      rw [heq] at hhead
      exact absurd rfl hhead
    · rfl

/-- Digits alone are read as an integer. -/
theorem readUnsigned_toDigits (negative : Bool) (n : Nat) :
    readUnsigned negative (Nat.toDigits 10 n) = (integerNumber? negative (Nat.toDigits 10 n)).map fun n => (n, []) := by
  have hspan : spanDigits (Nat.toDigits 10 n) = (Nat.toDigits 10 n, []) := spanDigits_digits fun c => isDigit_of_mem_toDigits
  rw [readUnsigned, hspan]
  simp [properWhole_toDigits, Literal.readFraction, Literal.atExponent]

theorem readNumber_natural (n : UInt64) : readNumber (Nat.toDigits 10 n.toNat) = some (.natural n, []) := by
  have hnumber : integerNumber? false (Nat.toDigits 10 n.toNat) = some (.natural n) := by
    have hlt : n.toNat < 2 ^ 64 := n.toNat_lt
    have hinteger : Number.ofInt? (n.toNat : Int) = some (.natural n) := by
      rw [Number.ofInt?, if_pos (by omega), if_pos (by omega), Int.toNat_natCast, UInt64.ofNat_toNat]
    simp only [integerNumber?, digitsToNat_toDigits, Bool.false_eq_true, false_and, if_false, hinteger]
  have hplain : readNumber (Nat.toDigits 10 n.toNat) = readUnsigned false (Nat.toDigits 10 n.toNat) := by
    rw [readNumber.eq_def]
    split
    · next heq =>
      have hdigit : isDigit '-' = true := isDigit_of_mem_toDigits (heq ▸ List.mem_cons_self)
      cases hdigit
    · rfl
  rw [hplain, readUnsigned_toDigits, hnumber]
  rfl

theorem readNumber_negative (k : Fin 0x8000_0000_0000_0000) : readNumber ('-' :: Nat.toDigits 10 (k.val + 1)) = some (.negative k, []) := by
  have hnumber : integerNumber? true (Nat.toDigits 10 (k.val + 1)) = some (.negative k) := by
    have hback : (-(-((k.val + 1 : Nat) : Int)) - 1).toNat = k.val := by omega
    rw [integerNumber?, digitsToNat_toDigits]
    simp only [Nat.add_one_ne_zero, and_false, if_false, if_true, Number.ofInt?]
    rw [if_neg (by omega), dif_pos (by omega)]
    simp only [hback]
  show readUnsigned true (Nat.toDigits 10 (k.val + 1)) = _
  rw [readUnsigned_toDigits, hnumber]
  rfl

/-- A number whose text reads back if it is a float. -/
def NumberReadsBack : Number → Prop
  | .float x => x.ReadsBack
  | _ => True

/-- A number reads back whatever follows it, if no number goes on there. -/
theorem readNumber_numberChars {n : Number} (hn : NumberReadsBack n) {rest : List Char} (h : Stops rest) :
    readNumber (numberChars n ++ rest) = some (n, rest) := by
  cases n with
  | natural n => exact readNumber_append h (readNumber_natural n)
  | negative k => exact readNumber_append h (readNumber_negative k)
  | float x => exact readNumber_append h hn

/-- The text of a number is made of characters of numbers. -/
theorem isNumeric_numberChars (n : Number) : ∀ c ∈ numberChars n, IsNumeric c := by
  intro c hc
  cases n with
  | natural n => exact isNumeric_toDigits hc
  | negative k =>
    rcases List.mem_cons.mp hc with rfl | hc
    · exact .inr (by decide)
    · exact isNumeric_toDigits hc
  | float x => exact x.isNumeric_chars c hc

end Json
end EditorLink
