import EditorLink.Proofs.Wire.Walk

/-!
# EditorLink.Proofs.Wire.Recognition -- a walk recognises one value

A walk over markers has three ends, and the grammar has a notion for each. It is complete at the end of the one value that the buffer begins
with; it finds a reserved marker exactly where one stands in the place of a value, with all before it complete (`Misplaced`); and it asks for
more exactly while the buffer is the beginning of some longer value. For the last, whatever a walk has passed and announced can be
made up for: numbers and payloads with zeros, values with nils (`Scan.completable_of_partially`).

A walk that has been interrupted, at buffers that grew from one call to the next, finds what a walk from the start would (`resumes_of_resumed`).
-/

namespace EditorLink.Wire

open Pack (Head)

/-! ## Reserved markers -/

/-- The reserved marker stands where one of so many values should start, and all that comes before it is complete. -/
inductive Misplaced : (count : Nat) → Bytes → Prop where
  | here {count rest} : Misplaced (count + 1) (0xc1 :: rest)
  | inside {b own items inner count} : Own (Head.ofByte b) own items → Misplaced items inner → Misplaced (count + 1) (b :: own ++ inner)
  | later {first count rest} : IsValue first → Misplaced count rest → Misplaced (count + 1) (first ++ rest)

/-- One byte announces nothing. -/
theorem layout?_eq_none_iff {b : UInt8} : layout? (Head.ofByte b) = none ↔ b = 0xc1 := by
  have hall : ∀ n : Fin 256, layout? (Head.ofByte (.ofNat n)) = none ↔ UInt8.ofNat n = 0xc1 := by decide +kernel
  have hb := hall ⟨b.toNat, b.toNat_lt⟩
  rwa [UInt8.ofNat_toNat] at hb

/-- A marker that is misplaced among values stands among the first of them, or these are complete. -/
theorem Misplaced.split {m n : Nat} {bytes : Bytes} (h : Misplaced (m + n) bytes) :
    Misplaced m bytes ∨ ∃ first rest, bytes = first ++ rest ∧ Values m first ∧ Misplaced n rest := by
  induction m generalizing bytes with
  | zero => exact Or.inr ⟨[], bytes, rfl, .none, by simpa using h⟩
  | succ m ih =>
    rw [Nat.add_right_comm] at h
    cases h with
    | here => exact Or.inl .here
    | inside hown hinner => exact Or.inl (.inside hown hinner)
    | later hfirst hrest =>
      rcases ih hrest with hrest | ⟨second, rest, rfl, hsecond, hrest⟩
      · exact Or.inl (.later hfirst hrest)
      · exact Or.inr ⟨_, rest, (List.append_assoc ..).symm, Nat.add_comm 1 m ▸ Values.append hfirst hsecond, hrest⟩

/-- The values that a marker announces may be counted together with those after it. -/
theorem Misplaced.flat {b : UInt8} {own tail : Bytes} {items count : Nat} (hown : Own (Head.ofByte b) own items)
    (h : Misplaced (count + items) tail) : Misplaced (count + 1) (b :: own ++ tail) := by
  rcases (Nat.add_comm count items ▸ h).split with hinner | ⟨inner, rest, rfl, hinner, hrest⟩
  · exact .inside hown hinner
  · have hvalue : IsValue (b :: (own ++ inner)) := by simpa [IsValue] using Values.cons hown hinner .none
    have hlater := Misplaced.later hvalue hrest
    simpa using hlater

namespace Scan

/-- A walk stops at a reserved marker only where one is misplaced. -/
theorem misplaced_of_reserved {offset remaining : Nat} {bytes : Bytes} {b : UInt8} {scan : Scan}
    (h : walk offset remaining bytes = .reserved b scan) : b = 0xc1 ∧ Misplaced remaining bytes := by
  fun_induction walk offset remaining bytes with
  | case1 => simp at h
  | case2 => simp at h
  | case3 offset remaining b' bytes hlayout =>
    obtain ⟨rfl, -⟩ : b' = b ∧ _ = scan := by simpa using h
    obtain rfl := layout?_eq_none_iff.mp hlayout
    exact ⟨rfl, .here⟩
  | case4 => simp at h
  | case5 => simp at h
  | case6 offset remaining b' bytes layout hlayout stop added rest hstride ih =>
    obtain ⟨own, rfl, rfl, hown⟩ := own_of_stride hlayout hstride
    obtain ⟨hb, hrest⟩ := ih h
    exact ⟨hb, hrest.flat hown⟩

/-- A walk stops at a reserved marker that is misplaced. -/
theorem reserved_of_misplaced {count : Nat} {bytes : Bytes} (h : Misplaced count bytes) (offset extra : Nat) :
    ∃ scan, walk offset (count + extra) bytes = .reserved 0xc1 scan := by
  induction h generalizing offset extra with
  | @here count rest =>
    rw [Nat.add_right_comm]
    exact ⟨_, walk_reserved (layout?_eq_none_iff.mpr rfl) offset (count + extra) rest⟩
  | @inside b own items inner count hown _ ih =>
    rw [Nat.add_right_comm, walk_own hown, Nat.add_comm (count + extra)]
    exact ih _ _
  | @later first count rest hfirst _ ih =>
    have hcount : count + 1 + extra = 1 + (count + extra) := by omega
    rw [hcount, walk_values hfirst]
    exact ih _ _

/-! ## Beginnings of values -/

/-- So many nils are so many values. -/
theorem values_nils (count : Nat) : Values count (List.replicate count 0xc0) := by
  induction count with
  | zero => exact .none
  | succ count ih => exact Values.cons (b := 0xc0) .nil .none ih

/-- What is missing of a marker's own bytes can be made up for with zeros. -/
theorem own_of_part {head : Head} {layout : Layout} (hlayout : layout? head = some layout) {start : Nat} {bytes : Bytes}
    (h : ∀ stop added rest, stride start bytes layout ≠ .full stop added (some rest)) :
    ∃ missing items, missing ≠ [] ∧ Own head (bytes ++ missing) items := by
  cases layout with
  | fixed size =>
    have hshort : bytes.length < size := by
      refine Nat.lt_of_not_le fun hle => h (start + size) 0 (bytes.drop size) ?_
      rw [stride, Bytes.dropExactly?_eq, if_pos hle]
    refine ⟨List.replicate (size - bytes.length) 0, 0, by simp; omega, own_of_whole hlayout (stride_fixed_iff.mpr ⟨?_, rfl⟩)⟩
    simp
    omega
  | items count => exact absurd rfl (h start count bytes)
  | counted width per =>
    have hshort : bytes.length < width := by
      refine Nat.lt_of_not_le fun hle => ?_
      cases hread : Bytes.readNat? width bytes with
      | none => exact absurd (Bytes.readNat?_eq_none_iff.mp hread) (Nat.not_lt.mpr hle)
      | some found => exact h _ _ _ (by rw [stride, hread])
    refine ⟨List.replicate (width - bytes.length) 0, _, by simp; omega, own_of_whole hlayout (stride_counted_iff.mpr ⟨?_, rfl⟩)⟩
    simp
    omega
  | sized width extra =>
    -- the number may be incomplete, or else the payload is
    obtain ⟨digits, part, missing, hmissing, hbytes, hwidth, hpart⟩ : ∃ digits part missing, missing ≠ [] ∧
        bytes ++ missing = digits ++ (part ++ List.replicate (extra + Bytes.toNat digits - part.length) 0) ∧
        digits.length = width ∧ part.length ≤ extra + Bytes.toNat digits := by
      cases hread : Bytes.readNat? width bytes with
      | none =>
        have hshort := Bytes.readNat?_eq_none_iff.mp hread
        let digits := bytes ++ List.replicate (width - bytes.length) 0
        refine ⟨digits, [], List.replicate (width - bytes.length) 0 ++ List.replicate (extra + Bytes.toNat digits) 0, ?_, ?_, ?_, ?_⟩
        · simp
          omega
        · simp [digits]
        · simp [digits]
          omega
        · simp
      | some found =>
        obtain ⟨digits, rfl, hwidth, hsize⟩ := Bytes.readNat?_eq_some_iff.mp hread
        have hshort : found.2.length < extra + found.1 := by
          refine Nat.lt_of_not_le fun hle => h (start + width + extra + found.1) 0 (found.2.drop (extra + found.1)) ?_
          rw [stride, hread]
          simp [Bytes.dropExactly?_eq, hle]
        rw [← hsize] at hshort
        exact ⟨digits, found.2, List.replicate (extra + Bytes.toNat digits - found.2.length) 0, by simp; omega, by simp, hwidth, Nat.le_of_lt hshort⟩
    refine ⟨missing, 0, hmissing, own_of_whole hlayout (stride_sized_iff.mpr ⟨digits, _, hbytes, hwidth, ?_, rfl⟩)⟩
    simp
    omega

/-- Bytes over which a walk asks for more can be completed. -/
theorem completable_of_partially {offset remaining : Nat} {bytes : Bytes} {scan : Scan} (h : walk offset remaining bytes = .partially scan) :
    ∃ missing, missing ≠ [] ∧ Values remaining (bytes ++ missing) := by
  have hmarker : ∀ {remaining : Nat} {b : UInt8} {bytes : Bytes} {layout : Layout} (start : Nat), layout? (Head.ofByte b) = some layout →
      (∀ stop added rest, stride start bytes layout ≠ .full stop added (some rest)) →
      ∃ missing, missing ≠ [] ∧ Values (remaining + 1) (b :: bytes ++ missing) := by
    intro remaining b bytes layout start hlayout hpart
    obtain ⟨missing, items, hmissing, hown⟩ := own_of_part hlayout hpart
    refine ⟨missing ++ List.replicate (remaining + items) 0xc0, by simp [hmissing], ?_⟩
    simpa using (values_nils (remaining + items)).flat hown
  fun_induction walk offset remaining bytes with
  | case1 => simp at h
  | case2 offset remaining => exact ⟨_, by simp, values_nils (remaining + 1)⟩
  | case3 => simp at h
  | case4 offset remaining b bytes layout hlayout need hstride =>
    refine hmarker (offset + 1) hlayout fun stop added rest => ?_
    simp [hstride]
  | case5 offset remaining b bytes layout hlayout stop added hstride =>
    refine hmarker (offset + 1) hlayout fun stop added rest => ?_
    simp [hstride]
  | case6 offset remaining b bytes layout hlayout stop added rest hstride ih =>
    obtain ⟨own, rfl, rfl, hown⟩ := own_of_stride hlayout hstride
    obtain ⟨missing, hmissing, hvalues⟩ := ih h
    exact ⟨missing, hmissing, by simpa using hvalues.flat hown⟩

/-! ## Calls on a growing buffer -/

/-- The walk as it is after calls on some buffers, if each of them has asked for more. -/
def resumed (scan : Scan) : List Bytes → Option Scan
  | [] => some scan
  | buffer :: rest =>
    match scan.advance buffer with
    | .partially next => resumed next rest
    | _ => none

/-- After calls on growing buffers a walk goes on as one from the start would. -/
theorem resumes_of_resumed {calls : List Bytes} {buffer b : Bytes} {scan next : Scan} (hscan : scan.Resumes buffer)
    (grows : (buffer :: (calls ++ [b])).Pairwise (· <+: ·)) (h : resumed scan calls = some next) : next.advance b = walk 0 1 b := by
  induction calls generalizing scan buffer with
  | nil =>
    obtain rfl : scan = next := Option.some.inj h
    obtain ⟨more, rfl⟩ := (List.pairwise_cons.mp grows).1 b (by simp)
    exact hscan more
  | cons longer rest ih =>
    obtain ⟨hlonger, hrest⟩ := List.pairwise_cons.mp grows
    obtain ⟨more, rfl⟩ := hlonger longer (by simp)
    rw [resumed, hscan more] at h
    cases hwalk : walk 0 1 (buffer ++ more) with
    | partially scan =>
      rw [hwalk] at h
      exact ih (resumes_of_partially hwalk) hrest h
    | complete length =>
      rw [hwalk] at h
      cases h
    | reserved byte scan =>
      rw [hwalk] at h
      cases h

/-- **A walk recognises exactly one value.** Whatever calls on beginnings of a buffer came before it, each asking for more: a call on the
buffer is complete after so many bytes exactly if these are one value of the grammar; it fails exactly if the reserved marker stands where a
value should start, with all before it complete; and it asks for more exactly if the buffer is a beginning of some longer value. -/
theorem recognises_one_value (calls : List Bytes) (b : Bytes) (grows : (calls ++ [b]).Pairwise (· <+: ·)) (scan : Scan)
    (waiting : resumed {} calls = some scan) :
    (∀ n, scan.advance b = .complete n ↔ n ≤ b.length ∧ IsValue (b.take n)) ∧
    ((∃ byte next, scan.advance b = .reserved byte next) ↔ Misplaced 1 b) ∧
    (∀ byte next, scan.advance b = .reserved byte next → byte = 0xc1) ∧
    ((∃ next, scan.advance b = .partially next) ↔ ∃ missing, missing ≠ [] ∧ IsValue (b ++ missing)) := by
  have hgrows : ([] :: (calls ++ [b])).Pairwise (· <+: ·) := List.pairwise_cons.mpr ⟨fun buffer _ => List.nil_prefix, grows⟩
  rw [resumes_of_resumed resumes_fresh hgrows waiting]
  refine ⟨fun n => ⟨fun h => ?_, fun ⟨hle, hvalue⟩ => ?_⟩, ⟨fun ⟨byte, next, h⟩ => (misplaced_of_reserved h).2, fun h => ?_⟩,
    fun byte next h => (misplaced_of_reserved h).1, ⟨fun ⟨next, h⟩ => completable_of_partially h, fun ⟨missing, hmissing, hvalue⟩ => ?_⟩⟩
  · obtain ⟨whole, rest, rfl, rfl, hwhole⟩ := values_of_complete h
    exact ⟨by simp, by simpa [IsValue] using hwhole⟩
  · have hwhole := walk_whole hvalue 0 (b.drop n)
    rwa [List.take_append_drop, List.length_take, Nat.min_eq_left hle, Nat.zero_add] at hwhole
  · obtain ⟨next, hreserved⟩ := reserved_of_misplaced h 0 0
    exact ⟨_, next, hreserved⟩
  · obtain ⟨next, hpartially, -⟩ := walk_part hvalue hmissing 0
    exact ⟨next, hpartially⟩

/-- A pair of a short text and a longer one that is cut off inside the first text, before the length of the second, and inside its payload, and
that has a byte of the next value behind it. -/
theorem pair_is_recognised_after_three_cuts :
    let pair : Bytes := [0x92, 0xa2, 0x61, 0x62, 0xd9, 0x03, 0x7a, 0x7a, 0x7a]
    let calls := [pair.take 3, pair.take 5, pair.take 7]
    resumed {} calls = some ⟨9, 0, 9⟩ ∧ advance ⟨9, 0, 9⟩ (pair ++ [0xc1]) = .complete 9 ∧ IsValue pair ∧ ¬ Misplaced 1 (pair ++ [0xc1]) := by
  intro pair calls
  have hwaiting : resumed {} calls = some ⟨9, 0, 9⟩ := by cbv
  obtain ⟨hcomplete, hreserved, -, -⟩ := recognises_one_value calls (pair ++ [0xc1]) (by decide) ⟨9, 0, 9⟩ hwaiting
  have hdone : advance ⟨9, 0, 9⟩ (pair ++ [0xc1]) = .complete 9 := by cbv
  refine ⟨hwaiting, hdone, ((hcomplete 9).mp hdone).2, fun h => ?_⟩
  obtain ⟨byte, next, hfails⟩ := hreserved.mpr h
  cases hdone.symm.trans hfails

end Scan

end EditorLink.Wire
