import EditorLink.Proofs.Wire.Grammar

/-!
# EditorLink.Proofs.Wire.Walk -- where a walk over MessagePack values stops

The grammar of values is recursive; a walk over their markers is flat, and may be interrupted anywhere. What it finds is still what the
grammar says:

* a walk over so many values is complete at their end, whatever follows them, and nowhere else (`walk_whole`, `values_of_complete`);
* a walk over a part of them asks for more bytes than there are, but never for more than the values have (`walk_part`);
* a walk that asked for more goes on, over more bytes, as a walk from the start would (`walk_append_of_partially`). It does so from any
  place where it can stop: before a marker, inside its number, and in a payload, which is jumped over before it has arrived.
-/

namespace EditorLink.Wire.Scan

open Pack (Head)

/-! ## One marker -/

theorem walk_zero (offset : Nat) (bytes : Bytes) : walk offset 0 bytes = .complete offset := by
  rw [walk]

theorem walk_nil (offset remaining : Nat) :
    walk offset (remaining + 1) [] = .partially ⟨offset, remaining + 1, offset + 1⟩ := by
  rw [walk]

theorem walk_reserved {b : UInt8} (hb : layout? (Head.ofByte b) = none) (offset remaining : Nat) (bytes : Bytes) :
    walk offset (remaining + 1) (b :: bytes) = .reserved b ⟨offset, remaining + 1, offset + 1⟩ := by
  rw [walk]
  split
  · rfl
  · next heq => simp [hb] at heq

theorem walk_marker {b : UInt8} {layout : Layout} (hb : layout? (Head.ofByte b) = some layout) (offset remaining : Nat)
    (bytes : Bytes) :
    walk offset (remaining + 1) (b :: bytes) =
      match stride (offset + 1) bytes layout with
      | .short need => .partially ⟨offset, remaining + 1, need⟩
      | .full stop added none => .partially ⟨stop, remaining + added, stop⟩
      | .full stop added (some rest) => walk stop (remaining + added) rest := by
  rw [walk]
  split
  · next heq => simp [hb] at heq
  · next found heq =>
    obtain rfl : found = layout := by simpa [hb] using heq.symm
    split <;> simp [*]

/-- A walk passes over a marker and its own bytes to the values after it. -/
theorem walk_own {b : UInt8} {own : Bytes} {items : Nat} (hown : Own (Head.ofByte b) own items) (offset remaining : Nat)
    (bytes : Bytes) :
    walk offset (remaining + 1) (b :: own ++ bytes) = walk (offset + (b :: own).length) (remaining + items) bytes := by
  obtain ⟨layout, hlayout, hstride⟩ := hown.layout
  obtain ⟨own', hsplit, -, hfull⟩ := stride_full hstride
  obtain rfl : own = own' := by simpa using hsplit
  rw [List.cons_append, walk_marker hlayout, hfull]
  simp only [List.length_cons]
  congr 1
  omega

/-- Where a walk goes on behind a marker, the bytes in between belong to that marker. -/
theorem own_of_stride {head : Head} {layout : Layout} {start stop added : Nat} {bytes rest : Bytes}
    (hlayout : layout? head = some layout) (h : stride start bytes layout = .full stop added (some rest)) :
    ∃ own, bytes = own ++ rest ∧ stop = start + own.length ∧ Own head own added := by
  obtain ⟨own, hbytes, hstop, hfull⟩ := stride_full h
  have hwhole : stride 0 own layout = .full own.length added (some []) := by simpa using hfull 0 []
  exact ⟨own, hbytes, hstop, own_of_whole hlayout hwhole⟩

/-! ## Whole values -/

theorem walk_values {count : Nat} {bytes : Bytes} (h : Values count bytes) (offset extra : Nat) (more : Bytes) :
    walk offset (count + extra) (bytes ++ more) = walk (offset + bytes.length) extra more := by
  induction h generalizing offset extra more with
  | none => simp
  | @cons b own items inner count rest hown hinner hrest ihInner ihRest =>
    have hbytes : b :: (own ++ inner) ++ rest ++ more = b :: own ++ (inner ++ (rest ++ more)) := by simp
    have hremaining : count + 1 + extra = count + extra + 1 := by omega
    rw [hbytes, hremaining, walk_own hown, Nat.add_comm (count + extra), ihInner, ihRest]
    congr 1
    simp
    omega

/-- A walk over values is complete at their end, whatever follows them. -/
theorem walk_whole {count : Nat} {whole : Bytes} (h : Values count whole) (offset : Nat) (more : Bytes) :
    walk offset count (whole ++ more) = .complete (offset + whole.length) := by
  have hzero := walk_values h offset 0 more
  rwa [walk_zero] at hzero

/-- What a walk has found complete is values. -/
theorem values_of_complete {offset remaining length : Nat} {bytes : Bytes}
    (h : walk offset remaining bytes = .complete length) :
    ∃ whole rest, bytes = whole ++ rest ∧ length = offset + whole.length ∧ Values remaining whole := by
  fun_induction walk offset remaining bytes with
  | case1 offset bytes =>
    obtain rfl : offset = length := by simpa using h
    exact ⟨[], bytes, rfl, rfl, .none⟩
  | case2 => simp at h
  | case3 => simp at h
  | case4 => simp at h
  | case5 => simp at h
  | case6 offset remaining b bytes layout hlayout stop added rest hstride ih =>
    obtain ⟨own, rfl, rfl, hown⟩ := own_of_stride hlayout hstride
    obtain ⟨whole, more, rfl, rfl, hwhole⟩ := ih h
    exact ⟨b :: own ++ whole, more, by simp, by simp; omega, hwhole.flat hown⟩

/-- What is complete stays so, whatever follows it. -/
theorem walk_append_of_complete {offset remaining length : Nat} {bytes : Bytes}
    (h : walk offset remaining bytes = .complete length) (more : Bytes) :
    walk offset remaining (bytes ++ more) = .complete length := by
  obtain ⟨whole, rest, rfl, rfl, hwhole⟩ := values_of_complete h
  rw [List.append_assoc, walk_whole hwhole]

theorem length_le_of_complete {offset remaining length : Nat} {bytes : Bytes}
    (h : walk offset remaining bytes = .complete length) : length ≤ offset + bytes.length := by
  obtain ⟨whole, rest, rfl, rfl, -⟩ := values_of_complete h
  simp

/-! ## Walks that stop early -/

/-- A reserved marker is found whatever follows it. -/
theorem walk_append_of_reserved {offset remaining : Nat} {bytes : Bytes} {b : UInt8} {scan : Scan}
    (h : walk offset remaining bytes = .reserved b scan) (more : Bytes) :
    walk offset remaining (bytes ++ more) = .reserved b scan := by
  fun_induction walk offset remaining bytes with
  | case1 => simp at h
  | case2 => simp at h
  | case3 offset remaining b' bytes hlayout =>
    rw [List.cons_append, walk_reserved hlayout]
    exact h
  | case4 => simp at h
  | case5 => simp at h
  | case6 offset remaining b' bytes layout hlayout stop added rest hstride ih =>
    obtain ⟨own, rfl, rfl, hown⟩ := own_of_stride hlayout hstride
    have hbytes : b' :: (own ++ rest) ++ more = b' :: own ++ (rest ++ more) := by simp
    rw [hbytes, walk_own hown, ← ih h]
    congr 1
    simp
    omega

/-- A walk that found a reserved marker stands before it, and would find it again. -/
theorem walk_of_reserved {offset remaining : Nat} {bytes : Bytes} {b : UInt8} {scan : Scan}
    (h : walk offset remaining bytes = .reserved b scan) :
    offset ≤ scan.offset ∧ scan.need ≤ offset + bytes.length ∧
      walk scan.offset scan.remaining (bytes.drop (scan.offset - offset)) = .reserved b scan := by
  fun_induction walk offset remaining bytes with
  | case1 => simp at h
  | case2 => simp at h
  | case3 offset remaining b' bytes hlayout =>
    obtain ⟨rfl, rfl⟩ : b' = b ∧ _ = scan := by simpa using h
    refine ⟨Nat.le_refl _, by simp, ?_⟩
    simpa using walk_reserved hlayout offset remaining bytes
  | case4 => simp at h
  | case5 => simp at h
  | case6 offset remaining b' bytes layout hlayout stop added rest hstride ih =>
    obtain ⟨own, rfl, rfl, hown⟩ := own_of_stride hlayout hstride
    obtain ⟨hoffset, hneed, hagain⟩ := ih h
    refine ⟨by omega, by simp; omega, ?_⟩
    have hreach : scan.offset - offset = (b' :: own).length + (scan.offset - (offset + 1 + own.length)) := by
      simp; omega
    rw [← List.cons_append, hreach, List.drop_length_add_append]
    exact hagain

/-- **A walk that asked for more goes on as one from the start would.** It needs more bytes than there were. Until they are there a
walk from the start would stop at the same place, and once they are there it gets to that place too. -/
theorem walk_append_of_partially {offset remaining : Nat} {bytes : Bytes} {scan : Scan}
    (h : walk offset remaining bytes = .partially scan) :
    offset ≤ scan.offset ∧ offset + bytes.length < scan.need ∧ ∀ more,
      (offset + (bytes ++ more).length < scan.need → walk offset remaining (bytes ++ more) = .partially scan) ∧
      (scan.need ≤ offset + (bytes ++ more).length →
        walk offset remaining (bytes ++ more) =
          walk scan.offset scan.remaining ((bytes ++ more).drop (scan.offset - offset))) := by
  fun_induction walk offset remaining bytes with
  | case1 => simp at h
  | case2 offset remaining =>
    obtain rfl : _ = scan := by simpa using h
    refine ⟨Nat.le_refl _, by simp, fun more => ⟨fun hless => ?_, fun hmore => by simp⟩⟩
    obtain rfl : more = [] := by simpa using hless
    exact walk_nil offset remaining
  | case3 => simp at h
  | case4 offset remaining b bytes layout hlayout need hstride =>
    obtain rfl : _ = scan := by simpa using h
    obtain ⟨hneed, hstays⟩ := stride_short hstride
    refine ⟨Nat.le_refl _, by simp; omega, fun more => ⟨fun hless => ?_, fun hmore => by simp⟩⟩
    have hshort := hstays more (by simp at hless ⊢; omega)
    rw [List.cons_append, walk_marker hlayout, hshort]
  | case5 offset remaining b bytes layout hlayout stop added hstride =>
    obtain rfl : _ = scan := by simpa using h
    obtain ⟨hstop, hfull⟩ := stride_beyond hstride
    refine ⟨by simp; omega, by simp; omega, fun more => ⟨fun hless => ?_, fun hmore => ?_⟩⟩
    · have hnone : Bytes.dropExactly? (stop - (offset + 1)) (bytes ++ more) = none :=
        Bytes.dropExactly?_eq_none_iff.mpr (by simp at hless ⊢; omega)
      rw [List.cons_append, walk_marker hlayout, hfull, hnone]
    · have hsome : Bytes.dropExactly? (stop - (offset + 1)) (bytes ++ more) =
          some ((bytes ++ more).drop (stop - (offset + 1))) := by
        rw [Bytes.dropExactly?_eq, if_pos (by simp at hmore ⊢; omega)]
      have hdrop : (b :: (bytes ++ more)).drop (stop - offset) = (bytes ++ more).drop (stop - (offset + 1)) := by
        rw [show stop - offset = stop - (offset + 1) + 1 by omega, List.drop_succ_cons]
      rw [List.cons_append, walk_marker hlayout, hfull, hsome, hdrop]
  | case6 offset remaining b bytes layout hlayout stop added rest hstride ih =>
    obtain ⟨own, rfl, rfl, hown⟩ := own_of_stride hlayout hstride
    obtain ⟨hoffset, hneed, hgoes⟩ := ih h
    refine ⟨by omega, by simp; omega, fun more => ?_⟩
    obtain ⟨hless, hmore⟩ := hgoes more
    have hbytes : b :: (own ++ rest) ++ more = b :: own ++ (rest ++ more) := by simp
    have hstart : offset + (b :: own).length = offset + 1 + own.length := by simp; omega
    rw [hbytes, walk_own hown, hstart]
    refine ⟨fun hlt => hless (by simp at hlt ⊢; omega), fun hle => ?_⟩
    have hreach : scan.offset - offset = (b :: own).length + (scan.offset - (offset + 1 + own.length)) := by
      simp; omega
    rw [hmore (by simp at hle ⊢; omega), hreach, List.drop_length_add_append]

/-- Over what a buffer holds and whatever comes after it, a walk goes on as one from the start would. -/
def Resumes (scan : Scan) (buffer : Bytes) : Prop :=
  ∀ more, scan.advance (buffer ++ more) = walk 0 1 (buffer ++ more)

theorem resumes_fresh {buffer : Bytes} : Resumes {} buffer := by
  intro more
  rw [advance, Bytes.dropExactly?_eq]
  cases buffer ++ more with
  | nil => exact (walk_nil 0 0).symm
  | cons b bytes => simp

theorem resumes_of_partially {buffer : Bytes} {scan : Scan} (h : walk 0 1 buffer = .partially scan) : scan.Resumes buffer := by
  intro more
  obtain ⟨-, -, hgoes⟩ := walk_append_of_partially h
  obtain ⟨hstays, hresumes⟩ := hgoes more
  simp only [Nat.zero_add, Nat.sub_zero] at hstays hresumes
  rw [advance, Bytes.dropExactly?_eq]
  by_cases henough : scan.need ≤ (buffer ++ more).length
  · rw [if_pos henough, hresumes henough]
  · rw [if_neg henough, hstays (Nat.lt_of_not_le henough)]

/-- A walk over a part of some values asks for more bytes, but not for more than these values have. -/
theorem walk_part {remaining : Nat} {part missing : Bytes} (h : Values remaining (part ++ missing))
    (hmissing : missing ≠ []) (offset : Nat) :
    ∃ scan, walk offset remaining part = .partially scan ∧ scan.need ≤ offset + (part ++ missing).length := by
  have hwhole : walk offset remaining (part ++ missing) = .complete (offset + (part ++ missing).length) := by
    simpa using walk_whole h offset []
  cases hpart : walk offset remaining part with
  | complete length =>
    -- the values that would be complete already could not go on to the end of all of them
    obtain ⟨front, rest, rfl, rfl, hfront⟩ := values_of_complete hpart
    rw [List.append_assoc, walk_whole hfront] at hwhole
    simp at hwhole
    exact absurd hwhole.2 hmissing
  | reserved b scan =>
    rw [walk_append_of_reserved hpart] at hwhole
    cases hwhole
  | partially scan =>
    obtain ⟨-, -, hgoes⟩ := walk_append_of_partially hpart
    refine ⟨scan, rfl, Nat.le_of_not_lt fun hless => ?_⟩
    rw [(hgoes missing).1 hless] at hwhole
    cases hwhole

/-- What a walk asks for is no more than it asks for with more bytes, or than the length that it finds then. -/
theorem need_le_of_append {offset remaining : Nat} {bytes : Bytes} {scan : Scan}
    (h : walk offset remaining bytes = .partially scan) (more : Bytes) :
    (∀ later, walk offset remaining (bytes ++ more) = .partially later → scan.need ≤ later.need) ∧
      ∀ length, walk offset remaining (bytes ++ more) = .complete length → scan.need ≤ length := by
  obtain ⟨-, -, hgoes⟩ := walk_append_of_partially h
  refine ⟨fun later hlater => ?_, fun length hlength => ?_⟩
  · by_cases hless : offset + (bytes ++ more).length < scan.need
    · rw [(hgoes more).1 hless] at hlater
      cases hlater
      exact Nat.le_refl _
    · have := (walk_append_of_partially hlater).2.1
      omega
  · obtain ⟨whole, rest, hbytes, rfl, hwhole⟩ := values_of_complete hlength
    -- the bytes are a part of the values that are complete with more
    have hle : bytes.length < whole.length := by
      refine Nat.lt_of_not_le fun hle => ?_
      have hprefix : whole <+: bytes := List.prefix_of_prefix_length_le ⟨rest, hbytes.symm⟩ ⟨more, rfl⟩ hle
      obtain ⟨tail, rfl⟩ := hprefix
      rw [walk_whole hwhole] at h
      cases h
    obtain ⟨missing, rfl⟩ : bytes <+: whole := List.prefix_of_prefix_length_le ⟨more, rfl⟩ ⟨rest, hbytes.symm⟩ (by omega)
    have hmissing : missing ≠ [] := by
      rintro rfl
      simp at hle
    obtain ⟨scan', hscan, hneed⟩ := walk_part hwhole hmissing offset
    rw [h] at hscan
    cases hscan
    exact hneed

end EditorLink.Wire.Scan
