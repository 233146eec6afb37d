import EditorLink.Proofs.Configuration.References
import EditorLink.Proofs.Configuration.Substitution
import Mathlib

/-!
# EditorLink.Proofs.Configuration.Expansion -- replacing references against one pass over them

`expand` replaces the references of a text one after the other, each wherever it is written in the text as it is then. One simultaneous pass
(`Pass`) puts the value of each in its own place and leaves everything else alone. The two agree while every reference that is being replaced is
written in its own places only (`Undisturbed`). What has been put in before can disturb this: a value that is or completes a reference of the
text is itself replaced when it is that one's turn. A text with one reference is never disturbed, and no text is if its values are free of `$`,
do not start with a brace and are not empty.
-/

namespace EditorLink.Configuration

open Text

/-! ## Replacing one text by another -/

section Replacing

variable {pattern value : List Char}

/-- Fuel beyond the length of the text is not used. -/
theorem replaceWithin_congr (hpattern : pattern ≠ []) {fuel fuel' : Nat} {cs : List Char} (h : cs.length ≤ fuel) (h' : cs.length ≤ fuel') :
    replaceWithin pattern value fuel cs = replaceWithin pattern value fuel' cs := by
  induction fuel generalizing fuel' cs with
  | zero =>
    obtain rfl := List.length_eq_zero_iff.mp (Nat.le_zero.mp h)
    cases fuel' <;> rfl
  | succ fuel ih =>
    cases cs with
    | nil => cases fuel' <;> rfl
    | cons c cs =>
      obtain _ | fuel' := fuel'
      · cases h'
      · rw [replaceWithin, replaceWithin]
        cases hlead : dropLead? pattern (c :: cs) with
        | none => exact congrArg (c :: ·) (ih (Nat.le_of_succ_le_succ h) (Nat.le_of_succ_le_succ h'))
        | some rest =>
          have hlength := congrArg List.length (dropLead?_eq_some_iff.mp hlead)
          have hpositive := List.length_pos_iff.mpr hpattern
          simp only [List.length_cons, List.length_append] at h h' hlength
          exact congrArg (value ++ ·) (ih (by omega) (by omega))

theorem replace_here (hpattern : pattern ≠ []) (rest : List Char) : replace pattern value (pattern ++ rest) = value ++ replace pattern value rest := by
  have hlead : dropLead? pattern (pattern ++ rest) = some rest := dropLead?_eq_some_iff.mpr rfl
  cases htext : pattern ++ rest with
  | nil => exact absurd (List.append_eq_nil_iff.mp htext).1 hpattern
  | cons c cs =>
    have hlength := congrArg List.length htext
    have hpositive := List.length_pos_iff.mpr hpattern
    rw [htext] at hlead
    simp only [List.length_cons, List.length_append] at hlength
    rw [replace, List.length_cons, replaceWithin, hlead]
    exact congrArg (value ++ ·) (replaceWithin_congr hpattern (by omega) (Nat.le_refl _))

theorem replace_past {c : Char} {cs : List Char} (h : ¬ pattern <+: c :: cs) : replace pattern value (c :: cs) = c :: replace pattern value cs := by
  have hlead : dropLead? pattern (c :: cs) = none :=
    Option.eq_none_iff_forall_ne_some.mpr fun rest hrest => h ⟨rest, (dropLead?_eq_some_iff.mp hrest).symm⟩
  rw [replace, List.length_cons, replaceWithin, hlead]
  rfl

/-- What the pattern does not start in stays. -/
theorem replace_beyond {front tail : List Char} (h : ∀ part, part ≠ [] → part <:+ front → ¬ pattern <+: part ++ tail) :
    replace pattern value (front ++ tail) = front ++ replace pattern value tail := by
  induction front with
  | nil => rfl
  | cons c front ih =>
    have hrest := ih fun part hpart hsuffix => h part hpart (hsuffix.trans (List.suffix_cons c front))
    have hfirst : ¬ pattern <+: c :: (front ++ tail) := h (c :: front) (List.cons_ne_nil _ _) (List.suffix_refl _)
    rw [List.cons_append, replace_past hfirst, hrest, List.cons_append]

end Replacing

/-! ## One pass -/

variable {env : Environment}

/-- The reference names a variable that is not set, and has no fallback. -/
def Reference.Unset (env : Environment) (r : Reference) : Prop :=
  ¬ Reference.mark <:+: r.inner ∧ env.get? (String.ofList r.inner) = none

/-- The text that one pass over the pieces gives: each reference becomes what it stands for, as that is, and every other character stays. -/
inductive Pass (env : Environment) : List Piece → List Char → Prop where
  | none : Pass env [] []
  | plain {c pieces result} : Pass env pieces result → Pass env (.plain c :: pieces) (c :: result)
  | reference {r value pieces result} : r.Gives env value → Pass env pieces result → Pass env (.reference r :: pieces) (value ++ result)

/-- One pass gives one text. -/
theorem Pass.unique {pieces : List Piece} {result other : List Char} (h : Pass env pieces result) (hother : Pass env pieces other) :
    result = other := by
  induction h generalizing other with
  | none =>
    cases hother
    rfl
  | plain _ ih =>
    cases hother with
    | plain hrest => rw [ih hrest]
  | reference hvalue _ ih =>
    cases hother with
    | reference hvalue' hrest =>
      have hsame := (Reference.value?_eq_some_iff.mpr hvalue).symm.trans (Reference.value?_eq_some_iff.mpr hvalue')
      rw [Option.some.inj hsame, ih hrest]

/-- In one pass every reference has a value. -/
theorem Pass.isSome {pieces : List Piece} {result : List Char} (h : Pass env pieces result) {r : Reference} (hr : .reference r ∈ pieces) :
    (r.value? env).isSome := by
  induction h with
  | none => cases hr
  | plain _ ih => exact ih ((List.mem_cons.mp hr).resolve_left nofun)
  | reference hvalue _ ih =>
    rcases List.mem_cons.mp hr with heq | hr
    · cases heq
      exact Option.isSome_of_eq_some (Reference.value?_eq_some_iff.mpr hvalue)
    · exact ih hr

/-! ## Texts in which some references have been replaced -/

/-- What is put in for a reference. -/
def Reference.filled (env : Environment) (r : Reference) : List Char :=
  (r.value? env).getD r.written

/-- The piece as it stands in the text when some references have been replaced. -/
def Piece.standing (env : Environment) (done : List Reference) : Piece → List Char
  | plain c => [c]
  | reference r => if r ∈ done then r.filled env else r.written

/-- The text when some references have been replaced, each in its own places. -/
def standing (env : Environment) (done : List Reference) (pieces : List Piece) : List Char :=
  pieces.flatMap (Piece.standing env done)

/-- The reference is written nowhere in the text but where it stands and has not been replaced. -/
def InPlace (env : Environment) (done : List Reference) (r : Reference) (pieces : List Piece) : Prop :=
  ∀ front piece back, pieces = front ++ piece :: back → (piece = .reference r → r ∈ done) →
    ∀ part, part ≠ [] → part <:+ piece.standing env done → ¬ r.written <+: part ++ standing env done back

/-- Whenever it is a reference's turn, it is written in its own places only. -/
def Undisturbed (env : Environment) (pieces : List Piece) : Prop :=
  ∀ done r later, references pieces = done ++ r :: later → InPlace env done r pieces

theorem standing_cons (done : List Reference) (piece : Piece) (pieces : List Piece) :
    standing env done (piece :: pieces) = piece.standing env done ++ standing env done pieces :=
  List.flatMap_cons

theorem standing_nil {cs : List Char} {pieces : List Piece} (h : Cut cs pieces) : standing env [] pieces = cs := by
  rw [← h.written_eq, standing, List.flatMap_def, List.flatMap_def]
  refine congrArg List.flatten (List.map_congr_left fun piece _ => ?_)
  cases piece with
  | plain c => rfl
  | reference r => rw [Piece.standing, if_neg List.not_mem_nil, Piece.written]

/-- A reference that is written in its own places only is replaced in these and nowhere else. -/
theorem replace_standing {done : List Reference} {r : Reference} {pieces : List Piece} (h : InPlace env done r pieces) :
    replace r.written (r.filled env) (standing env done pieces) = standing env (done ++ [r]) pieces := by
  induction pieces with
  | nil => rfl
  | cons piece pieces ih =>
    have hrest := ih fun front piece' back hpieces => h (piece :: front) piece' back (by rw [hpieces, List.cons_append])
    rw [standing_cons, standing_cons, ← hrest]
    by_cases hown : piece = .reference r → r ∈ done
    · rw [replace_beyond (h [] piece pieces rfl hown)]
      congr 1
      cases piece with
      | plain c => rfl
      | reference q =>
        have hsame : q ∈ done ++ [r] ↔ q ∈ done := by
          rw [List.mem_append, List.mem_singleton]
          refine ⟨fun hq => hq.elim id ?_, Or.inl⟩
          rintro rfl
          exact hown rfl
        simp only [Piece.standing, hsame]
    · obtain ⟨rfl, hnew⟩ := Classical.not_imp.mp hown
      have hdone : r ∈ done ++ [r] := List.mem_append_right _ List.mem_cons_self
      simp only [Piece.standing, if_neg hnew, if_pos hdone]
      exact replace_here (List.cons_ne_nil _ _) _

/-- While nothing is disturbed, references are replaced in their own places. -/
theorem expandEach_standing {pieces : List Piece} (h : Undisturbed env pieces) (hvalues : ∀ r ∈ references pieces, (r.value? env).isSome)
    {done later : List Reference} (hrefs : references pieces = done ++ later) :
    expandEach env later (standing env done pieces) = .ok (standing env (done ++ later) pieces) := by
  induction later generalizing done with
  | nil => rw [List.append_nil, expandEach]
  | cons r later ih =>
    obtain ⟨value, hvalue⟩ := Option.isSome_iff_exists.mp (hvalues r (hrefs ▸ List.mem_append_right _ List.mem_cons_self))
    have hfilled : r.filled env = value := by rw [Reference.filled, hvalue, Option.getD_some]
    have hrefs' : references pieces = (done ++ [r]) ++ later := by rw [hrefs, List.append_assoc, List.singleton_append]
    have hnext := ih hrefs'
    rw [List.append_assoc, List.singleton_append] at hnext
    rw [expandEach, hvalue]
    show expandEach env later (replace r.written value (standing env done pieces)) = _
    rw [← hfilled, replace_standing (h done r later hrefs), hnext]

/-- When all references have been replaced in their own places, the text is what one pass gives. -/
theorem pass_standing {done : List Reference} {pieces : List Piece} (hdone : ∀ r ∈ references pieces, r ∈ done)
    (hvalues : ∀ r ∈ references pieces, (r.value? env).isSome) : Pass env pieces (standing env done pieces) := by
  induction pieces with
  | nil => exact .none
  | cons piece pieces ih =>
    rw [standing_cons]
    cases piece with
    | plain c => exact .plain (ih hdone hvalues)
    | reference r =>
      have hrefs : references (.reference r :: pieces) = r :: references pieces := rfl
      rw [hrefs, List.forall_mem_cons] at hdone hvalues
      obtain ⟨value, hvalue⟩ := Option.isSome_iff_exists.mp hvalues.1
      have hstanding : Piece.standing env done (.reference r) = value := by
        rw [Piece.standing, if_pos hdone.1, Reference.filled, hvalue, Option.getD_some]
      rw [hstanding]
      exact .reference (Reference.value?_eq_some_iff.mp hvalue) (ih hdone.2 hvalues.2)

/-- A text whose references have values and do not disturb one another becomes what it is with all of them replaced in their places. -/
theorem expand_of_undisturbed {text : String} {pieces : List Piece} (hcut : Cut text.toList pieces) (h : Undisturbed env pieces)
    (hvalues : ∀ r ∈ references pieces, (r.value? env).isSome) :
    expand env text = .ok (String.ofList (standing env (references pieces) pieces)) := by
  have heach := expandEach_standing h hvalues (List.nil_append (references pieces)).symm
  rw [standing_nil hcut, List.nil_append] at heach
  rw [expand, hcut.find_eq, heach]
  rfl

/-- A failure is about the first reference without a value. -/
theorem first_unset_of_expandEach {refs : List Reference} {cs : List Char} {e : ConfigError} (h : expandEach env refs cs = .error e) :
    ∃ front r back, refs = front ++ r :: back ∧ (∀ q ∈ front, ¬ q.Unset env) ∧ r.Unset env ∧
      e = .unsetVariable (String.ofList r.inner) := by
  induction refs generalizing cs with
  | nil => cases h
  | cons r rest ih =>
    rw [expandEach] at h
    cases hvalue : r.value? env with
    | none =>
      rw [hvalue] at h
      cases h
      exact ⟨[], r, rest, rfl, by simp, Reference.value?_eq_none_iff.mp hvalue, by rw [Reference.name_of_value?_eq_none hvalue]⟩
    | some value =>
      rw [hvalue] at h
      obtain ⟨front, q, back, rfl, hfront, hq, he⟩ := ih h
      have hr : ¬ r.Unset env := fun hunset => by
        rw [Reference.value?_eq_none_iff.mpr hunset] at hvalue
        cases hvalue
      exact ⟨r :: front, q, back, rfl, List.forall_mem_cons.mpr ⟨hr, hfront⟩, hq, he⟩

/-! ## Texts that nothing disturbs -/

/-- No reference is written inside another one, and what the references stand for is not empty, starts with no brace and is free of `$`. -/
def Harmless (env : Environment) (pieces : List Piece) : Prop :=
  ∀ r, .reference r ∈ pieces → '$' ∉ r.inner ∧ ∃ c rest, r.Gives env (c :: rest) ∧ c ≠ '\x7b' ∧ '$' ∉ c :: rest

/-- **The references of a text with one of them are not disturbed.** -/
theorem undisturbed_of_single {cs : List Char} {pieces : List Piece} (hcut : Cut cs pieces) (hsingle : (references pieces).length ≤ 1) :
    Undisturbed env pieces := by
  intro done r later hrefs front piece back hpieces hown part hpart hsuffix hread
  have hr : .reference r ∈ pieces := mem_references.mp (hrefs ▸ List.mem_append_right _ List.mem_cons_self)
  have hlength : done.length = 0 ∧ later.length = 0 := by
    rw [hrefs] at hsingle
    simp at hsingle
    omega
  obtain rfl := List.length_eq_zero_iff.mp hlength.1
  obtain rfl := List.length_eq_zero_iff.mp hlength.2
  have hback := hcut.drop hpieces
  cases piece with
  | plain c =>
    obtain rfl : part = [c] := (List.suffix_cons_iff.mp hsuffix).resolve_right fun h => hpart (List.suffix_nil.mp h)
    generalize htext : List.flatMap Piece.written (.plain c :: back) = text at hback
    cases hback with
    | plain hnone hrest =>
      obtain ⟨rest, hrest'⟩ := hread
      rw [standing_nil hrest] at hrest'
      exact hnone r rest (hcut.legible hr) hrest'.symm
  | reference q =>
    have hq : q ∈ references pieces := mem_references.mpr (hpieces ▸ List.mem_append_right _ List.mem_cons_self)
    rw [hrefs, List.nil_append, List.mem_singleton] at hq
    exact absurd (hown (congrArg Piece.reference hq)) List.not_mem_nil

/-- A text without references stands as it is written. -/
theorem standing_of_plain {done : List Reference} {pieces : List Piece} (h : ∀ r, .reference r ∉ pieces) :
    standing env done pieces = pieces.flatMap Piece.written := by
  rw [standing, List.flatMap_def, List.flatMap_def]
  refine congrArg List.flatten (List.map_congr_left fun piece hpiece => ?_)
  cases piece with
  | plain c => rfl
  | reference r => exact absurd hpiece (h r)

/-- Where nothing can be read though it is opened, it is closed at once or never. -/
theorem Reference.closing_of_not_read {cs : List Char} (h : ∀ (r : Reference) rest, r.Legible → '$' :: '\x7b' :: cs ≠ r.written ++ rest) :
    closing ∉ cs ∨ ∃ rest, cs = closing :: rest := by
  by_cases hclosed : closing ∈ cs
  · obtain ⟨between, rest, rfl, hbetween⟩ := List.eq_append_cons_of_mem hclosed
    cases between with
    | nil => exact Or.inr ⟨rest, rfl⟩
    | cons c between => exact absurd (by simp [written_eq]) (h ⟨c :: between⟩ rest ⟨List.cons_ne_nil _ _, hbetween⟩)
  · exact Or.inl hclosed

/-- If no value is empty or starts with a brace, nothing is read from a character on that stands outside of all references. -/
theorem not_read_of_plain {c : Char} {done : List Reference} {r : Reference} {pieces : List Piece} (hr : r.Legible)
    (hnone : ∀ (q : Reference) rest, q.Legible → c :: pieces.flatMap Piece.written ≠ q.written ++ rest)
    (hfirst : ∀ q, .reference q ∈ pieces → ∃ d rest, q.filled env = d :: rest ∧ d ≠ '\x7b') : ¬ r.written <+: c :: standing env done pieces := by
  rintro ⟨tail, hwhole⟩
  rw [Reference.written_eq, List.cons_append, List.cons_append, List.append_assoc] at hwhole
  obtain ⟨rfl, htail⟩ := List.cons.inj hwhole
  -- the brace is a character of the text, because neither a value nor a reference starts with one
  cases pieces with
  | nil => cases htail
  | cons piece back =>
    rw [standing_cons] at htail
    cases piece with
    | reference q =>
      obtain ⟨d, rest, hfilled, hd⟩ := hfirst q List.mem_cons_self
      by_cases hdone : q ∈ done
      · rw [Piece.standing, if_pos hdone, hfilled] at htail
        exact hd (List.cons.inj htail).1.symm
      · rw [Piece.standing, if_neg hdone] at htail
        cases htail
    | plain d =>
      obtain ⟨rfl, hinner⟩ := List.cons.inj htail
      rcases Reference.closing_of_not_read hnone with hopen | ⟨rest, hclosed⟩
      · have hplain : ∀ q, .reference q ∉ back := fun q hq =>
          hopen (List.mem_flatMap.mpr ⟨_, hq, by simp [Piece.written, Reference.written_eq]⟩)
        have hsame : r.inner ++ ([Reference.closing] ++ tail) = back.flatMap Piece.written := hinner.trans (standing_of_plain hplain)
        have hmem : Reference.closing ∈ back.flatMap Piece.written := by
          rw [← hsame]
          simp
        exact hopen hmem
      · cases back with
        | nil => cases hclosed
        | cons piece back =>
          cases piece with
          | reference q => cases hclosed
          | plain d =>
            obtain ⟨rfl, -⟩ := List.cons.inj hclosed
            obtain ⟨i, inner, hr'⟩ := List.exists_cons_of_ne_nil hr.1
            rw [hr'] at hinner
            exact hr.2 (hr' ▸ (List.cons.inj hinner).1 ▸ List.mem_cons_self)

/-- **Harmless references are not disturbed.** -/
theorem undisturbed_of_harmless {cs : List Char} {pieces : List Piece} (hcut : Cut cs pieces) (h : Harmless env pieces) : Undisturbed env pieces := by
  intro done r later hrefs front piece back hpieces hown part hpart hsuffix hread
  have hr := hcut.legible (mem_references.mp (hrefs ▸ List.mem_append_right _ List.mem_cons_self))
  have hdollar : '$' ∈ part := by
    obtain ⟨c, part, rfl⟩ := List.exists_cons_of_ne_nil hpart
    obtain ⟨tail, htail⟩ := hread
    exact (List.cons.inj htail).1 ▸ List.mem_cons_self
  have hback := hcut.drop hpieces
  have hfilled : ∀ q, .reference q ∈ pieces → ∃ d rest, q.filled env = d :: rest ∧ d ≠ '\x7b' ∧ '$' ∉ d :: rest := by
    intro q hq
    obtain ⟨-, d, rest, hvalue, hd, hfree⟩ := h q hq
    exact ⟨d, rest, by rw [Reference.filled, Reference.value?_eq_some_iff.mpr hvalue, Option.getD_some], hd, hfree⟩
  cases piece with
  | plain c =>
    obtain rfl : part = [c] := (List.suffix_cons_iff.mp hsuffix).resolve_right fun h => hpart (List.suffix_nil.mp h)
    generalize htext : List.flatMap Piece.written (.plain c :: back) = text at hback
    cases hback with
    | plain hnone hrest =>
      rw [← hrest.written_eq] at hnone
      refine not_read_of_plain hr hnone (fun q hq => ?_) hread
      obtain ⟨d, rest, hvalue, hd, -⟩ := hfilled q (hpieces ▸ List.mem_append_right _ (List.mem_cons_of_mem _ hq))
      exact ⟨d, rest, hvalue, hd⟩
  | reference q =>
    have hq : .reference q ∈ pieces := hpieces ▸ List.mem_append_right _ List.mem_cons_self
    by_cases hdone : q ∈ done
    · obtain ⟨d, rest, hvalue, -, hfree⟩ := hfilled q hq
      rw [Piece.standing, if_pos hdone, hvalue] at hsuffix
      exact hfree (hsuffix.subset hdollar)
    · rw [Piece.standing, if_neg hdone, Reference.written_eq] at hsuffix
      rcases List.suffix_cons_iff.mp hsuffix with rfl | hinside
      · -- the whole of another reference is no place of this one
        obtain ⟨tail, htail⟩ := hread
        obtain rfl := Reference.eq_of_written hr (hcut.legible hq) htail
        exact hdone (hown rfl)
      · have hmem := hinside.subset hdollar
        simp [Reference.closing] at hmem
        exact (h q hq).1 hmem

/-! ## The whole expansion -/

/-- **References are replaced in one pass unless their values disturb one another.** A text has one cut into references and other characters. It
cannot be expanded exactly if one of its references names an unset variable and has no fallback, and the failure is about the first such. If it
can be expanded, and no reference is written outside of its own places when it is its turn, then the result is what one simultaneous pass gives,
with every value taken as it is. In particular this holds for a text with at most one reference, and for harmless references and values. -/
theorem one_pass_unless_disturbed (env : Environment) (text : String) :
    ∃ pieces, Cut text.toList pieces ∧ (∀ others, Cut text.toList others → others = pieces) ∧
      ((∃ e, expand env text = .error e) ↔ ∃ r, .reference r ∈ pieces ∧ r.Unset env) ∧
      (∀ e, expand env text = .error e → ∃ front r back, references pieces = front ++ r :: back ∧ (∀ q ∈ front, ¬ q.Unset env) ∧ r.Unset env ∧
        e = .unsetVariable (String.ofList r.inner)) ∧
      (Undisturbed env pieces → ∀ result, expand env text = .ok result ↔ Pass env pieces result.toList) ∧
      ((references pieces).length ≤ 1 → Undisturbed env pieces) ∧
      (Harmless env pieces → Undisturbed env pieces) := by
  obtain ⟨pieces, hcut⟩ := Cut.exists_cut text.toList
  have hfind := hcut.find_eq
  have herror : ∀ e, expand env text = .error e → expandEach env (references pieces) text.toList = .error e := by
    intro e h
    rw [expand, hfind] at h
    cases heach : expandEach env (references pieces) text.toList with
    | error e' =>
      rw [heach] at h
      cases h
      rfl
    | ok result =>
      rw [heach] at h
      cases h
  have hok : (∃ result, expand env text = .ok result) ↔ ∀ r ∈ references pieces, (r.value? env).isSome := by rw [expand_ok_iff, hfind]
  refine ⟨pieces, hcut, fun others => hcut.unique, ⟨?_, ?_⟩, fun e h => first_unset_of_expandEach (herror e h),
    fun hundisturbed result => ⟨fun h => ?_, fun h => ?_⟩, undisturbed_of_single hcut, undisturbed_of_harmless hcut⟩
  · rintro ⟨e, h⟩
    obtain ⟨front, r, back, hrefs, -, hunset, -⟩ := first_unset_of_expandEach (herror e h)
    exact ⟨r, mem_references.mp (hrefs ▸ List.mem_append_right _ List.mem_cons_self), hunset⟩
  · rintro ⟨r, hr, hunset⟩
    cases hresult : expand env text with
    | error e => exact ⟨e, rfl⟩
    | ok result =>
      have hvalue := hok.mp ⟨result, hresult⟩ r (mem_references.mpr hr)
      rw [Reference.value?_eq_none_iff.mpr hunset] at hvalue
      cases hvalue
  · have hvalues := hok.mp ⟨result, h⟩
    rw [expand_of_undisturbed hcut hundisturbed hvalues] at h
    obtain rfl := Except.ok.inj h
    rw [String.toList_ofList]
    exact pass_standing (fun r hr => hr) hvalues
  · have hvalues : ∀ r ∈ references pieces, (r.value? env).isSome := fun r hr => h.isSome (mem_references.mp hr)
    have hsame := h.unique (pass_standing (fun r hr => hr) hvalues)
    rw [expand_of_undisturbed hcut hundisturbed hvalues, ← hsame, String.ofList_toList]

/-- The value of a variable is a reference of the text that comes later, and is replaced with it. Values that are no references stay. -/
theorem value_is_replaced_with_a_later_reference :
    (let env : Environment := [("A", "$\x7bB\x7d"), ("B", "x")]
      let pieces : List Piece := [.reference ⟨['A']⟩, .reference ⟨['B']⟩]
      Cut "$\x7bA\x7d$\x7bB\x7d".toList pieces ∧ Pass env pieces "$\x7bB\x7dx".toList ∧
        expand env "$\x7bA\x7d$\x7bB\x7d" = .ok "xx" ∧ ¬ Undisturbed env pieces) ∧
    expand [("HOME", "/home/silk")] "$\x7bHOME\x7d/$\x7bDIR:-packages\x7d" = .ok "/home/silk/packages" := by
  refine ⟨?_, ?_⟩
  · intro env pieces
    have hcut : Cut "$\x7bA\x7d$\x7bB\x7d".toList pieces :=
      .reference (r := ⟨['A']⟩) ⟨by decide, by decide⟩ (.reference (r := ⟨['B']⟩) ⟨by decide, by decide⟩ .none)
    have hfirst : Reference.Gives env ⟨['A']⟩ "$\x7bB\x7d".toList := .unmarked (by decide) rfl
    have hsecond : Reference.Gives env ⟨['B']⟩ "x".toList := .unmarked (by decide) rfl
    have hpass : Pass env pieces "$\x7bB\x7dx".toList := .reference hfirst (.reference hsecond .none)
    have hexpand : expand env "$\x7bA\x7d$\x7bB\x7d" = .ok "xx" := by cbv
    obtain ⟨pieces', -, hunique, -, -, hresult, -⟩ := one_pass_unless_disturbed env "$\x7bA\x7d$\x7bB\x7d"
    obtain rfl := hunique pieces hcut
    refine ⟨hcut, hpass, hexpand, fun h => ?_⟩
    have hsame := hpass.unique ((hresult h "xx").mp hexpand)
    cases hsame
  · let pieces : List Piece := [.reference ⟨"HOME".toList⟩, .plain '/', .reference ⟨"DIR:-packages".toList⟩]
    have hslash : ∀ (r : Reference) rest, r.Legible → '/' :: "$\x7bDIR:-packages\x7d".toList ≠ r.written ++ rest :=
      fun r rest _ h => absurd (List.cons.inj h).1 (by decide)
    have hcut : Cut "$\x7bHOME\x7d/$\x7bDIR:-packages\x7d".toList pieces :=
      .reference (r := ⟨"HOME".toList⟩) ⟨by decide, by decide⟩
        (.plain hslash (.reference (r := ⟨"DIR:-packages".toList⟩) ⟨by decide, by decide⟩ .none))
    have hhome : Reference.Gives [("HOME", "/home/silk")] ⟨"HOME".toList⟩ "/home/silk".toList := .unmarked (by decide) (by decide)
    have hdir : Reference.Gives [("HOME", "/home/silk")] ⟨"DIR:-packages".toList⟩ "packages".toList :=
      @Reference.Gives.fallback _ _ "DIR".toList _ rfl (by decide) (by decide)
    have hharmless : Harmless [("HOME", "/home/silk")] pieces := by
      intro r hr
      simp only [pieces, List.mem_cons, List.not_mem_nil, or_false, Piece.reference.injEq, reduceCtorEq, false_or] at hr
      rcases hr with rfl | rfl
      · exact ⟨by decide, _, _, hhome, by decide, by decide⟩
      · exact ⟨by decide, _, _, hdir, by decide, by decide⟩
    obtain ⟨pieces', -, hunique, -, -, hresult, -, hundisturbed⟩ :=
      one_pass_unless_disturbed [("HOME", "/home/silk")] "$\x7bHOME\x7d/$\x7bDIR:-packages\x7d"
    obtain rfl := hunique pieces hcut
    exact (hresult (hundisturbed hharmless) _).mpr (.reference hhome (.plain (.reference hdir .none)))

end EditorLink.Configuration
