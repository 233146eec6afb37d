import EditorLink.Configuration.Substitution
import Mathlib.Data.List.TakeDrop
import Mathlib.Data.List.TakeWhile

/-!
# EditorLink.Proofs.Configuration.References -- how a text is cut at its references

A text is cut into pieces (`Cut`): a reference wherever one can be read when the text is gone through from left to right, and single characters
in between. There is one way to do so, and `find` gives its references. What a reference stands for (`Gives`) is said without the functions
that take it apart: the value of its variable, whose name ends before the first `:-`, or else what follows there.
-/

namespace EditorLink.Configuration

open Text

namespace Reference

/-! ## Reading -/

/-- Something is between the braces, and no closing brace. -/
def Legible (r : Reference) : Prop :=
  r.inner ≠ [] ∧ closing ∉ r.inner

theorem written_eq (r : Reference) : r.written = '$' :: '\x7b' :: (r.inner ++ [closing]) :=
  rfl

theorem span_of_not_mem {cs : List Char} (h : closing ∉ cs) : cs.span (· ≠ closing) = (cs, []) := by
  have hall : ∀ c ∈ cs, decide (c ≠ closing) = true := fun c hc => decide_eq_true fun heq => h (heq ▸ hc)
  rw [List.span_eq_takeWhile_dropWhile, List.takeWhile_eq_self_iff.mpr hall, List.dropWhile_eq_nil_iff.mpr hall]

theorem span_of_closing {inner rest : List Char} (h : closing ∉ inner) :
    (inner ++ closing :: rest).span (· ≠ closing) = (inner, closing :: rest) := by
  have hall : ∀ c ∈ inner, decide (c ≠ closing) = true := fun c hc => decide_eq_true fun heq => h (heq ▸ hc)
  rw [List.span_eq_takeWhile_dropWhile, List.takeWhile_append_of_pos hall, List.dropWhile_append_of_pos hall]
  simp

/-- A reference is read exactly where a legible one is written. -/
theorem read?_eq_some_iff {cs rest : List Char} {r : Reference} : read? cs = some (r, rest) ↔ r.Legible ∧ cs = r.written ++ rest := by
  constructor
  · intro h
    rw [read?] at h
    cases hlead : dropLead? opening cs with
    | none =>
      rw [hlead] at h
      cases h
    | some after =>
      obtain rfl := dropLead?_eq_some_iff.mp hlead
      rw [hlead] at h
      by_cases hmem : closing ∈ after
      · obtain ⟨inner, back, rfl, hinner⟩ := List.eq_append_cons_of_mem hmem
        simp only [span_of_closing hinner] at h
        cases inner with
        | nil => cases h
        | cons c inner =>
          cases h
          exact ⟨⟨List.cons_ne_nil _ _, hinner⟩, by simp [written]⟩
      · simp only [span_of_not_mem hmem] at h
        cases after with
        | nil => cases h
        | cons c after => cases h
  · rintro ⟨⟨hnonempty, hinner⟩, rfl⟩
    have hwritten : r.written ++ rest = opening ++ (r.inner ++ closing :: rest) := by simp [written]
    rw [hwritten, read?, dropLead?_eq_some_iff.mpr rfl]
    simp only [span_of_closing hinner]

theorem read?_eq_none_iff {cs : List Char} : read? cs = none ↔ ∀ (r : Reference) rest, r.Legible → cs ≠ r.written ++ rest := by
  refine ⟨fun h r rest hr hcs => ?_, fun h => ?_⟩
  · rw [read?_eq_some_iff.mpr ⟨hr, hcs⟩] at h
    cases h
  · refine Option.eq_none_iff_forall_ne_some.mpr fun ⟨r, rest⟩ hread => ?_
    obtain ⟨hr, hcs⟩ := read?_eq_some_iff.mp hread
    exact h r rest hr hcs

/-- Two references that are written at one place are the same. -/
theorem eq_of_written {r q : Reference} (hr : r.Legible) (hq : q.Legible) {rest tail : List Char}
    (h : r.written ++ rest = q.written ++ tail) : r = q := by
  have hread : read? (r.written ++ rest) = some (r, rest) := read?_eq_some_iff.mpr ⟨hr, rfl⟩
  rw [h, read?_eq_some_iff.mpr ⟨hq, rfl⟩] at hread
  exact (congrArg Prod.fst (Option.some.inj hread)).symm

/-! ## Meaning -/

/-- What stands between a variable and its fallback. -/
def mark : List Char := [':', '-']

/-- What a reference stands for. Its variable is named by all that is between the braces, or by what precedes the first mark there. -/
inductive Gives (env : Environment) (r : Reference) : List Char → Prop where
  | unmarked {value} : ¬ mark <:+: r.inner → env.get? (String.ofList r.inner) = some value → Gives env r value.toList
  | given {name fallback value} : r.inner = name ++ mark ++ fallback → ¬ mark <:+: name ++ [':'] →
    env.get? (String.ofList name) = some value → Gives env r value.toList
  | fallback {name fallback} : r.inner = name ++ mark ++ fallback → ¬ mark <:+: name ++ [':'] →
    env.get? (String.ofList name) = none → Gives env r fallback

theorem splitFallback_of_unmarked {cs : List Char} (h : ¬ mark <:+: cs) : splitFallback cs = (cs, none) := by
  fun_induction splitFallback cs with
  | case1 => rfl
  | case2 fallback => exact absurd ⟨[], fallback, rfl⟩ h
  | case3 c cs hcs name fallback heq ih =>
    have hrest := ih fun hmark => h (List.infix_cons_iff.mpr (Or.inr hmark))
    obtain ⟨rfl, rfl⟩ := Prod.mk.inj (heq.symm.trans hrest)
    rfl

theorem splitFallback_of_marked {name fallback : List Char} (h : ¬ mark <:+: name ++ [':']) :
    splitFallback (name ++ mark ++ fallback) = (name, some fallback) := by
  induction name with
  | nil => rfl
  | cons c name ih =>
    have hrest := ih fun hmark => h (List.infix_cons_iff.mpr (Or.inr hmark))
    have hfirst : ∀ back, c = ':' → name ++ mark ++ fallback ≠ '-' :: back := by
      rintro back rfl hback
      cases name with
      | nil => cases hback
      | cons d name =>
        obtain rfl : d = '-' := (List.cons.inj hback).1
        exact h ⟨[], name ++ [':'], rfl⟩
    rw [List.cons_append, List.cons_append, splitFallback, hrest]
    exact fun back hc => hfirst back hc

theorem exists_first_mark {cs : List Char} (h : mark <:+: cs) : ∃ name fallback, cs = name ++ mark ++ fallback ∧ ¬ mark <:+: name ++ [':'] := by
  induction cs with
  | nil => simp [mark] at h
  | cons c cs ih =>
    by_cases hhere : mark <+: c :: cs
    · obtain ⟨fallback, hfallback⟩ := hhere
      exact ⟨[], fallback, hfallback.symm, by decide⟩
    · obtain ⟨name, fallback, rfl, hname⟩ := ih ((List.infix_cons_iff.mp h).resolve_left hhere)
      refine ⟨c :: name, fallback, rfl, fun hmark => ?_⟩
      rcases List.infix_cons_iff.mp hmark with hbegins | hlater
      · exact hhere (hbegins.trans ⟨'-' :: fallback, by simp [mark]⟩)
      · exact hname hlater

theorem value?_of_unmarked {env : Environment} {r : Reference} (h : ¬ mark <:+: r.inner) :
    r.value? env = (env.get? (String.ofList r.inner)).map String.toList := by
  rw [value?, name, fallback?, splitFallback_of_unmarked h]
  cases env.get? (String.ofList r.inner) <;> rfl

theorem value?_of_marked {env : Environment} {r : Reference} {name fallback : List Char} (hinner : r.inner = name ++ mark ++ fallback)
    (h : ¬ mark <:+: name ++ [':']) : r.value? env = some (((env.get? (String.ofList name)).map String.toList).getD fallback) := by
  rw [value?, Reference.name, fallback?, hinner, splitFallback_of_marked h]
  cases env.get? (String.ofList name) <;> rfl

theorem value?_eq_some_iff {env : Environment} {r : Reference} {value : List Char} : r.value? env = some value ↔ Gives env r value := by
  constructor
  · intro h
    by_cases hmark : mark <:+: r.inner
    · obtain ⟨name, fallback, hinner, hfirst⟩ := exists_first_mark hmark
      rw [value?_of_marked hinner hfirst] at h
      cases hset : env.get? (String.ofList name) with
      | none =>
        rw [hset] at h
        cases h
        exact .fallback hinner hfirst hset
      | some text =>
        rw [hset] at h
        cases h
        exact .given hinner hfirst hset
    · rw [value?_of_unmarked hmark] at h
      obtain ⟨text, hset, rfl⟩ := Option.map_eq_some_iff.mp h
      exact .unmarked hmark hset
  · rintro (⟨hmark, hset⟩ | ⟨hinner, hfirst, hset⟩ | ⟨hinner, hfirst, hset⟩)
    · rw [value?_of_unmarked hmark, hset]
      rfl
    · rw [value?_of_marked hinner hfirst, hset]
      rfl
    · rw [value?_of_marked hinner hfirst, hset]
      rfl

/-- A reference stands for nothing exactly if it names an unset variable and has no fallback. -/
theorem value?_eq_none_iff {env : Environment} {r : Reference} :
    r.value? env = none ↔ ¬ mark <:+: r.inner ∧ env.get? (String.ofList r.inner) = none := by
  refine ⟨fun h => ?_, fun ⟨hmark, hset⟩ => by rw [value?_of_unmarked hmark, hset, Option.map_none]⟩
  by_cases hmark : mark <:+: r.inner
  · obtain ⟨name, fallback, hinner, hfirst⟩ := exists_first_mark hmark
    rw [value?_of_marked hinner hfirst] at h
    cases h
  · rw [value?_of_unmarked hmark] at h
    exact ⟨hmark, Option.map_eq_none_iff.mp h⟩

theorem name_of_value?_eq_none {env : Environment} {r : Reference} (h : r.value? env = none) : r.name = String.ofList r.inner := by
  rw [name, splitFallback_of_unmarked (value?_eq_none_iff.mp h).1]

end Reference

/-! ## Cutting -/

/-- A reference in a text, or a character outside of all of them. -/
inductive Piece where
  | plain (c : Char)
  | reference (r : Reference)
  deriving DecidableEq, Repr

/-- The piece as it is written. -/
def Piece.written : Piece → List Char
  | plain c => [c]
  | reference r => r.written

/-- The reference that the piece is. -/
def Piece.reference? : Piece → Option Reference
  | plain _ => none
  | reference r => some r

/-- The references among some pieces, in their order. -/
def references (pieces : List Piece) : List Reference :=
  pieces.filterMap Piece.reference?

/-- A text and its pieces: a reference wherever one stands at the front of what is left, up to its closing brace, and otherwise one character. -/
inductive Cut : List Char → List Piece → Prop where
  | none : Cut [] []
  | reference {r rest pieces} : r.Legible → Cut rest pieces → Cut (r.written ++ rest) (.reference r :: pieces)
  | plain {c cs pieces} : (∀ (r : Reference) rest, r.Legible → c :: cs ≠ r.written ++ rest) → Cut cs pieces → Cut (c :: cs) (.plain c :: pieces)

theorem mem_references {pieces : List Piece} {r : Reference} : r ∈ references pieces ↔ .reference r ∈ pieces := by
  rw [references, List.mem_filterMap]
  refine ⟨fun ⟨piece, hpiece, hr⟩ => ?_, fun h => ⟨_, h, rfl⟩⟩
  cases piece with
  | plain c => cases hr
  | reference q =>
    cases hr
    exact hpiece

namespace Cut

variable {cs : List Char} {pieces : List Piece}

/-- The pieces make up the text. -/
theorem written_eq (h : Cut cs pieces) : pieces.flatMap Piece.written = cs := by
  induction h with
  | none => rfl
  | reference _ _ ih => rw [List.flatMap_cons, ih, Piece.written]
  | plain _ _ ih => rw [List.flatMap_cons, ih, Piece.written, List.singleton_append]

theorem legible (h : Cut cs pieces) {r : Reference} (hr : .reference r ∈ pieces) : r.Legible := by
  induction h with
  | none => cases hr
  | reference hlegible _ ih =>
    rcases List.mem_cons.mp hr with heq | hr
    · cases heq
      exact hlegible
    · exact ih hr
  | plain _ _ ih => exact ih ((List.mem_cons.mp hr).resolve_left nofun)

/-- What is left behind some of the pieces is cut into the others. -/
theorem drop (h : Cut cs pieces) {front back : List Piece} (hpieces : pieces = front ++ back) : Cut (back.flatMap Piece.written) back := by
  induction front generalizing cs pieces with
  | nil =>
    obtain rfl : pieces = back := hpieces
    rwa [h.written_eq]
  | cons piece front ih =>
    cases h with
    | none => cases hpieces
    | reference _ hrest => exact ih hrest (List.cons.inj hpieces).2
    | plain _ hrest => exact ih hrest (List.cons.inj hpieces).2

/-- Every text can be cut. -/
theorem exists_cut (cs : List Char) : ∃ pieces, Cut cs pieces := by
  cases hread : Reference.read? cs with
  | some found =>
    obtain ⟨r, rest⟩ := found
    obtain ⟨hr, hcs⟩ := Reference.read?_eq_some_iff.mp hread
    have hshorter : rest.length < cs.length := by
      simp [hcs, Reference.written_eq]
      omega
    obtain ⟨pieces, hpieces⟩ := exists_cut rest
    exact ⟨.reference r :: pieces, hcs ▸ Cut.reference hr hpieces⟩
  | none =>
    cases cs with
    | nil => exact ⟨[], .none⟩
    | cons c cs =>
      obtain ⟨pieces, hpieces⟩ := exists_cut cs
      exact ⟨_, .plain (Reference.read?_eq_none_iff.mp hread) hpieces⟩
termination_by cs.length

/-- There is one way to cut a text. -/
theorem unique (h : Cut cs pieces) {others : List Piece} (hothers : Cut cs others) : others = pieces := by
  induction h generalizing others with
  | none =>
    cases hothers with
    | none => rfl
  | @reference r rest pieces hr _ ih =>
    generalize htext : r.written ++ rest = text at hothers
    cases hothers with
    | none => cases htext
    | @reference q tail others hq htail =>
      obtain rfl := Reference.eq_of_written hr hq htext
      obtain rfl := List.append_cancel_left htext
      rw [ih htail]
    | plain hnone _ => exact absurd htext.symm (hnone r rest hr)
  | @plain c cs pieces hnone _ ih =>
    generalize htext : c :: cs = text at hothers
    cases hothers with
    | none => cases htext
    | reference hq _ => exact absurd htext (hnone _ _ hq)
    | plain _ htail =>
      cases htext
      rw [ih htail]

/-- The references that are found in a text are those of its pieces. -/
theorem find_eq (h : Cut cs pieces) : Reference.find cs = references pieces := by
  have hwithin : ∀ fuel, cs.length ≤ fuel → Reference.findWithin fuel cs = references pieces := by
    induction h with
    | none =>
      rintro (_ | fuel) -
      · rfl
      · rfl
    | @reference r rest pieces hr _ ih =>
      intro fuel hfuel
      rw [Reference.written_eq] at hfuel
      obtain _ | fuel := fuel
      · cases hfuel
      · have hread : Reference.read? (r.written ++ rest) = some (r, rest) := Reference.read?_eq_some_iff.mpr ⟨hr, rfl⟩
        have hrest := ih fuel (by simp at hfuel; omega)
        rw [Reference.written_eq, List.cons_append] at hread ⊢
        simp only [Reference.findWithin, hread, hrest]
        rfl
    | plain hnone _ ih =>
      intro fuel hfuel
      obtain _ | fuel := fuel
      · cases hfuel
      · simp only [Reference.findWithin, Reference.read?_eq_none_iff.mpr hnone, ih fuel (Nat.le_of_succ_le_succ hfuel)]
        rfl
  exact hwithin cs.length (Nat.le_refl _)

end Cut

end EditorLink.Configuration
