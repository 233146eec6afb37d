import EditorLink.Registry.Condition

/-!
# EditorLink.Proofs.Registry.Comparison -- six operators and one order

Two operators ask whether values are the same, and four ask how they are ordered. There is an order between two numbers, of whatever kinds, and
between two texts (`Alike`), and none between other values. Where there is one it is total and transitive, it turns around when the
values change sides (`order?_swap`), and values that are the same are equal in it. The converse fails: `1` and `1.0` are
equal in the order and not the same.

Each of the four operators accepts some of the three orderings (`accepts?`), so what relates the operators to each other
follows from what relates the orderings (`operators_are_coherent`).
-/

namespace EditorLink.Registry.Operator

/-- Two numbers of any kinds, or two texts. -/
inductive Alike : Value → Value → Prop where
  | numbers (m n : Number) : Alike (.number m) (.number n)
  | texts (s t : String) : Alike (.string s) (.string t)

theorem Alike.symm {a b : Value} (h : Alike a b) : Alike b a := by
  cases h with
  | numbers m n => exact .numbers n m
  | texts s t => exact .texts t s

/-! ## The order -/

section Order

variable {a b c : Value}

theorem order?_eq_none (h : ¬ Alike a b) : order? a b = none := by
  rw [order?.eq_def]
  split
  · exact absurd (.numbers _ _) h
  · exact absurd (.texts _ _) h
  · rfl

theorem exists_order? (h : Alike a b) : ∃ o, order? a b = some o := by
  cases h with
  | numbers m n => exact ⟨_, rfl⟩
  | texts s t => exact ⟨_, rfl⟩

/-- Seen from the other side, the order is turned around. -/
theorem order?_swap (a b : Value) : order? b a = (order? a b).map Ordering.swap := by
  by_cases h : Alike a b
  · cases h with
    | numbers m n => exact congrArg some Std.OrientedCmp.eq_swap
    | texts s t => exact congrArg some Std.OrientedCmp.eq_swap
  · have hback : ¬ Alike b a := fun hba => h hba.symm
    rw [order?_eq_none h, order?_eq_none hback]
    rfl

/-- Numbers that are the same are of one kind, and equal in the order of all kinds. -/
theorem order?_of_same (h : Alike a b) (hsame : a.same b = true) : order? a b = some .eq := by
  cases h with
  | numbers m n =>
    have hkeys : m.toDouble.orderKey = n.toDouble.orderKey := by
      rw [Value.same, Number.same.eq_def] at hsame
      split at hsame
      · rw [of_decide_eq_true hsame]
      · rw [of_decide_eq_true hsame]
      · exact of_decide_eq_true hsame
      · cases hsame
    rw [order?, hkeys]
    exact congrArg some Std.ReflCmp.compare_self
  | texts s t =>
    rw [Value.same] at hsame
    rw [order?, of_decide_eq_true hsame]
    exact congrArg some Std.ReflCmp.compare_self

/-- What is not above something is not above what that is not above. -/
theorem order?_trans {o p : Ordering} (hab : order? a b = some o) (ho : o.isLE) (hbc : order? b c = some p) (hp : p.isLE) :
    ∃ q, order? a c = some q ∧ q.isLE := by
  by_cases h : Alike a b
  · cases h with
    | numbers m n =>
      cases c with
      | number k =>
        cases hab
        cases hbc
        exact ⟨_, rfl, Std.TransCmp.isLE_trans ho hp⟩
      | _ => cases hbc
    | texts s t =>
      cases c with
      | string u =>
        cases hab
        cases hbc
        exact ⟨_, rfl, Std.TransCmp.isLE_trans ho hp⟩
      | _ => cases hbc
  · rw [order?_eq_none h] at hab
    cases hab

end Order

/-! ## What the operators accept -/

/-- The orderings that an operator accepts, if it asks for an order. -/
def accepts? : Operator → Option (Ordering → Bool)
  | greater => some Ordering.isGT
  | greaterOrEq => some Ordering.isGE
  | less => some Ordering.isLT
  | lessOrEq => some Ordering.isLE
  | eq | notEq | other _ => none

theorem holds_of_accepts? {a b : Value} {op : Operator} {accepts : Ordering → Bool} (h : op.accepts? = some accepts) :
    op.holds a b = (order? a b).any accepts := by
  cases op with
  | eq => cases h
  | notEq => cases h
  | other name => cases h
  | _ =>
    cases h
    rw [holds]
    rcases order? a b with _ | _ | _ | _ <;> rfl

section Holds

variable (a b : Value)

theorem holds_notEq : notEq.holds a b = !eq.holds a b := rfl

theorem holds_greater : greater.holds a b = (order? a b).any Ordering.isGT := holds_of_accepts? rfl

theorem holds_greaterOrEq : greaterOrEq.holds a b = (order? a b).any Ordering.isGE := holds_of_accepts? rfl

theorem holds_less : less.holds a b = (order? a b).any Ordering.isLT := holds_of_accepts? rfl

theorem holds_lessOrEq : lessOrEq.holds a b = (order? a b).any Ordering.isLE := holds_of_accepts? rfl

theorem less_eq_greater : less.holds a b = greater.holds b a := by
  rw [holds_less, holds_greater, order?_swap a b]
  rcases order? a b with _ | _ | _ | _ <;> rfl

theorem lessOrEq_eq_greaterOrEq : lessOrEq.holds a b = greaterOrEq.holds b a := by
  rw [holds_lessOrEq, holds_greaterOrEq, order?_swap a b]
  rcases order? a b with _ | _ | _ | _ <;> rfl

variable {a b}

theorem lessOrEq_iff : lessOrEq.holds a b = true ↔ ∃ o, order? a b = some o ∧ o.isLE = true := by
  rw [holds_lessOrEq, Option.any_eq_true]

theorem lessOrEq_total (h : Alike a b) : lessOrEq.holds a b = true ∨ lessOrEq.holds b a = true := by
  obtain ⟨o, ho⟩ := exists_order? h
  rw [holds_lessOrEq, holds_lessOrEq, order?_swap a b, ho]
  cases o with
  | lt => exact Or.inl rfl
  | eq => exact Or.inl rfl
  | gt => exact Or.inr rfl

theorem less_eq_not_greaterOrEq (h : Alike a b) : less.holds a b = !greaterOrEq.holds a b := by
  obtain ⟨o, ho⟩ := exists_order? h
  rw [holds_less, holds_greaterOrEq, ho]
  cases o <;> rfl

theorem lessOrEq_trans {c : Value} (hab : lessOrEq.holds a b = true) (hbc : lessOrEq.holds b c = true) :
    lessOrEq.holds a c = true := by
  obtain ⟨o, hab, ho⟩ := lessOrEq_iff.mp hab
  obtain ⟨p, hbc, hp⟩ := lessOrEq_iff.mp hbc
  exact lessOrEq_iff.mpr (order?_trans hab ho hbc hp)

theorem both_of_eq (h : Alike a b) (heq : eq.holds a b = true) : lessOrEq.holds a b = true ∧ greaterOrEq.holds a b = true := by
  rw [holds_lessOrEq, holds_greaterOrEq, order?_of_same h heq]
  exact ⟨rfl, rfl⟩

/-- Without an order no operator that asks for one holds. -/
theorem unordered (h : ¬ Alike a b) : ∀ op ∈ [greater, greaterOrEq, less, lessOrEq], op.holds a b = false := by
  intro op hop
  have hasks : ∀ op ∈ [greater, greaterOrEq, less, lessOrEq], ∃ accepts, op.accepts? = some accepts := by simp [accepts?]
  obtain ⟨accepts, haccepts⟩ := hasks op hop
  rw [holds_of_accepts? haccepts, order?_eq_none h]
  rfl

end Holds

/-! ## Texts of operators -/

/-- The texts of the six operators. -/
def texts : List String := ["==", "!=", ">", ">=", "<", "<="]

theorem ofText_of_not_mem {s : String} (h : s ∉ texts) : ofText s = other s := by
  simp only [texts, List.mem_cons, List.not_mem_nil, or_false, not_or] at h
  obtain ⟨heq, hne, hgt, hge, hlt, hle⟩ := h
  rw [ofText, if_neg heq, if_neg hne, if_neg hgt, if_neg hge, if_neg hlt, if_neg hle]

/-- **The operators form a coherent order.** Not being the same is the negation of being the same, and an operator that asks for an order can be
turned around with its values. The order is transitive. Two numbers, or two texts, are ordered one way or the other, being less is the
negation of being greater or equal, and values that are the same are equal in the order. Between other values there is no order, and a text
that is none of the six names an operator that never holds. -/
theorem operators_are_coherent :
    (∀ a b, notEq.holds a b = !eq.holds a b) ∧
    (∀ a b, less.holds a b = greater.holds b a ∧ lessOrEq.holds a b = greaterOrEq.holds b a) ∧
    (∀ a b c, lessOrEq.holds a b = true → lessOrEq.holds b c = true → lessOrEq.holds a c = true) ∧
    (∀ a b, Alike a b →
      (lessOrEq.holds a b = true ∨ lessOrEq.holds b a = true) ∧ (less.holds a b = !greaterOrEq.holds a b) ∧
      (eq.holds a b = true → lessOrEq.holds a b = true ∧ greaterOrEq.holds a b = true)) ∧
    (∀ a b, ¬ Alike a b → ∀ op ∈ [greater, greaterOrEq, less, lessOrEq], op.holds a b = false) ∧
    ∀ s, s ∉ texts → ∀ a b, (ofText s).holds a b = false := by
  refine ⟨holds_notEq, fun a b => ⟨less_eq_greater a b, lessOrEq_eq_greaterOrEq a b⟩, fun a b c => lessOrEq_trans, fun a b h => ?_,
    fun a b h => unordered h, ?_⟩
  · exact ⟨lessOrEq_total h, less_eq_not_greaterOrEq h, both_of_eq h⟩
  · intro s hs a b
    rw [ofText_of_not_mem hs]
    rfl

/-- A negative integer is below the float zero, which is the same as its negative and not above the natural zero. A number and a text have no
order, and `=` is not an operator. -/
theorem zeros_of_all_kinds_are_ordered :
    let least : Value := .ofInt (-3)
    let zero : Value := .number (.float Double.negativeZero)
    (lessOrEq.holds least zero = true ∧ lessOrEq.holds zero (.nat 0) = true ∧ lessOrEq.holds least (.nat 0) = true) ∧
      (Alike least zero ∧ less.holds least zero = !greaterOrEq.holds least zero) ∧
      (eq.holds zero (.number (.float default)) = true ∧ greaterOrEq.holds zero (.number (.float default)) = true) ∧
      (¬ Alike zero (.string "0") ∧ lessOrEq.holds zero (.string "0") = false) ∧
      "=" ∉ texts ∧ (ofText "=").holds zero zero = false := by
  intro least zero
  obtain ⟨-, -, htrans, halike, hunordered, hother⟩ := operators_are_coherent
  have hfirst : lessOrEq.holds least zero = true := by decide +kernel
  have hsecond : lessOrEq.holds zero (.nat 0) = true := by decide +kernel
  have hleast : Alike least zero := .numbers _ _
  have hsame : eq.holds zero (.number (.float default)) = true := by decide +kernel
  have hmixed : ¬ Alike zero (.string "0") := by
    show ¬ Alike (.number (.float Double.negativeZero)) (.string "0")
    intro h
    cases h
  have hequals : "=" ∉ texts := by decide
  obtain ⟨-, hless, -⟩ := halike least zero hleast
  obtain ⟨-, -, hboth⟩ := halike zero (.number (.float default)) (.numbers _ _)
  exact ⟨⟨hfirst, hsecond, htrans _ _ _ hfirst hsecond⟩, ⟨hleast, hless⟩, ⟨hsame, (hboth hsame).2⟩,
    ⟨hmixed, hunordered _ _ hmixed lessOrEq (by decide)⟩, hequals, hother "=" hequals zero zero⟩

end EditorLink.Registry.Operator
