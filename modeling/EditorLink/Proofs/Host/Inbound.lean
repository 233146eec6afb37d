import EditorLink.Extension.Handling
import EditorLink.Proofs.Keyed

/-!
# EditorLink.Proofs.Host.Inbound -- arguments that are absent, null or too many

A method of the host has so many positional arguments (`Notification.arity`, `Request.arity`), and reading it looks at these and at no others
(`Notification.read_congr`, `Request.read_congr`). An argument that is absent is looked at as if it were null. So a host may drop nulls at the
end or send them, and may send more than a method has: it is understood in the same way, and refused for the same reason.

A key press goes through its positional form unchanged, and the event that filters see has the same seven parts under their names.
-/

namespace EditorLink.Host

variable {method : String} {args args' : List Value}

/-! ## Positions -/

theorem argument_of_le {i : Nat} (h : args.length ≤ i) : argument args i = .null := by
  rw [argument, List.getElem?_eq_none h]
  rfl

theorem argument_append_of_lt {i : Nat} (h : i < args.length) (more : List Value) : argument (args ++ more) i = argument args i := by
  rw [argument, argument, List.getElem?_append_left h]

/-- A null at the end is as good as no argument. -/
theorem argument_append_nulls (args : List Value) (count i : Nat) : argument (args ++ List.replicate count .null) i = argument args i := by
  by_cases hi : i < args.length
  · exact argument_append_of_lt hi _
  · have hle : args.length ≤ i := Nat.le_of_not_lt hi
    rw [argument_of_le hle, argument, List.getElem?_append_right hle, List.getElem?_replicate]
    split <;> rfl

/-! ## What a method looks at -/

/-- The numbers of arguments of the four notifications. -/
def Notification.arities : Keyed Nat :=
  [("runCommand", 2), ("commandEvent", 2), ("focusChanged", 1), ("InputDialog.textValueChanged", 2)]

/-- The number of arguments that a notification looks at; none if it is not one of the four. -/
def Notification.arity (method : String) : Nat :=
  (Notification.arities.get? method).getD 0

/-- The numbers of arguments of the four requests. -/
def Request.arities : Keyed Nat :=
  [("askContext", 3), ("eventFilter", 2), ("keyEventFilter", 7), ("cmdEventFilter", 2)]

/-- The number of arguments that a request looks at; none if it is not one of the four. -/
def Request.arity (method : String) : Nat :=
  (Request.arities.get? method).getD 0

theorem textArg_congr {i : Nat} (h : argument args i = argument args' i) (name : String) : textArg args i name = textArg args' i name := by
  rw [textArg, textArg, h]

theorem fieldsArg_congr {i : Nat} (h : argument args i = argument args' i) (name : String) :
    fieldsArg args i name = fieldsArg args' i name := by
  rw [fieldsArg, fieldsArg, h]

theorem naturalArg_congr {i : Nat} (h : argument args i = argument args' i) (name : String) :
    naturalArg args i name = naturalArg args' i name := by
  rw [naturalArg, naturalArg, h]

theorem flagArg_congr {i : Nat} (h : argument args i = argument args' i) : flagArg args i = flagArg args' i := by
  rw [flagArg, flagArg, h]

theorem KeyPress.ofArgs_congr (h : ∀ i < 7, argument args i = argument args' i) : KeyPress.ofArgs args = KeyPress.ofArgs args' := by
  rw [KeyPress.ofArgs, KeyPress.ofArgs, textArg_congr (h 0 (by decide)), h 1 (by decide), flagArg_congr (h 2 (by decide)),
    flagArg_congr (h 3 (by decide)), flagArg_congr (h 4 (by decide)), flagArg_congr (h 5 (by decide)), flagArg_congr (h 6 (by decide))]

/-- A notification is read from its own arguments. -/
theorem Notification.read_congr (h : ∀ i < Notification.arity method, argument args i = argument args' i) :
    Notification.read method args = Notification.read method args' := by
  rw [Notification.read.eq_def, Notification.read.eq_def]
  split
  · next hmethod =>
    subst hmethod
    rw [textArg_congr (h 0 (by decide)), fieldsArg_congr (h 1 (by decide))]
  split
  · next hmethod =>
    subst hmethod
    rw [textArg_congr (h 0 (by decide)), h 1 (by decide)]
  split
  · next hmethod =>
    subst hmethod
    rw [h 0 (by decide)]
  split
  · next hmethod =>
    subst hmethod
    rw [naturalArg_congr (h 0 (by decide)), h 1 (by decide)]
  · rfl

/-- A request is read from its own arguments. -/
theorem Request.read_congr (h : ∀ i < Request.arity method, argument args i = argument args' i) :
    Request.read method args = Request.read method args' := by
  rw [Request.read.eq_def, Request.read.eq_def]
  split
  · next hmethod =>
    subst hmethod
    rw [textArg_congr (h 0 (by decide)), textArg_congr (h 1 (by decide)), h 2 (by decide)]
  split
  · next hmethod =>
    subst hmethod
    rw [textArg_congr (h 0 (by decide)), fieldsArg_congr (h 1 (by decide))]
  split
  · next hmethod =>
    subst hmethod
    rw [KeyPress.ofArgs_congr h]
  split
  · next hmethod =>
    subst hmethod
    rw [textArg_congr (h 0 (by decide)), h 1 (by decide)]
  · rfl

/-! ## Key presses -/

namespace KeyPress

/-- The names of the parts of a key press, in the order of its positional form. -/
def partNames : List String :=
  ["type", "key", "repeat", "altKey", "ctrlKey", "metaKey", "shiftKey"]

/-- A key press reads back from its positional form. -/
theorem ofArgs_toArgs (k : KeyPress) : KeyPress.ofArgs k.toArgs = .ok k := rfl

theorem read_toArgs (k : KeyPress) : Request.read "keyEventFilter" k.toArgs = .ok (some (.keyEventFilter k)) := rfl

/-- The fields of the event are the seven parts under their names, in the order of the names. -/
theorem parts_perm_toFields (k : KeyPress) : (partNames.zip k.toArgs).Perm k.toFields := by
  let part (i : Nat) : String × Value := (partNames.zip k.toArgs).getD i default
  have hplaces : [0, 1, 2, 3, 4, 5, 6].Perm [3, 4, 1, 5, 2, 6, 0] := by decide
  exact hplaces.map part

theorem ordered_toFields (k : KeyPress) : Keyed.Ordered k.toFields := by
  have hkeys : k.toFields.keys.Pairwise (· < ·) := by
    show ["altKey", "ctrlKey", "key", "metaKey", "repeat", "shiftKey", "type"].Pairwise (· < ·)
    decide
  exact List.pairwise_map.mp hkeys

end KeyPress

/-! ## Padding and cutting -/

/-- **Arguments are padded with nulls, and cut to those that a method has.** Whatever the method is, nulls at the end change nothing about
what is read, or about why it is refused; and behind as many arguments as the method has, nothing else does either. A key press is read from
its positional form as it was, and what sets off the filters is an event with exactly the seven parts under their names. -/
theorem arguments_are_padded_and_cut :
    (∀ method args count,
      Notification.read method (args ++ List.replicate count .null) = Notification.read method args ∧
      Request.read method (args ++ List.replicate count .null) = Request.read method args) ∧
    (∀ method args more, Notification.arity method ≤ args.length →
      Notification.read method (args ++ more) = Notification.read method args) ∧
    (∀ method args more, Request.arity method ≤ args.length → Request.read method (args ++ more) = Request.read method args) ∧
    ∀ k : KeyPress,
      Request.read "keyEventFilter" k.toArgs = .ok (some (.keyEventFilter k)) ∧
      Extension.Handling.request "keyEventFilter" k.toArgs =
        .newEvent k.toFields (fun event => .any k.type event Extension.Handling.truth) ∧
      (KeyPress.partNames.zip k.toArgs).Perm k.toFields ∧ Keyed.Ordered k.toFields := by
  refine ⟨fun method args count => ⟨?_, ?_⟩, fun method args more h => ?_, fun method args more h => ?_, fun k => ⟨?_, ?_, ?_, ?_⟩⟩
  · apply Notification.read_congr
    intro i _
    exact argument_append_nulls args count i
  · apply Request.read_congr
    intro i _
    exact argument_append_nulls args count i
  · apply Notification.read_congr
    intro i hi
    exact argument_append_of_lt (Nat.lt_of_lt_of_le hi h) more
  · apply Request.read_congr
    intro i hi
    exact argument_append_of_lt (Nat.lt_of_lt_of_le hi h) more
  · exact k.read_toArgs
  · rw [Extension.Handling.request, k.read_toArgs]
    rfl
  · exact k.parts_perm_toFields
  · exact k.ordered_toFields

/-- A command with an argument too many runs as without it, a filter whose event is a text is refused for the same reason, and a method that
nobody knows stays unknown. -/
theorem surplus_arguments_are_passed_over :
    (Notification.arity "runCommand" ≤ 2 ∧
      Notification.read "runCommand" ([.string "save", .null] ++ [.bool true]) = .ok (some (.runCommand "save" []))) ∧
    (Request.arity "eventFilter" ≤ 2 ∧
      Request.read "eventFilter" ([.string "focus", .string "view"] ++ [.null, .nat 1]) = .error (missing "event")) ∧
    Request.arity "reload" ≤ 0 ∧ (Request.read "reload" ([] ++ [.bool true]) = .ok none) := by
  obtain ⟨-, hnotification, hrequest, -⟩ := arguments_are_padded_and_cut
  have hcommand : Notification.arity "runCommand" ≤ 2 := by decide
  have hfilter : Request.arity "eventFilter" ≤ 2 := by decide
  have hunknown : Request.arity "reload" ≤ 0 := by decide
  refine ⟨⟨hcommand, ?_⟩, ⟨hfilter, ?_⟩, hunknown, ?_⟩
  · rw [hnotification _ _ _ hcommand]
    rfl
  · rw [hrequest _ _ _ hfilter]
    rfl
  · rw [hrequest _ _ _ hunknown]
    rfl

end EditorLink.Host
