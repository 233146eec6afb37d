import EditorLink.Message

/-!
# EditorLink.Proofs.Message -- messages and their wire values, there and back

The values that stand for a message are arrays of three shapes (`Shaped`), and `Writes` says which message each of them stands for. Many
values may write one message; the message's own wire value is one of them, unless the message is a failure with the payload null
(`ofValue_toValue`). A value that stands for no message is refused for what it is: it has a wrong shape, or it is of an unknown kind
(`fault_of_ofValue`).
-/

namespace EditorLink.Message

/-- A failure with the payload null. It looks like a reply with the result null. -/
def IsNullFailure : Message → Prop
  | reply _ (.error .null) => True
  | _ => False

theorem readId_nat (id : UInt32) : readId (.nat id.toUInt64) = .ok id := by
  have hlt : id.toUInt64.toNat < 0x1_0000_0000 := by simpa using id.toNat_lt
  rw [readId]
  simp only [Value.nat, Value.natural?]
  rw [if_pos hlt]
  simp

/-! ## Accepted values -/

/-- The arrays that stand for a message. Kind and id are naturals and nothing else, and the id has thirty-two bits. -/
inductive Shaped : Value → Prop
  | request {id : UInt64} (small : id.toNat ≤ 0xFFFF_FFFF) (method : String) (args : Value) :
      Shaped (.array [.nat 0, .nat id, .string method, args])
  | reply {id : UInt64} (small : id.toNat ≤ 0xFFFF_FFFF) (error result : Value) : Shaped (.array [.nat 1, .nat id, error, result])
  | notify (method : String) (args : Value) : Shaped (.array [.nat 2, .string method, args])

/-- The value writes the message, be it in the message's own way or in another one. -/
inductive Writes : Value → Message → Prop
  | request (id : UInt32) (method : String) (args : Value) :
      Writes (.array [.nat 0, .nat id.toUInt64, .string method, args]) (.request id method (readArgs args))
  | reply (id : UInt32) (error result : Value) :
      Writes (.array [.nat 1, .nat id.toUInt64, error, result]) (.reply id (readOutcome error result))
  | notify (method : String) (args : Value) : Writes (.array [.nat 2, .string method, args]) (.notify method (readArgs args))

theorem natural?_eq_some_iff {v : Value} {n : UInt64} : v.natural? = some n ↔ v = .nat n := by
  constructor
  · intro h
    rw [Value.natural?.eq_def] at h
    split at h
    · obtain rfl := Option.some.inj h
      rfl
    · cases h
  · rintro rfl
    rfl

/-- An id that fits thirty-two bits is kept by them. -/
theorem widened_narrowed {n : UInt64} (h : n.toNat < 0x1_0000_0000) : n.toUInt32.toUInt64 = n := by
  apply UInt64.toNat_inj.mp
  rw [UInt32.toNat_toUInt64, UInt64.toNat_toUInt32]
  exact Nat.mod_eq_of_lt h

theorem readId_eq_ok_iff {v : Value} {id : UInt32} : readId v = .ok id ↔ v = .nat id.toUInt64 := by
  constructor
  · intro h
    rw [readId] at h
    split at h
    · next n hn =>
      split at h
      · next hsmall =>
        obtain rfl := Except.ok.inj h
        rw [natural?_eq_some_iff.mp hn, widened_narrowed hsmall]
      · cases h
    · cases h
  · rintro rfl
    exact readId_nat id

theorem readMethod_eq_ok_iff {v : Value} {method : String} : readMethod v = .ok method ↔ v = .string method := by
  constructor
  · intro h
    rw [readMethod.eq_def] at h
    split at h
    · obtain rfl := Except.ok.inj h
      rfl
    · cases h
  · rintro rfl
    rfl

/-- Two readers one after the other have both read. -/
theorem ok_of_bind {α β : Type} {first : Except ProtocolError α} {second : α → Except ProtocolError β} {b : β}
    (h : first >>= second = .ok b) : ∃ a, first = .ok a ∧ second a = .ok b := by
  cases first with
  | error e => cases h
  | ok a => exact ⟨a, rfl, h⟩

theorem readRequest_eq_ok {items : List Value} {m : Message} (h : readRequest items = .ok m) :
    ∃ kind id method args, items = [kind, .nat id.toUInt64, .string method, args] ∧ m = .request id method (readArgs args) := by
  rw [readRequest.eq_def] at h
  split at h
  · next kind idSlot methodSlot args =>
    obtain ⟨id, hid, h⟩ := ok_of_bind h
    obtain ⟨method, hmethod, h⟩ := ok_of_bind h
    obtain rfl := Except.ok.inj h
    rw [readId_eq_ok_iff] at hid
    rw [readMethod_eq_ok_iff] at hmethod
    subst hid hmethod
    exact ⟨kind, id, method, args, rfl, rfl⟩
  · cases h

theorem readReply_eq_ok {items : List Value} {m : Message} (h : readReply items = .ok m) :
    ∃ kind id error result, items = [kind, .nat id.toUInt64, error, result] ∧ m = .reply id (readOutcome error result) := by
  rw [readReply.eq_def] at h
  split at h
  · next kind idSlot error result =>
    obtain ⟨id, hid, h⟩ := ok_of_bind h
    obtain rfl := Except.ok.inj h
    rw [readId_eq_ok_iff] at hid
    subst hid
    exact ⟨kind, id, error, result, rfl, rfl⟩
  · cases h

theorem readNotify_eq_ok {items : List Value} {m : Message} (h : readNotify items = .ok m) :
    ∃ kind method args, items = [kind, .string method, args] ∧ m = .notify method (readArgs args) := by
  rw [readNotify.eq_def] at h
  split at h
  · next kind methodSlot args =>
    obtain ⟨method, hmethod, h⟩ := ok_of_bind h
    obtain rfl := Except.ok.inj h
    rw [readMethod_eq_ok_iff] at hmethod
    subst hmethod
    exact ⟨kind, method, args, rfl, rfl⟩
  · cases h

/-- **What is read is what is written.** -/
theorem ofValue_eq_ok_iff {v : Value} {m : Message} : ofValue v = .ok m ↔ Writes v m := by
  constructor
  · intro h
    rw [ofValue.eq_def] at h
    split at h
    · next items =>
      split at h
      · cases h
      · next kind hkind =>
        -- the first element is the kind
        have hfirst : ∀ {first : Value} {rest : List Value}, items = first :: rest → first = .nat kind := by
          rintro first rest rfl
          exact natural?_eq_some_iff.mp hkind
        split at h
        · obtain ⟨first, id, method, args, rfl, rfl⟩ := readRequest_eq_ok h
          obtain rfl := hfirst rfl
          subst kind
          exact .request id method args
        split at h
        · obtain ⟨first, id, error, result, rfl, rfl⟩ := readReply_eq_ok h
          obtain rfl := hfirst rfl
          subst kind
          exact .reply id error result
        split at h
        · obtain ⟨first, method, args, rfl, rfl⟩ := readNotify_eq_ok h
          obtain rfl := hfirst rfl
          subst kind
          exact .notify method args
        · cases h
    · cases h
  · intro h
    cases h with
    | request id method args =>
      show readRequest [.nat 0, .nat id.toUInt64, .string method, args] = _
      simp [readRequest, readId_nat, readMethod, bind, Except.bind, pure, Except.pure]
    | reply id error result =>
      show readReply [.nat 1, .nat id.toUInt64, error, result] = _
      simp [readReply, readId_nat, bind, Except.bind, pure, Except.pure]
    | notify method args =>
      show readNotify [.nat 2, .string method, args] = _
      simp [readNotify, readMethod, bind, Except.bind, pure, Except.pure]

/-- The array that a message is written as writes that message. -/
theorem writes_toValue {m : Message} (h : ¬ m.IsNullFailure) : Writes m.toValue m := by
  cases m with
  | request id method args => exact .request id method (.array args)
  | notify method args => exact .notify method (.array args)
  | reply id outcome =>
    cases outcome with
    | ok result => exact .reply id .null result
    | error payload =>
      have houtcome : readOutcome payload .null = .error payload := by
        cases payload with
        | null => exact absurd trivial h
        | _ => rfl
      show Writes (.array [.nat 1, .nat id.toUInt64, payload, .null]) (.reply id (.error payload))
      rw [← houtcome]
      exact .reply id payload .null

/-- A message is what its wire value stands for. -/
theorem ofValue_toValue {m : Message} (h : ¬ m.IsNullFailure) : ofValue m.toValue = .ok m :=
  ofValue_eq_ok_iff.mpr (writes_toValue h)

/-- A value has one of the shapes exactly if it writes a message. -/
theorem shaped_iff_writes {v : Value} : Shaped v ↔ ∃ m, Writes v m := by
  constructor
  · intro h
    cases h with
    | request small method args =>
      rw [← widened_narrowed (Nat.lt_succ_of_le small)]
      exact ⟨_, .request _ method args⟩
    | reply small error result =>
      rw [← widened_narrowed (Nat.lt_succ_of_le small)]
      exact ⟨_, .reply _ error result⟩
    | notify method args => exact ⟨_, .notify method args⟩
  · rintro ⟨m, h⟩
    have hsmall : ∀ id : UInt32, id.toUInt64.toNat ≤ 0xFFFF_FFFF := by
      intro id
      have := id.toNat_lt
      simp
      omega
    cases h with
    | request id method args => exact .request (hsmall id) method args
    | reply id error result => exact .reply (hsmall id) error result
    | notify method args => exact .notify method args

/-- A failure that was read has a payload. -/
theorem Writes.not_isNullFailure {v : Value} {m : Message} (h : Writes v m) : ¬ m.IsNullFailure := by
  cases h with
  | request id method args => exact not_false
  | notify method args => exact not_false
  | reply id error result => cases error <;> exact not_false

theorem ofValue_nullFailure (id : UInt32) : ofValue (reply id (.error .null)).toValue = .ok (.reply id (.ok .null)) :=
  ofValue_eq_ok_iff.mpr (.reply id .null .null)

/-! ## Refused values -/

theorem shape_of_readId {v : Value} {e : ProtocolError} (h : readId v = .error e) : ∃ fault, e = .invalidShape fault := by
  rw [readId] at h
  split at h
  · split at h
    · cases h
    · cases h
      exact ⟨_, rfl⟩
  · cases h
    exact ⟨_, rfl⟩

theorem shape_of_readMethod {v : Value} {e : ProtocolError} (h : readMethod v = .error e) :
    ∃ fault, e = .invalidShape fault := by
  rw [readMethod.eq_def] at h
  split at h
  · cases h
  · cases h
    exact ⟨_, rfl⟩

/-- Readers of parts that refuse only wrong shapes may be put one after another. -/
theorem shape_of_bind {α β : Type} {first : Except ProtocolError α} {second : α → Except ProtocolError β} {e : ProtocolError}
    (h : first >>= second = .error e) (hfirst : ∀ e, first = .error e → ∃ fault, e = .invalidShape fault)
    (hsecond : ∀ a e, second a = .error e → ∃ fault, e = .invalidShape fault) : ∃ fault, e = .invalidShape fault := by
  cases hread : first with
  | error e' =>
    rw [hread] at h
    cases h
    exact hfirst e hread
  | ok a =>
    rw [hread] at h
    exact hsecond a e h

theorem shape_of_readRequest {items : List Value} {e : ProtocolError} (h : readRequest items = .error e) :
    ∃ fault, e = .invalidShape fault := by
  rw [readRequest.eq_def] at h
  split at h
  · refine shape_of_bind h (fun _ => shape_of_readId) fun _ _ h => ?_
    exact shape_of_bind h (fun _ => shape_of_readMethod) fun _ _ h => by cases h
  · cases h
    exact ⟨_, rfl⟩

theorem shape_of_readReply {items : List Value} {e : ProtocolError} (h : readReply items = .error e) :
    ∃ fault, e = .invalidShape fault := by
  rw [readReply.eq_def] at h
  split at h
  · exact shape_of_bind h (fun _ => shape_of_readId) fun _ _ h => by cases h
  · cases h
    exact ⟨_, rfl⟩

theorem shape_of_readNotify {items : List Value} {e : ProtocolError} (h : readNotify items = .error e) :
    ∃ fault, e = .invalidShape fault := by
  rw [readNotify.eq_def] at h
  split at h
  · exact shape_of_bind h (fun _ => shape_of_readMethod) fun _ _ h => by cases h
  · cases h
    exact ⟨_, rfl⟩

/-- A value that stands for no message has a wrong shape or an unknown kind. -/
theorem fault_of_ofValue {v : Value} {e : ProtocolError} (h : ofValue v = .error e) :
    (∃ fault, e = .invalidShape fault) ∨ ∃ kind, e = .unknownKind kind := by
  rw [ofValue.eq_def] at h
  split at h
  · split at h
    · cases h
      exact Or.inl ⟨_, rfl⟩
    · split at h
      · exact Or.inl (shape_of_readRequest h)
      split at h
      · exact Or.inl (shape_of_readReply h)
      split at h
      · exact Or.inl (shape_of_readNotify h)
      · cases h
        exact Or.inr ⟨_, rfl⟩
  · cases h
    exact Or.inl ⟨_, rfl⟩

/-! ## There and back -/

/-- **Messages and their wire values are inverse to each other.** A value stands for a message exactly if it has one of three shapes. A message
is what its own wire value stands for, and the only exception is a failure with the payload null, which comes back as the result null. No
value stands for such a failure; so whatever message a value stands for, writing and reading that message again changes nothing. -/
theorem messages_and_values_are_inverse :
    (∀ v, (∃ m, ofValue v = .ok m) ↔ Shaped v) ∧
    (∀ m : Message, ofValue m.toValue = .ok m ↔ ¬ m.IsNullFailure) ∧
    (∀ id, ofValue (reply id (.error .null)).toValue = .ok (.reply id (.ok .null))) ∧
    ∀ v m, ofValue v = .ok m → ¬ m.IsNullFailure ∧ ofValue m.toValue = .ok m := by
  have hread : ∀ {v : Value} {m : Message}, ofValue v = .ok m → ¬ m.IsNullFailure :=
    fun h => (ofValue_eq_ok_iff.mp h).not_isNullFailure
  refine ⟨fun v => ?_, fun m => ⟨hread, ofValue_toValue⟩, ofValue_nullFailure, fun v m h => ⟨hread h, ofValue_toValue (hread h)⟩⟩
  rw [shaped_iff_writes]
  exact exists_congr fun m => ofValue_eq_ok_iff

/-- A request whose argument slot holds a single value, and a failure with a result beside it, are read, written and read again. -/
theorem loosely_written_messages_are_settled :
    let request : Message := .request 7 "askContext" [.bool true]
    let failure : Message := .reply 3 (.error (.string "no such view"))
    (ofValue (.array [.nat 0, .nat 7, .string "askContext", .bool true]) = .ok request ∧
      ¬ request.IsNullFailure ∧ ofValue request.toValue = .ok request) ∧
    ofValue (.array [.nat 1, .nat 3, .string "no such view", .nat 42]) = .ok failure ∧
      ¬ failure.IsNullFailure ∧ ofValue failure.toValue = .ok failure := by
  intro request failure
  obtain ⟨-, -, -, hsettled⟩ := messages_and_values_are_inverse
  have hrequest : ofValue (.array [.nat 0, .nat 7, .string "askContext", .bool true]) = .ok request := rfl
  have hfailure : ofValue (.array [.nat 1, .nat 3, .string "no such view", .nat 42]) = .ok failure := rfl
  exact ⟨⟨hrequest, hsettled _ _ hrequest⟩, hfailure, hsettled _ _ hfailure⟩

end EditorLink.Message
