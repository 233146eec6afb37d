import Mathlib
import EditorLink.Proofs.Json.RoundTrip
import EditorLink.Proofs.Message
import EditorLink.Proofs.Wire.Runs

/-!
# EditorLink.Proofs.Wire.Lines -- messages on lines, there and back

The text of a message has no line break, so in a stream of lines every newline ends a line, and a line ends nowhere else
(`newline_ends_encoding`). What stands on the line is the text of an array, from bracket to bracket, which trimming leaves alone and which
reads back as the message (`Lined.carries`). Hence a list of messages is delivered from any way to cut the stream of their lines, also inside
a character or an escape (`lines_arrive`).
-/

namespace EditorLink.Wire

open Text (isBlank trim trimStart trimEnd)

/-! ## Texts on lines -/

theorem newline_not_mem_print (v : Value) : newline ∉ Bytes.ofText (Json.print v) := by
  intro h
  have hchar : '\n' ∈ Json.chars v := by
    have := Bytes.newline_mem_ofText.mp h
    rwa [Json.print, String.toList_ofList] at this
  have hprintable := Json.printable_chars v '\n' hchar
  exact absurd hprintable (by decide)

/-- **A message is one line.** Its encoding has one newline, which is its last byte. -/
theorem newline_ends_encoding (m : Message) :
    (encode .json m).count newline = 1 ∧ (encode .json m).getLast? = some newline := by
  have hcount := List.count_eq_zero_of_not_mem (newline_not_mem_print m.toValue)
  have hencode : encode .json m = Bytes.ofText (Json.print m.toValue) ++ [newline] := rfl
  rw [hencode, List.count_append, hcount]
  simp

/-- Trimming leaves alone what is not blank at either end. -/
theorem trim_of_ends {a b : Char} (ha : isBlank a = false) (hb : isBlank b = false) (cs : List Char) :
    trim (a :: cs ++ [b]) = a :: cs ++ [b] := by
  have hstart : trimStart (a :: cs ++ [b]) = a :: cs ++ [b] := by simp [trimStart, ha]
  rw [trim, hstart, trimEnd, List.reverse_append]
  simp [hb]

/-- The wire value of a message is an array, whose text goes from bracket to bracket. -/
theorem trim_chars_toValue (m : Message) : trim (Json.chars m.toValue) = Json.chars m.toValue := by
  obtain ⟨items, hitems⟩ : ∃ items, m.toValue = .array items := by
    cases m with
    | request id method args => exact ⟨_, rfl⟩
    | reply id outcome => cases outcome <;> exact ⟨_, rfl⟩
    | notify method args => exact ⟨_, rfl⟩
  rw [hitems, Json.chars_array]
  exact trim_of_ends (by decide) (by decide) _

/-! ## Lines in a stream -/

/-- A message that a line carries: it is in order, not too deep, its floats are read as they are printed, and its text is short enough. -/
structure Lined (limit : Nat) (m : Message) : Prop where
  notNullFailure : ¬ m.IsNullFailure
  wellFormed : m.toValue.WellFormed
  depth : m.toValue.depth ≤ 127
  floats : ∀ x, Value.Part (.number (.float x)) m.toValue → x.ReadsBack
  length : (Bytes.ofText (Json.print m.toValue)).length ≤ limit

/-- A line of at most `limit` bytes and its newline, on which a message is read. -/
inductive OnLine (limit : Nat) : Bytes → Message → Prop where
  | line {text m} : newline ∉ text → text.length ≤ limit → readLine text = .ok (some m) → OnLine limit (text ++ [newline]) m

theorem Lined.onLine {limit : Nat} {m : Message} (h : Lined limit m) : OnLine limit (encode .json m) m := by
  refine .line (newline_not_mem_print m.toValue) h.length ?_
  have htext : (Json.print m.toValue).toList = Json.chars m.toValue := by rw [Json.print, String.toList_ofList]
  have hread := Json.read?_chars h.wellFormed h.floats h.depth
  have hfull : (Json.chars m.toValue).isEmpty = false := by
    obtain ⟨c, cs, hcons, -⟩ := Json.opens_chars h.floats
    rw [hcons]
    rfl
  rw [readLine, Bytes.text?_ofText]
  simp only [htext, trim_chars_toValue, hfull, hread, Message.ofValue_toValue h.notNullFailure]
  rfl

namespace Decoder

theorem splitLine?_of_not_mem {text : Bytes} (h : newline ∉ text) (taken : Bytes) : splitLine? taken text = none := by
  induction text generalizing taken with
  | nil => rfl
  | cons b text ih =>
    obtain ⟨hb, htext⟩ := List.ne_and_not_mem_of_not_mem_cons h
    rw [splitLine?, if_neg (Ne.symm hb)]
    exact ih htext (b :: taken)

theorem splitLine?_of_line {text : Bytes} (h : newline ∉ text) (taken rest : Bytes) :
    splitLine? taken (text ++ newline :: rest) = some (text.reverse ++ taken, rest) := by
  induction text generalizing taken with
  | nil => rw [List.nil_append, splitLine?, if_pos rfl]; rfl
  | cons b text ih =>
    obtain ⟨hb, htext⟩ := List.ne_and_not_mem_of_not_mem_cons h
    rw [List.cons_append, splitLine?, if_neg (Ne.symm hb), ih htext]
    simp

theorem firstLine_of_not_mem {text : Bytes} (h : newline ∉ text) : firstLine text = (none, text) := by
  rw [firstLine]
  split
  · rfl
  · next hsplit =>
    rw [splitLine?_of_not_mem h] at hsplit
    cases hsplit

/-- A line that is there is read, and passed over if it is blank. -/
theorem firstLine_of_line {text : Bytes} (h : newline ∉ text) (rest : Bytes) :
    firstLine (text ++ newline :: rest) =
      match readLine text with
      | .ok none => firstLine rest
      | .ok (some m) => (some (.ok m), rest)
      | .error e => (some (.error e), rest) := by
  rw [firstLine]
  split
  · next hsplit =>
    rw [splitLine?_of_line h] at hsplit
    cases hsplit
  · next line after hsplit =>
    rw [splitLine?_of_line h] at hsplit
    obtain ⟨rfl, rfl⟩ := Prod.mk.inj (Option.some.inj hsplit)
    rewrite [List.append_nil, List.reverse_reverse]
    rfl

/-- A decoder of lines. -/
structure OfLines (limit : Nat) (d : Decoder) : Prop where
  format : d.format = .json
  limit : d.limit = limit

variable {limit : Nat} {d : Decoder}

theorem OfLines.next_eq (h : OfLines limit d) : d.next = d.nextLine := by
  rw [next, h.format]

theorem OfLines.next_part (h : OfLines limit d) (hpart : newline ∉ d.buffer) (hlength : d.buffer.length ≤ limit) :
    d.next = (.more, d) := by
  have hfits : ¬ d.limit < d.buffer.length := by
    rw [h.limit]
    exact Nat.not_lt.mpr hlength
  rw [h.next_eq, nextLine, firstLine_of_not_mem hpart]
  exact if_neg hfits

/-- A decoder with a part of a line waits for the rest of it. -/
theorem OfLines.waits (h : OfLines limit d) (hpart : newline ∉ d.buffer) (hlength : d.buffer.length ≤ limit) :
    ∃ d', d.next = (.more, d') ∧ d'.buffer = d.buffer ∧ OfLines limit d' :=
  ⟨d, h.next_part hpart hlength, rfl, h⟩

/-- Lines carry messages to decoders of lines. -/
theorem framing_lines (limit : Nat) : Framing (OfLines limit) (OnLine limit) where
  feed := fun d chunk hd => ⟨hd.format, hd.limit⟩
  empty := by
    intro d hd hbuffer
    obtain ⟨d', hnext, hsame, hd'⟩ := hd.waits (by simp [hbuffer]) (by simp [hbuffer])
    exact ⟨d', hnext, hsame.trans hbuffer, hd'⟩
  part := by
    intro d m missing hd hline hmissing
    generalize hframe : d.buffer ++ missing = frame at hline
    cases hline with
    | @line text _ htext hlength _ =>
      -- what is missing ends with the newline
      obtain ⟨before, last, rfl⟩ := (List.eq_nil_or_concat missing).resolve_left hmissing
      rw [List.concat_eq_append, ← List.append_assoc] at hframe
      obtain ⟨rfl, -⟩ := List.append_inj' hframe rfl
      rw [List.length_append] at hlength
      exact hd.waits (fun h => htext (List.mem_append_left _ h)) (by omega)
  whole := by
    intro d frame m more hd hline hbuffer
    cases hline with
    | line htext hlength hread =>
      rw [List.append_assoc, List.singleton_append] at hbuffer
      refine ⟨{ d with buffer := more }, ?_, rfl, hd.format, hd.limit⟩
      rw [hd.next_eq, nextLine, hbuffer, firstLine_of_line htext, hread]

/-- A decoder of lines to which nothing has arrived. -/
def forLines (limit : Nat) : Decoder :=
  { format := .json, limit }

/-- **Messages on lines arrive as they were sent.** Every message is one line; and however the stream of lines is cut into chunks,
decoding delivers exactly the messages, does not fail, and leaves nothing. -/
theorem lines_arrive (limit : Nat) (messages : List Message) (chunks : List Bytes)
    (hlined : ∀ m ∈ messages, Lined limit m) (hstream : chunks.flatten = encodeAll .json messages) :
    (∀ m, (encode .json m).count newline = 1 ∧ (encode .json m).getLast? = some newline) ∧
      ∃ d, (forLines limit).overChunks chunks = ⟨messages, none, d⟩ ∧ d.buffer = [] := by
  have hcarries : ∀ m ∈ messages, OnLine limit (encode .json m) m := by
    intro m hm
    exact (hlined m hm).onLine
  have hd : OfLines limit (forLines limit) := ⟨rfl, rfl⟩
  obtain ⟨d, hrun, hbuffer, -⟩ := (framing_lines limit).deliver hcarries hd rfl hstream
  exact ⟨newline_ends_encoding, d, hrun, hbuffer⟩

/-- A request and a reply, cut inside a character and inside an escape; the reply is a float. -/
theorem two_lines_arrive_in_three_chunks :
    let messages : List Message := [
      .request 1 "f" [.string "é\n", .number (.negative ⟨2 ^ 63 - 1, by decide⟩)],
      .reply 7 (.ok (.number (.float ⟨0x3ff8000000000000, by decide⟩)))]
    let chunks : List Bytes := [
      [0x5b, 0x30, 0x2c, 0x31, 0x2c, 0x22, 0x66, 0x22, 0x2c, 0x5b, 0x22, 0xc3],
      [0xa9, 0x5c],
      [0x6e, 0x22, 0x2c, 0x2d, 0x39, 0x32, 0x32, 0x33, 0x33, 0x37, 0x32, 0x30, 0x33, 0x36, 0x38, 0x35, 0x34, 0x37, 0x37, 0x35, 0x38,
        0x30, 0x38, 0x5d, 0x5d, 0x0a, 0x5b, 0x31, 0x2c, 0x37, 0x2c, 0x6e, 0x75, 0x6c, 0x6c, 0x2c, 0x31, 0x2e, 0x35, 0x5d, 0x0a]]
    ((∀ m ∈ messages, Lined 64 m) ∧ chunks.flatten = encodeAll .json messages) ∧
      (∀ m, (encode .json m).count newline = 1 ∧ (encode .json m).getLast? = some newline) ∧
      ∃ d, (forLines 64).overChunks chunks = ⟨messages, none, d⟩ ∧ d.buffer = [] := by
  intro messages chunks
  have hfloat : (⟨0x3ff8000000000000, by decide⟩ : Double).ReadsBack := by
    rw [Double.ReadsBack]
    decide +kernel
  have hlined : ∀ m ∈ messages, Lined 64 m := by
    simp only [messages, List.forall_mem_cons, List.not_mem_nil, false_implies, implies_true, and_true]
    constructor
    · refine ⟨id, ?_, by decide, ?_, by cbv⟩
      · simp [Message.toValue, Value.nat, Value.WellFormed.number, Value.WellFormed.string]
      · simp [Message.toValue, Value.nat]
    · refine ⟨id, ?_, by decide, ?_, by cbv⟩
      · simp [Message.toValue, Value.nat, Value.WellFormed.null, Value.WellFormed.number]
      · simp [Message.toValue, Value.nat, hfloat]
  have hstream : chunks.flatten = encodeAll .json messages := by
    cbv
  exact ⟨⟨hlined, hstream⟩, lines_arrive 64 messages chunks hlined hstream⟩

end Decoder
end EditorLink.Wire
