import Mathlib
import EditorLink.Proofs.Wire.Lines

/-!
# EditorLink.Proofs.Wire.Pieces -- a stream of lines, line by line

Newlines cut a stream into pieces, and each piece stands for a message, for a failure, or, if it is blank, for nothing
(`pieceResult?`). A decoder of lines gives just that, piece after piece (`OfLines.next_line`): what it has to say about a line does
not depend on the lines before it, a bad line costs only itself, and a line is no other when it lacks its newline at the end of the
stream. So decoding a stream whose pieces are within the limit gives `lineResults` of the stream, however the stream was cut into
chunks (`lines_parse_one_by_one`).
-/

namespace EditorLink.Wire

open Text (isBlank trim trimStart trimEnd)

/-! ## Pieces -/

/-- What a piece stands for. A blank one stands for nothing. -/
def pieceResult? (piece : Bytes) : Option (Except ProtocolError Message) :=
  match readLine piece with
  | .ok none => none
  | .ok (some m) => some (.ok m)
  | .error e => some (.error e)

/-- What the pieces between the newlines of a stream stand for, in order. -/
def lineResults (stream : Bytes) : List (Except ProtocolError Message) :=
  (stream.splitOn newline).filterMap pieceResult?

/-- A stream is a piece, or a piece with its newline and a stream after it. -/
theorem lineInduct {P : Bytes → Prop} (last : ∀ piece, newline ∉ piece → P piece)
    (line : ∀ piece rest, newline ∉ piece → P rest → P (piece ++ newline :: rest)) (stream : Bytes) : P stream := by
  induction hlength : stream.length using Nat.strongRecOn generalizing stream with
  | _ length ih =>
    by_cases hmem : newline ∈ stream
    · obtain ⟨piece, rest, rfl, hpiece⟩ := List.eq_append_cons_of_mem hmem
      refine line piece rest hpiece (ih rest.length ?_ rest rfl)
      rw [← hlength, List.length_append, List.length_cons]
      omega
    · exact last stream hmem

theorem splitOn_of_not_mem {piece : Bytes} (h : newline ∉ piece) : piece.splitOn newline = [piece] :=
  List.splitOn_eq_singleton h

theorem splitOn_append_newline (front rest : Bytes) :
    (front ++ newline :: rest).splitOn newline = front.splitOn newline ++ rest.splitOn newline :=
  List.splitOnP_append_cons front rest (by simp)

theorem lineResults_last {piece : Bytes} (h : newline ∉ piece) : lineResults piece = (pieceResult? piece).toList := by
  rw [lineResults, splitOn_of_not_mem h]
  cases hresult : pieceResult? piece <;> simp [hresult]

theorem lineResults_line {piece : Bytes} (h : newline ∉ piece) (rest : Bytes) :
    lineResults (piece ++ newline :: rest) = (pieceResult? piece).toList ++ lineResults rest := by
  rw [lineResults, splitOn_append_newline, List.filterMap_append, ← lineResults, ← lineResults, lineResults_last h]

/-- What a stream starts with, up to a newline at most, is within the limit if the pieces of the stream are. -/
theorem length_le_of_pieces {limit : Nat} {part more : Bytes} (h : newline ∉ part)
    (hshort : ∀ piece ∈ (part ++ more).splitOn newline, piece.length ≤ limit) : part.length ≤ limit := by
  -- the first piece of the stream is that part and what is before the first newline after it
  obtain ⟨own, hown, hmem⟩ : ∃ own, newline ∉ own ∧ part ++ own ∈ (part ++ more).splitOn newline := by
    by_cases hmore : newline ∈ more
    · obtain ⟨own, rest, rfl, hown⟩ := List.eq_append_cons_of_mem hmore
      refine ⟨own, hown, ?_⟩
      rw [← List.append_assoc, splitOn_append_newline, splitOn_of_not_mem (by simp [h, hown])]
      simp
    · refine ⟨more, hmore, ?_⟩
      rw [splitOn_of_not_mem (by simp [h, hmore])]
      simp
  have hlength := hshort _ hmem
  rw [List.length_append] at hlength
  omega

/-! ## Blank pieces -/

theorem trimEnd_eq_nil_iff {cs : List Char} : trimEnd cs = [] ↔ ∀ c ∈ cs, isBlank c = true := by
  rw [trimEnd, List.reverse_eq_nil_iff, List.dropWhile_eq_nil_iff]
  simp

/-- Trimming leaves nothing of a text exactly if all of it is blank. -/
theorem trim_eq_nil_iff {cs : List Char} : trim cs = [] ↔ ∀ c ∈ cs, isBlank c = true := by
  rw [trim, trimEnd_eq_nil_iff, trimStart]
  constructor
  · intro h c hc
    rw [← List.takeWhile_append_dropWhile (p := isBlank) (l := cs)] at hc
    rcases List.mem_append.mp hc with hc | hc
    · exact List.mem_takeWhile_imp hc
    · exact h c hc
  · intro h c hc
    exact h c ((List.dropWhile_sublist isBlank).mem hc)

/-- A piece stands for nothing exactly if it is a text of blank characters. -/
theorem pieceResult?_eq_none_iff {piece : Bytes} :
    pieceResult? piece = none ↔ ∃ s, Bytes.text? piece = some s ∧ ∀ c ∈ s.toList, isBlank c = true := by
  unfold pieceResult? readLine
  cases htext : Bytes.text? piece with
  | none => simp
  | some s =>
    simp only [Option.some.injEq, exists_eq_left', ← trim_eq_nil_iff]
    cases htrim : trim s.toList with
    | nil => simp
    | cons c cs =>
      simp only [List.isEmpty_cons, Bool.false_eq_true, if_false, reduceCtorEq, iff_false]
      cases Json.read? (c :: cs) with
      | none => simp
      | some v =>
        cases hmessage : Message.ofValue v <;> simp [hmessage, Except.map]

@[simp]
theorem pieceResult?_nil : pieceResult? [] = none :=
  pieceResult?_eq_none_iff.mpr ⟨"", rfl, by simp⟩

namespace Decoder

/-! ## One line -/

theorem answer_injective {r r' : Except ProtocolError Message} (h : answer r = answer r') : r = r' := by
  cases r <;> cases r' <;> simp_all [answer]

theorem answer_ne_more (r : Except ProtocolError Message) : answer r ≠ .more := by
  cases r <;> simp [answer]

theorem firstLine_line {piece : Bytes} (h : newline ∉ piece) (rest : Bytes) :
    firstLine (piece ++ newline :: rest) =
      match pieceResult? piece with
      | none => firstLine rest
      | some r => (some r, rest) := by
  rw [firstLine_of_line h, pieceResult?]
  cases readLine piece with
  | error e => rfl
  | ok found => cases found <;> rfl

variable {limit : Nat} {d : Decoder}

theorem OfLines.buffered (h : OfLines limit d) (bytes : Bytes) : OfLines limit { d with buffer := bytes } :=
  ⟨h.format, h.limit⟩

/-- A line is taken off the buffer, whatever it holds; a blank one is passed over. -/
theorem OfLines.next_line (h : OfLines limit d) {piece rest : Bytes} (hpiece : newline ∉ piece)
    (hbuffer : d.buffer = piece ++ newline :: rest) :
    d.next =
      match pieceResult? piece with
      | none => next { d with buffer := rest }
      | some r => (answer r, { d with buffer := rest }) := by
  rw [h.next_eq, (h.buffered rest).next_eq, nextLine, nextLine, hbuffer, firstLine_line hpiece]
  cases pieceResult? piece with
  | none => rfl
  | some r => cases r <;> rfl

/-- At the end of the stream a line may lack its newline. -/
theorem OfLines.finish_part (h : OfLines limit d) (hpart : newline ∉ d.buffer) (hlength : d.buffer.length ≤ limit) :
    d.finish =
      match pieceResult? d.buffer with
      | none => (.more, { d with buffer := [] })
      | some r => (answer r, { d with buffer := [] }) := by
  rw [finish, h.next_part hpart hlength]
  simp only [h.format]
  obtain ⟨format, bound, scan, buffer⟩ := d
  obtain rfl : format = .json := h.format
  cases buffer with
  | nil => rw [pieceResult?_nil]; rfl
  | cons b bytes =>
    simp only [List.isEmpty_cons, Bool.false_eq_true, if_false]
    rw [pieceResult?]
    cases readLine (b :: bytes) with
    | error e => rfl
    | ok found => cases found <;> rfl

/-! ## Streams -/

/-- Steps one after the other, whether they fail or not, until one asks for more, give these results. -/
inductive Gives (step : Decoder → Decoded × Decoder) : Decoder → List (Except ProtocolError Message) → Decoder → Prop where
  | done {d last} : step d = (.more, last) → Gives step d [] last
  | result {d d' last r results} : step d = (answer r, d') → Gives step d' results last → Gives step d (r :: results) last

/-- A stream that arrives in chunks gives these results. After each chunk come steps until one asks for more, and so they do at the
end of the stream. -/
inductive Reads : Decoder → List Bytes → List (Except ProtocolError Message) → Decoder → Prop where
  | ended {d results last} : Gives finish d results last → Reads d [] results last
  | chunk {d chunk chunks results d' more last} : Gives next (d.feed chunk) results d' → Reads d' chunks more last →
    Reads d (chunk :: chunks) (results ++ more) last

theorem Gives.unique {step : Decoder → Decoded × Decoder} {last last' : Decoder} {results results' : List (Except ProtocolError Message)}
    (h : Gives step d results last) (h' : Gives step d results' last') : results = results' ∧ last = last' := by
  induction h generalizing results' last' with
  | done hstep =>
    cases h' with
    | done hstep' =>
      obtain ⟨-, rfl⟩ := Prod.mk.inj (hstep.symm.trans hstep')
      exact ⟨rfl, rfl⟩
    | result hstep' _ =>
      obtain ⟨hmore, -⟩ := Prod.mk.inj (hstep.symm.trans hstep')
      exact absurd hmore.symm (answer_ne_more _)
  | result hstep _ ih =>
    cases h' with
    | done hstep' =>
      obtain ⟨hmore, -⟩ := Prod.mk.inj (hstep.symm.trans hstep')
      exact absurd hmore (answer_ne_more _)
    | result hstep' hrest' =>
      obtain ⟨hanswer, rfl⟩ := Prod.mk.inj (hstep.symm.trans hstep')
      obtain rfl := answer_injective hanswer
      obtain ⟨rfl, rfl⟩ := ih hrest'
      exact ⟨rfl, rfl⟩

theorem Reads.unique {chunks : List Bytes} {last last' : Decoder} {results results' : List (Except ProtocolError Message)}
    (h : Reads d chunks results last) (h' : Reads d chunks results' last') : results = results' ∧ last = last' := by
  induction h generalizing results' last' with
  | ended hgives =>
    cases h' with
    | ended hgives' => exact hgives.unique hgives'
  | chunk hgives _ ih =>
    cases h' with
    | chunk hgives' hrest' =>
      obtain ⟨rfl, rfl⟩ := hgives.unique hgives'
      obtain ⟨rfl, rfl⟩ := ih hrest'
      exact ⟨rfl, rfl⟩

/-- Steps start as they would from another decoder. -/
theorem Gives.of_step_eq {step : Decoder → Decoded × Decoder} {d' last : Decoder} {results : List (Except ProtocolError Message)}
    (hstep : step d = step d') (h : Gives step d' results last) : Gives step d results last := by
  cases h with
  | done hmore => exact .done (hstep.trans hmore)
  | result hresult hrest => exact .result (hstep.trans hresult) hrest

/-- What one line gives, and then what follows it. -/
theorem OfLines.gives_line (h : OfLines limit d) {piece rest : Bytes} (hpiece : newline ∉ piece)
    (hbuffer : d.buffer = piece ++ newline :: rest) {results : List (Except ProtocolError Message)} {last : Decoder}
    (hrest : Gives next { d with buffer := rest } results last) :
    Gives next d ((pieceResult? piece).toList ++ results) last := by
  have hnext := h.next_line hpiece hbuffer
  cases hresult : pieceResult? piece with
  | none =>
    rw [hresult] at hnext
    exact hrest.of_step_eq hnext
  | some r =>
    rw [hresult] at hnext
    exact .result hnext hrest

/-- A decoder of lines gives what the complete lines in its buffer stand for, and keeps the part of a line after them. -/
theorem OfLines.gives (h : OfLines limit d) {more : Bytes}
    (hshort : ∀ piece ∈ (d.buffer ++ more).splitOn newline, piece.length ≤ limit) :
    ∃ results part, Gives next d results { d with buffer := part } ∧ newline ∉ part ∧
      lineResults (d.buffer ++ more) = results ++ lineResults (part ++ more) ∧
      ∀ piece ∈ (part ++ more).splitOn newline, piece.length ≤ limit := by
  generalize hbuffer : d.buffer = buffer at hshort
  induction buffer using lineInduct generalizing d with
  | last part hpart =>
    subst hbuffer
    exact ⟨[], d.buffer, .done (h.next_part hpart (length_le_of_pieces hpart hshort)), hpart, rfl, hshort⟩
  | line piece rest hpiece ih =>
    have hstream : piece ++ newline :: rest ++ more = piece ++ newline :: (rest ++ more) := by simp
    rw [hstream, splitOn_append_newline] at hshort
    obtain ⟨results, part, hgives, hpart, hresults, hleft⟩ :=
      ih (h.buffered rest) rfl fun p hp => hshort p (List.mem_append_right _ hp)
    refine ⟨_, part, h.gives_line hpiece hbuffer hgives, hpart, ?_, hleft⟩
    rw [hstream, lineResults_line hpiece, hresults, List.append_assoc]

/-- The end of the stream gives what the last piece stands for. -/
theorem OfLines.gives_last (h : OfLines limit d) (hpart : newline ∉ d.buffer) (hlength : d.buffer.length ≤ limit) :
    Gives finish d (lineResults d.buffer) { d with buffer := [] } := by
  have hfinish := h.finish_part hpart hlength
  have hempty : finish { d with buffer := [] } = (.more, { d with buffer := [] }) := by
    have hagain := (h.buffered []).finish_part (by simp) (by simp)
    rwa [pieceResult?_nil] at hagain
  rw [lineResults_last hpart]
  cases hresult : pieceResult? d.buffer with
  | none =>
    rw [hresult] at hfinish
    exact .done hfinish
  | some r =>
    rw [hresult] at hfinish
    exact .result hfinish (.done hempty)

theorem OfLines.reads (h : OfLines limit d) (hpart : newline ∉ d.buffer) {chunks : List Bytes}
    (hshort : ∀ piece ∈ (d.buffer ++ chunks.flatten).splitOn newline, piece.length ≤ limit) :
    Reads d chunks (lineResults (d.buffer ++ chunks.flatten)) { d with buffer := [] } := by
  induction chunks generalizing d with
  | nil =>
    rw [List.flatten_nil, List.append_nil]
    exact .ended (h.gives_last hpart (length_le_of_pieces hpart hshort))
  | cons chunk chunks ih =>
    have hfed : OfLines limit (d.feed chunk) := ⟨h.format, h.limit⟩
    rw [List.flatten_cons, ← List.append_assoc] at hshort
    obtain ⟨results, part, hgives, hpart', hresults, hleft⟩ := hfed.gives hshort
    rw [buffer_feed] at hresults
    rw [List.flatten_cons, ← List.append_assoc, hresults]
    exact .chunk hgives (ih (hfed.buffered part) hpart' hleft)

end Decoder
end EditorLink.Wire
