import Mathlib
import EditorLink.Proofs.Wire.Calls

/-!
# EditorLink.Proofs.Wire.Failures -- a failure does not lose the place in a stream of frames

A decoder of frames fails in two ways. If the content of a frame is bad, the frame is gone and the walk starts anew behind it; if the decoder
is barred, everything stays and no later call gets past it (`Barred.next_fails`). In both ways, and in all calls that do not fail, what leaves
the buffer are whole values. So the stream that was fed is cut into values and what is still buffered, and what the calls said of contents is
what is read from these values, in order (`Taken`). No message is ever read from inside a frame that was refused (`frames_stay_whole`).
-/

namespace EditorLink.Wire

namespace Decoder

/-! ## Answers and contents -/

/-- What an answer says of the content of a frame. Asking for more says nothing of one, and neither does what bars a decoder or that the
stream ended inside a frame. -/
def content? : Decoded → Option (Except ProtocolError Message)
  | .message m => some (.ok m)
  | .more => none
  | .failed (.frameTooLarge _ _) => none
  | .failed (.decode (.reservedMarker _)) => none
  | .failed (.decode (.cutShort _)) => none
  | .failed e => some (.error e)

theorem content?_answer (frame : Bytes) : content? (answer (readFrame frame)) = some (readFrame frame) := by
  rw [readFrame]
  cases Pack.read? frame with
  | none => rfl
  | some v =>
    show content? (answer (Message.ofValue v)) = some (Message.ofValue v)
    cases hmessage : Message.ofValue v with
    | ok m => rfl
    | error e => rcases Message.fault_of_ofValue hmessage with ⟨fault, rfl⟩ | ⟨kind, rfl⟩ <;> rfl

theorem Barred.content? {limit : Nat} {bytes : Bytes} {e : ProtocolError} (h : Barred limit bytes e) :
    Decoder.content? (.failed e) = none := by
  cases h <;> rfl

/-! ## A decoder that is barred -/

variable {limit : Nat} {d d' : Decoder}

/-- What bars a decoder does so after any calls. -/
theorem Barred.called {e : ProtocolError} (hbarred : Barred limit d.buffer e) (h : Unbroken limit d) (calls : List Call) :
    ∃ e', Barred limit (d.called calls).buffer e' := by
  -- each call keeps the buffer or appends to it
  have hkept : ∀ d : Decoder, (Unbroken limit d ∧ ∃ e, Barred limit d.buffer e) →
      Unbroken limit d.next.2 ∧ ∃ e, Barred limit d.next.2.buffer e := by
    rintro d ⟨hd, e, hbarred⟩
    obtain ⟨e', d', hnext, hbuffer⟩ := hbarred.next_fails hd
    have hd' := hd.step.1
    rw [hnext] at hd' ⊢
    refine ⟨hd', e, ?_⟩
    show Barred limit d'.buffer e
    rw [hbuffer]
    exact hbarred
  have hall : Unbroken limit (d.called calls) ∧ ∃ e, Barred limit (d.called calls).buffer e := by
    apply called_induct (P := fun d => Unbroken limit d ∧ ∃ e, Barred limit d.buffer e) _ hkept _ ⟨h, e, hbarred⟩
    · rintro d chunk ⟨hd, e, hbarred⟩
      exact ⟨hd.feed chunk, hbarred.append chunk⟩
    · intro d hd
      rw [hd.1.finish_decoder]
      exact hkept d hd
  exact hall.2

/-! ## What was taken off a stream -/

/-- Whole values within the limit were taken off a stream, and what is read from each was said of it. -/
def Taken (limit : Nat) (stream : Bytes) (contents : List (Except ProtocolError Message)) (rest : Bytes) : Prop :=
  ∃ frames : List Bytes,
    (∀ frame ∈ frames, IsValue frame ∧ frame.length ≤ limit) ∧ stream = frames.flatten ++ rest ∧ contents = frames.map readFrame

theorem taken_nothing (limit : Nat) (stream : Bytes) : Taken limit stream [] stream :=
  ⟨[], by simp, rfl, rfl⟩

theorem taken_frame {frame : Bytes} (hframe : IsValue frame) (hlength : frame.length ≤ limit) (rest : Bytes) :
    Taken limit (frame ++ rest) [readFrame frame] rest :=
  ⟨[frame], by simp [hframe, hlength], by simp, rfl⟩

theorem Taken.feed {stream rest : Bytes} {contents : List (Except ProtocolError Message)} (h : Taken limit stream contents rest)
    (more : Bytes) : Taken limit (stream ++ more) contents (rest ++ more) := by
  obtain ⟨frames, hframes, rfl, hcontents⟩ := h
  exact ⟨frames, hframes, List.append_assoc _ _ _, hcontents⟩

theorem Taken.trans {stream middle rest : Bytes} {contents more : List (Except ProtocolError Message)}
    (h : Taken limit stream contents middle) (hmore : Taken limit middle more rest) : Taken limit stream (contents ++ more) rest := by
  obtain ⟨frames, hframes, rfl, rfl⟩ := h
  obtain ⟨others, hothers, rfl, rfl⟩ := hmore
  refine ⟨frames ++ others, ?_, by simp, by simp⟩
  intro frame hframe
  rcases List.mem_append.mp hframe with hframe | hframe
  · exact hframes frame hframe
  · exact hothers frame hframe

/-- A step takes one value or nothing. -/
theorem Unbroken.taken_next (h : Unbroken limit d) : Taken limit d.buffer (content? d.next.1).toList d.next.2.buffer := by
  have hstep := h.step.2
  generalize d.next.1 = decoded, d.next.2 = d' at hstep
  cases hstep with
  | waits hbuffer _ =>
    rw [hbuffer]
    exact taken_nothing limit d.buffer
  | takes hframe hlength hbuffer _ =>
    rw [content?_answer, hbuffer]
    exact taken_frame hframe hlength d'.buffer
  | barred hbarred hbuffer =>
    rw [hbarred.content?, hbuffer]
    exact taken_nothing limit d.buffer

/-- That the stream ends inside a frame says nothing of contents. -/
theorem Unbroken.content?_finish (h : Unbroken limit d) : content? d.finish.1 = content? d.next.1 := by
  have hformat := h.step.1.format
  rw [finish]
  split
  · next d' hnext =>
    rw [hnext] at hformat ⊢
    simp only [show d'.format = .msgpack from hformat]
    split <;> rfl
  · rfl

theorem Unbroken.taken_calls (h : Unbroken limit d) (calls : List Call) :
    Taken limit (d.buffer ++ fed calls) ((d.answers calls).filterMap content?) (d.called calls).buffer := by
  induction calls generalizing d with
  | nil =>
    rw [fed, List.append_nil]
    exact taken_nothing limit d.buffer
  | cons c calls ih =>
    rw [answers, List.filterMap_append, called_cons]
    cases c with
    | feed chunk =>
      have hrest := ih (h.feed chunk)
      rw [buffer_feed, List.append_assoc] at hrest
      exact hrest
    | next =>
      have hfirst := h.taken_next.feed (fed calls)
      have hall := hfirst.trans (ih h.step.1)
      cases hcontent : content? d.next.1 <;> simpa [call, fed, hcontent] using hall
    | finish =>
      have hfirst := h.taken_next.feed (fed calls)
      have hall := hfirst.trans (ih h.step.1)
      rw [← h.finish_decoder, ← h.content?_finish] at hall
      cases hcontent : content? d.finish.1 <;> simpa [call, fed, hcontent] using hall

/-- **A failure does not lose the place in a stream of frames.** Whatever was asked of a decoder before, when it fails then either it has taken
one whole value off its buffer, from which no message is read, and starts anew behind it; or it has taken nothing, on account of a reserved
marker or a frame over the limit, and whatever is asked of it then, it fails again. All that was fed is the values that were taken, in order,
and what is buffered; and the answers said of contents just what is read from these values. -/
theorem frames_stay_whole (limit : Nat) (calls : List Call) :
    let d := (fresh .msgpack limit).called calls
    (∀ e d', d.next = (.failed e, d') →
      (∃ frame, IsValue frame ∧ d.buffer = frame ++ d'.buffer ∧ readFrame frame = .error e ∧ d'.scan = {}) ∨
      (((∃ b, e = .decode (.reservedMarker b)) ∨ ∃ size, e = .frameTooLarge size limit) ∧ d'.buffer = d.buffer ∧
        ∀ later, ∃ e' last, (d'.called later).next = (.failed e', last))) ∧
    ∃ frames : List Bytes, (∀ frame ∈ frames, IsValue frame ∧ frame.length ≤ limit) ∧ fed calls = frames.flatten ++ d.buffer ∧
      ((fresh .msgpack limit).answers calls).filterMap content? = frames.map readFrame := by
  intro d
  have hfresh : Unbroken limit (fresh .msgpack limit) := unbroken_ofLimit limit
  have hd : Unbroken limit d := hfresh.called calls
  refine ⟨?_, hfresh.taken_calls calls⟩
  intro e d' hnext
  obtain ⟨hd', hstep⟩ := hd.step
  rw [hnext] at hd' hstep
  generalize hdecoded : Decoded.failed e = decoded at hstep
  cases hstep with
  | waits => cases hdecoded
  | @takes frame _ hframe _ hbuffer hscan =>
    have hread : Except.error e = readFrame frame := answer_injective hdecoded
    exact Or.inl ⟨frame, hframe, hbuffer, hread.symm, hscan⟩
  | barred hbarred hbuffer =>
    cases hdecoded
    refine Or.inr ⟨?_, hbuffer, ?_⟩
    · cases hbarred with
      | reserved => exact Or.inl ⟨_, rfl⟩
      | long => exact Or.inr ⟨_, rfl⟩
      | longPart => exact Or.inr ⟨_, rfl⟩
    · intro later
      have hkept : Barred limit d'.buffer e := by
        rw [show d'.buffer = d.buffer from hbuffer]
        exact hbarred
      obtain ⟨e', hlater⟩ := hkept.called hd' later
      obtain ⟨e'', last, hfails, -⟩ := hlater.next_fails (hd'.called later)
      exact ⟨e'', last, hfails⟩

/-- A number is no message and costs only itself: the notification behind it is delivered. A reserved marker lets nothing pass any more. -/
theorem a_bad_frame_passes_and_a_reserved_marker_stays :
    let d := (fresh .msgpack 4).feed [0x01, 0x93, 0x02, 0xa0, 0x90, 0xc1, 0x90]
    d.next.1 = .failed (.invalidShape .notAnArray) ∧ (d.called [.next]).next.1 = .message (.notify "" []) ∧
    (d.called [.next, .next]).next.1 = .failed (.decode (.reservedMarker 0xc1)) ∧
    ∀ later, ∃ e last, ((d.called [.next, .next, .next]).called later).next = (.failed e, last) := by
  intro d
  have hfails : (d.called [.next, .next]).next = (.failed (.decode (.reservedMarker 0xc1)), d.called [.next, .next, .next]) := by
    cbv
  have hkept : (d.called [.next, .next, .next]).buffer = (d.called [.next, .next]).buffer := by cbv
  refine ⟨by cbv, by cbv, by rw [hfails], ?_⟩
  obtain ⟨hfailures, -⟩ := frames_stay_whole 4 [.feed [0x01, 0x93, 0x02, 0xa0, 0x90, 0xc1, 0x90], .next, .next]
  rcases hfailures _ _ hfails with ⟨frame, hframe, hbuffer, -⟩ | ⟨-, -, hstuck⟩
  · -- a value that was taken would have bytes
    rw [hkept] at hbuffer
    exact absurd (List.self_eq_append_left.mp hbuffer) hframe.ne_nil
  · exact hstuck

end Decoder
end EditorLink.Wire
