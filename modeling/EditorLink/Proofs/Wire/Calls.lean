import Mathlib
import EditorLink.Proofs.Wire.Cuts
import EditorLink.Proofs.Wire.Pieces

/-!
# EditorLink.Proofs.Wire.Calls -- a decoder, whatever is asked of it

Chunks may be fed and steps made in any order, also after a failure (`called`). A decoder of frames stays as good as a new one through all
of it, so each of its steps is one of `FrameStep`. A step on lines passes over blank ones, and then it takes a line or has only a part of
one (`LineStep`).

The limit is where the two differ. A frame is measured before it is taken, a line only while its newline is missing. So a line over the limit
is refused if a step finds it without its newline, and taken if the newline is there before the first step (`limit_but_for_whole_lines`).
-/

namespace EditorLink.Wire

namespace Decoder

/-! ## Calls -/

inductive Call where
  | feed (chunk : Bytes)
  | next
  | finish

/-- The answer to a call, which feeding has none of, and the decoder after it. -/
def call (d : Decoder) : Call → Option Decoded × Decoder
  | .feed chunk => (none, d.feed chunk)
  | .next => (some d.next.1, d.next.2)
  | .finish => (some d.finish.1, d.finish.2)

/-- The decoder after so many calls. -/
def called (d : Decoder) (calls : List Call) : Decoder :=
  calls.foldl (fun d c => (d.call c).2) d

@[simp] theorem called_nil (d : Decoder) : d.called [] = d := rfl

@[simp] theorem called_cons (d : Decoder) (c : Call) (calls : List Call) : d.called (c :: calls) = (d.call c).2.called calls := rfl

/-- What is fed in so many calls. -/
def fed : List Call → Bytes
  | [] => []
  | .feed chunk :: calls => chunk ++ fed calls
  | .next :: calls => fed calls
  | .finish :: calls => fed calls

/-- The answers to so many calls. -/
def answers (d : Decoder) : List Call → List Decoded
  | [] => []
  | c :: calls => (d.call c).1.toList ++ answers (d.call c).2 calls

/-- What every call preserves holds after all of them. -/
theorem called_induct {P : Decoder → Prop} (hfeed : ∀ d chunk, P d → P (d.feed chunk)) (hnext : ∀ d, P d → P d.next.2)
    (hfinish : ∀ d, P d → P d.finish.2) {d : Decoder} (hd : P d) (calls : List Call) : P (d.called calls) := by
  induction calls generalizing d with
  | nil => exact hd
  | cons c calls ih =>
    rw [called_cons]
    apply ih
    cases c with
    | feed chunk => exact hfeed d chunk hd
    | next => exact hnext d hd
    | finish => exact hfinish d hd

variable {limit : Nat} {d d' : Decoder}

/-! ## Calls on frames -/

/-- At the end of the stream a step on frames goes no further. -/
theorem Unbroken.finish_decoder (h : Unbroken limit d) : d.finish.2 = d.next.2 := by
  have hformat := h.step.1.format
  rw [finish]
  split
  · next d' hnext =>
    rw [hnext] at hformat ⊢
    simp only [show d'.format = .msgpack from hformat]
    split <;> rfl
  · rfl

theorem Unbroken.called (h : Unbroken limit d) (calls : List Call) : Unbroken limit (d.called calls) := by
  apply called_induct (P := Unbroken limit) _ _ _ h
  · intro d chunk hd
    exact hd.feed chunk
  · intro d hd
    exact hd.step.1
  · intro d hd
    rw [hd.finish_decoder]
    exact hd.step.1

/-! ## Steps on lines -/

/-- Blank lines, with their newlines. -/
inductive Blanks : Bytes → Prop where
  | none : Blanks []
  | line {piece rest} : newline ∉ piece → pieceResult? piece = none → Blanks rest → Blanks (piece ++ newline :: rest)

/-- What a step on lines can do. -/
inductive LineStep (limit : Nat) (d : Decoder) : Decoded → Decoder → Prop where
  | waits {blank d'} : Blanks blank → newline ∉ d'.buffer → d.buffer = blank ++ d'.buffer → d'.buffer.length ≤ limit →
    LineStep limit d .more d'
  | takes {blank line r d'} : Blanks blank → newline ∉ line → d.buffer = blank ++ (line ++ newline :: d'.buffer) →
    pieceResult? line = some r → LineStep limit d (answer r) d'
  | long {blank part d'} : Blanks blank → newline ∉ part → d.buffer = blank ++ part → d'.buffer = part → limit < part.length →
    LineStep limit d (.failed (.frameTooLarge part.length limit)) d'

/-- A blank line in front is passed over. -/
theorem LineStep.behind {piece rest : Bytes} {decoded : Decoded} (hpiece : newline ∉ piece) (hblank : pieceResult? piece = none)
    (hbuffer : d.buffer = piece ++ newline :: rest) (h : LineStep limit { d with buffer := rest } decoded d') :
    LineStep limit d decoded d' := by
  cases h with
  | waits hblanks hpart hsplit hlength =>
    refine .waits (.line hpiece hblank hblanks) hpart ?_ hlength
    rw [hbuffer, show rest = _ from hsplit]
    simp
  | takes hblanks hline hsplit hresult =>
    refine .takes (.line hpiece hblank hblanks) hline ?_ hresult
    rw [hbuffer, show rest = _ from hsplit]
    simp
  | long hblanks hpart hsplit hleft hlength =>
    refine .long (.line hpiece hblank hblanks) hpart ?_ hleft hlength
    rw [hbuffer, show rest = _ from hsplit]
    simp

theorem OfLines.next_of_part (h : OfLines limit d) (hpart : newline ∉ d.buffer) : d.next = d.await d.buffer.length := by
  rw [h.next_eq, nextLine, firstLine_of_not_mem hpart]

/-- **A step on lines** passes over blank ones, whatever it comes to. -/
theorem OfLines.step (h : OfLines limit d) : OfLines limit d.next.2 ∧ LineStep limit d d.next.1 d.next.2 := by
  generalize hbuffer : d.buffer = buffer
  induction buffer using lineInduct generalizing d with
  | last part hpart =>
    subst hbuffer
    rw [h.next_of_part hpart, await, h.limit]
    split
    · next hlong => exact ⟨h, .long .none hpart rfl rfl hlong⟩
    · next hfits => exact ⟨h, .waits .none hpart rfl (Nat.le_of_not_lt hfits)⟩
  | line piece rest hpiece ih =>
    have hnext := h.next_line hpiece hbuffer
    cases hresult : pieceResult? piece with
    | none =>
      simp only [hresult] at hnext
      obtain ⟨hin, hstep⟩ := ih (h.buffered rest) rfl
      rw [hnext]
      exact ⟨hin, hstep.behind hpiece hresult hbuffer⟩
    | some r =>
      simp only [hresult] at hnext
      rw [hnext]
      exact ⟨h.buffered rest, .takes .none hpiece hbuffer hresult⟩

theorem OfLines.finish (h : OfLines limit d) : OfLines limit d.finish.2 := by
  have hstep := h.step.1
  rw [Decoder.finish]
  split
  · next d' hnext =>
    rw [hnext] at hstep
    have hformat : d'.format = .json := hstep.format
    simp only [hformat]
    split
    · exact hstep
    · split <;> exact ⟨rfl, hstep.limit⟩
  · exact hstep

theorem OfLines.called (h : OfLines limit d) (calls : List Call) : OfLines limit (d.called calls) := by
  apply called_induct (P := OfLines limit) _ _ _ h
  · intro d chunk hd
    exact ⟨hd.format, hd.limit⟩
  · intro d hd
    exact hd.step.1
  · intro d hd
    exact hd.finish

/-! ## The limit -/

/-- The frame that a message was on: a value at the front of the buffer, or a line behind blank ones, of which the last may lack its
newline. -/
inductive Source (d : Decoder) (frame : Bytes) (m : Message) (d' : Decoder) : Prop where
  | value : d.format = .msgpack → IsValue frame → readFrame frame = .ok m → d.buffer = frame ++ d'.buffer → Source d frame m d'
  | line {blank} : d.format = .json → Blanks blank → newline ∉ frame → readLine frame = .ok (some m) →
    d.buffer = blank ++ (frame ++ newline :: d'.buffer) → Source d frame m d'
  | last {blank} : d.format = .json → Blanks blank → newline ∉ frame → readLine frame = .ok (some m) →
    d.buffer = blank ++ frame → d'.buffer = [] → Source d frame m d'

/-- A line, with its newline, is in the buffer and goes with all before it. -/
def WholeLine (d : Decoder) (frame : Bytes) (d' : Decoder) : Prop :=
  ∃ before, d.buffer = before ++ (frame ++ newline :: d'.buffer)

theorem message_of_finish {m : Message} (h : d.finish = (.message m, d')) :
    d.next = (.message m, d') ∨
      ∃ part, d.next = (.more, part) ∧ part.format = .json ∧ readLine part.buffer = .ok (some m) ∧ d' = { part with buffer := [] } := by
  rw [finish] at h
  split at h
  · next part hnext =>
    split at h
    · cases h
    · split at h
      · cases h
      · next hformat =>
        split at h
        · next found hread =>
          cases h
          exact Or.inr ⟨part, hnext, hformat, hread, rfl⟩
        · cases h
        · cases h
  · exact Or.inl h

theorem readLine_of_pieceResult? {piece : Bytes} {m : Message} (h : pieceResult? piece = some (.ok m)) :
    readLine piece = .ok (some m) := by
  rw [pieceResult?] at h
  split at h
  · cases h
  · next hread =>
    cases h
    exact hread
  · cases h

theorem pieceResult?_of_readLine {piece : Bytes} {m : Message} (h : readLine piece = .ok (some m)) :
    pieceResult? piece = some (.ok m) := by
  rw [pieceResult?, h]

/-- A message of frames was on a value within the limit. -/
theorem Unbroken.source (h : Unbroken limit d) {m : Message} (hnext : d.next = (.message m, d')) :
    ∃ frame, Source d frame m d' ∧ frame.length ≤ limit := by
  have hstep := h.step.2
  rw [hnext] at hstep
  generalize hdecoded : Decoded.message m = decoded at hstep
  cases hstep with
  | waits => cases hdecoded
  | barred => cases hdecoded
  | @takes frame _ hvalue hlength hbuffer _ =>
    have hread : Except.ok m = readFrame frame := answer_injective hdecoded
    exact ⟨frame, .value h.format hvalue hread.symm hbuffer, hlength⟩

/-- A message of lines was on a line whose newline was there. -/
theorem OfLines.source (h : OfLines limit d) {m : Message} (hnext : d.next = (.message m, d')) :
    ∃ line, Source d line m d' ∧ WholeLine d line d' := by
  have hstep := h.step.2
  rw [hnext] at hstep
  generalize hdecoded : Decoded.message m = decoded at hstep
  cases hstep with
  | waits => cases hdecoded
  | long => cases hdecoded
  | @takes blank line r _ hblanks hline hbuffer hresult =>
    obtain rfl : Except.ok m = r := answer_injective hdecoded
    have hread := readLine_of_pieceResult? hresult
    exact ⟨line, .line h.format hblanks hline hread hbuffer, blank, hbuffer⟩

/-- What lines ask for more with is a part of a line within the limit. -/
theorem OfLines.part_of_more (h : OfLines limit d) (hnext : d.next = (.more, d')) :
    ∃ blank, Blanks blank ∧ newline ∉ d'.buffer ∧ d.buffer = blank ++ d'.buffer ∧ d'.buffer.length ≤ limit := by
  have hstep := h.step.2
  rw [hnext] at hstep
  generalize hdecoded : Decoded.more = decoded at hstep
  cases hstep with
  | waits hblanks hpart hbuffer hlength => exact ⟨_, hblanks, hpart, hbuffer, hlength⟩
  | takes => exact absurd hdecoded.symm (answer_ne_more _)
  | long => cases hdecoded

/-- A decoder to which nothing has arrived. -/
def fresh (format : Format) (limit : Nat) : Decoder :=
  { format, limit }

/-- **The limit holds, but for a line whose newline is there before it is measured.** Whatever was asked of a decoder, a message that it
gives then was on a frame within the limit or on a line that stood in the buffer with its newline. What a decoder asks for more with is
within the limit. A line over the limit is refused without its newline, and gives its message with it. -/
theorem limit_but_for_whole_lines (format : Format) (limit : Nat) (calls : List Call) :
    let d := (fresh format limit).called calls
    (∀ step ∈ [next, finish], ∀ m d', step d = (.message m, d') →
      ∃ frame, Source d frame m d' ∧ (frame.length ≤ limit ∨ format = .json ∧ WholeLine d frame d')) ∧
    (∀ d', d.next = (.more, d') → d'.buffer.length ≤ limit) ∧
    (format = .json → ∀ line m, newline ∉ line → readLine line = .ok (some m) → limit < line.length →
      (d.buffer = line → d.next = (.failed (.frameTooLarge line.length limit), d)) ∧
      ∀ rest, d.buffer = line ++ newline :: rest → d.next = (.message m, { d with buffer := rest })) := by
  intro d
  cases format with
  | msgpack =>
    have hd : Unbroken limit d := (unbroken_ofLimit limit).called calls
    refine ⟨?_, ?_, fun hjson => nomatch hjson⟩
    · intro step hstep m d' hmessage
      have hnext : d.next = (.message m, d') := by
        simp only [List.mem_cons, List.not_mem_nil, or_false] at hstep
        rcases hstep with rfl | rfl
        · exact hmessage
        · rcases message_of_finish hmessage with hnext | ⟨part, hnext, hformat, -⟩
          · exact hnext
          · -- the decoder is one of frames also when it asks for more
            have hpart := hd.step.1.format
            rw [hnext] at hpart
            cases hpart.symm.trans hformat
      obtain ⟨frame, hsource, hlength⟩ := hd.source hnext
      exact ⟨frame, hsource, Or.inl hlength⟩
    · intro d' hnext
      obtain ⟨scan, -, hfits, rfl⟩ := hd.partially_of_more hnext
      rw [hd.limit] at hfits
      exact (Nat.le_max_left _ _).trans hfits
  | json =>
    have hfresh : OfLines limit (fresh .json limit) := ⟨rfl, rfl⟩
    have hd : OfLines limit d := hfresh.called calls
    refine ⟨?_, ?_, ?_⟩
    · intro step hstep m d' hmessage
      have hwhole : d.next = (.message m, d') →
          ∃ frame, Source d frame m d' ∧ (frame.length ≤ limit ∨ Format.json = .json ∧ WholeLine d frame d') := by
        intro hnext
        obtain ⟨line, hsource, hwhole⟩ := hd.source hnext
        exact ⟨line, hsource, Or.inr ⟨rfl, hwhole⟩⟩
      simp only [List.mem_cons, List.not_mem_nil, or_false] at hstep
      rcases hstep with rfl | rfl
      · exact hwhole hmessage
      · rcases message_of_finish hmessage with hnext | ⟨part, hnext, -, hread, rfl⟩
        · exact hwhole hnext
        · obtain ⟨blank, hblanks, hpart, hbuffer, hlength⟩ := hd.part_of_more hnext
          exact ⟨part.buffer, .last hd.format hblanks hpart hread hbuffer rfl, Or.inl hlength⟩
    · intro d' hnext
      obtain ⟨blank, -, -, -, hlength⟩ := hd.part_of_more hnext
      exact hlength
    · intro _ line m hline hread hlong
      constructor
      · rintro rfl
        rw [hd.next_of_part hline, await, hd.limit]
        exact if_pos hlong
      · intro rest hbuffer
        rw [hd.next_line hline hbuffer, pieceResult?_of_readLine hread]
        rfl

/-- With a limit of eight bytes, a notification on a line of ten is delivered if all of it arrives at once, and not if its newline comes
later. -/
theorem line_over_the_limit_is_delivered :
    let line : Bytes := [0x5b, 0x32, 0x2c, 0x22, 0x6d, 0x22, 0x2c, 0x5b, 0x5d, 0x5d]
    line.length = 10 ∧
    ((fresh .json 8).feed (line ++ [newline])).next = (.message (.notify "m" []), fresh .json 8) ∧
    ((fresh .json 8).feed line).next = (.failed (.frameTooLarge 10 8), (fresh .json 8).feed line) := by
  intro line
  have hread : readLine line = .ok (some (.notify "m" [])) := by cbv
  have hline : newline ∉ line := by decide
  obtain ⟨-, -, hwhole⟩ := limit_but_for_whole_lines .json 8 [.feed (line ++ [newline])]
  obtain ⟨-, -, hpart⟩ := limit_but_for_whole_lines .json 8 [.feed line]
  refine ⟨rfl, ?_, ?_⟩
  · exact (hwhole rfl line _ hline hread (by decide)).2 [] rfl
  · exact (hpart rfl line _ hline hread (by decide)).1 rfl

end Decoder
end EditorLink.Wire
