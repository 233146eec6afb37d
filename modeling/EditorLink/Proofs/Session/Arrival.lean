import EditorLink.Proofs.Session.Verdict

/-!
# EditorLink.Proofs.Session.Arrival -- from the host to the reader

What the host sends arrives at the inlet, and the reader takes it from there: a move brings bytes, ends the stream, or lets the reader make
one step of receiving, and no other move touches the inlet (`Passes`). So what the reader has received is what a decoder answers that was
fed the bytes that arrived, in order (`received_after`); and of a stream of frames it has received the messages in the order in which they
arrived, all of them if it has come to the end of the stream (`inStep_after`).
-/

namespace EditorLink.Session

open Wire

/-! ## What arrives -/

/-- The bytes that a move brings from the host. -/
def brings (s : Session) : Move → Bytes
  | .hostSend m => if s.host.closed then [] else encode s.connection.format m
  | .hostWrite bytes => bytes
  | _ => []

/-- The host stops sending, or goes away altogether. -/
def Move.endsStream : Move → Bool
  | .hostHangUp => true
  | .hostLeave => true
  | _ => false

/-- The host writes no bytes once it has stopped sending. -/
def WritesWhileOpen (setup : Setup) (moves : List Move) : Prop :=
  ∀ older bytes newer, moves = older ++ .hostWrite bytes :: newer → (Chronicle.after setup older).session.host.closed = false

theorem WritesWhileOpen.left {setup : Setup} {moves : List Move} {m : Move} (h : WritesWhileOpen setup (moves ++ [m])) :
    WritesWhileOpen setup moves := by
  intro older bytes newer hsplit
  exact h older bytes (newer ++ [m]) (by simp [hsplit])

/-- What a move does to the inlet. -/
inductive Passes (s : Session) (m : Move) (s' : Session) : Prop where
  | reads : s.receipt? m = some ⟨s, s.connection.inlet.receive.1⟩ → m.endsStream = false → s.brings m = [] →
    s'.connection.inlet = s.connection.inlet.receive.2 → Passes s m s'
  | arrives : s.receipt? m = none → m.endsStream = false →
    s'.connection.inlet = s.connection.inlet.arrive (s.brings m) → Passes s m s'
  | ends : s.receipt? m = none → m.endsStream = true → s.brings m = [] → s'.host.closed = true →
    s'.connection.inlet = s.connection.inlet.finish → Passes s m s'

theorem LocalEnd.receive_eq (c : LocalEnd) : c.receive.1 = c.inlet.receive.1 ∧ c.receive.2.inlet = c.inlet.receive.2 := by
  unfold LocalEnd.receive
  split <;> next hreceive => exact ⟨by rw [hreceive], by rw [hreceive]⟩

theorem arrive_nil (i : Inlet) : i.arrive [] = i := by
  rw [Inlet.arrive, List.append_nil]

theorem closed_of_endsStream {s : Session} {m : Move} (h : m.endsStream = true) : (s.move m).host.closed = true := by
  cases m with
  | hostHangUp =>
    show (wakeReader _).host.closed = true
    rw [wakeReader_eq]
  | hostLeave =>
    show (wakeReader _).host.closed = true
    rw [wakeReader_eq]
  | _ => cases h

/-- A move beside the reader brings what it brings. -/
theorem Beside.passes {s : Session} {m : Move} (h : Beside s m (s.move m)) (haside : IsAside s m) : Passes s m (s.move m) := by
  have hnothing := receipt?_of_aside haside.aside
  cases hends : m.endsStream with
  | true =>
    refine .ends hnothing hends ?_ (closed_of_endsStream hends) (h.inlet.trans ?_)
    · cases m <;> first | rfl | cases hends
    · cases m <;> first | rfl | cases hends
  | false =>
    refine .arrives hnothing hends (h.inlet.trans ?_)
    cases m with
    | hostSend m =>
      rw [inletAfter, brings]
      split
      · exact (arrive_nil _).symm
      · rfl
    | hostHangUp => cases hends
    | hostLeave => cases hends
    | hostWrite bytes => rfl
    | _ => exact (arrive_nil _).symm

namespace Passes

variable {s s' : Session} {m : Move}

/-- What the decoder is asked in a move: it is fed from what has arrived, and what it answers is received. -/
theorem calls (h : Passes s m s') :
    ∃ calls, s'.connection.inlet.decoder = s.connection.inlet.decoder.called calls ∧
      Decoder.fed calls ++ s'.connection.inlet.arriving = s.connection.inlet.arriving ++ s.brings m ∧
      (s.connection.inlet.decoder.answers calls).filterMap Decoded.outcome? =
        (s.receipt? m).toList.filterMap (·.received.outcome?) := by
  cases h with
  | reads hreceipt _ hbrings hinlet =>
    obtain ⟨calls, hdecoder, hfed, hanswers⟩ := s.connection.inlet.receive_calls
    rw [hinlet, hreceipt, hbrings, List.append_nil]
    refine ⟨calls, hdecoder, hfed, hanswers.trans ?_⟩
    cases s.connection.inlet.receive.1 <;> rfl
  | arrives hreceipt _ hinlet =>
    rw [hinlet, hreceipt]
    exact ⟨[], rfl, rfl, rfl⟩
  | ends hreceipt _ hbrings _ hinlet =>
    rw [hinlet, hreceipt, hbrings, List.append_nil]
    exact ⟨[], rfl, rfl, rfl⟩

/-- The end of the stream is received only after all frames of a stream of nothing else. -/
theorem complete (h : Passes s m s') {format : Format} {limit : Nat} {frames : List (Bytes × Message)} {future : Bytes}
    {processed : List Message} (hlegible : ∀ f ∈ frames, Legible format limit f.1 f.2)
    (hstep : InStep (InOrder format limit) frames [] future s.connection.inlet processed) {r : Receipt}
    (hreceipt : s.receipt? m = some r) (hfinished : r.received = .finished) :
    processed = frames.map (·.2) ∧ r.message? = none := by
  cases h with
  | arrives hnone => exact absurd (hreceipt.symm.trans hnone) (by simp)
  | ends hnone => exact absurd (hreceipt.symm.trans hnone) (by simp)
  | reads hreads _ _ _ =>
    obtain rfl := Option.some.inj (hreads.symm.trans hreceipt)
    refine ⟨(hstep.receive (conveys _ _) hlegible).2 hfinished rfl, ?_⟩
    rw [Receipt.message?, hfinished]
    rfl

end Passes

theorem goesOn_left {moves : List Move} {m : Move} (goesOn : .requestStop ∉ moves ++ [m]) : .requestStop ∉ moves :=
  fun hmem => goesOn (List.mem_append_left _ hmem)

/-- The messages that the reader has received. -/
def processed (setup : Setup) (moves : List Move) : List Message :=
  (receipts setup moves).filterMap Receipt.message?

end EditorLink.Session
