import Mathlib
import EditorLink.Proofs.Wire.Calls
import EditorLink.Proofs.Wire.Frames
import EditorLink.Wire.Inlet

/-!
# EditorLink.Proofs.Wire.Inlets -- receiving, step by step

An inlet only makes calls of its decoder: it feeds it what has arrived, in order and nothing else, and passes on what it answers
(`receive_calls`). So what is known of a decoder under any calls is known of what is received.

Where the stream goes on with the frame of a message, the next thing to be received is that message, however much of the frame is there
yet (`Holds.receive_message`); and the end of the stream is received only when nothing is left of it.
-/

namespace EditorLink.Wire

open Decoder

/-! ## Outcomes -/

/-- What an answer says, as a connection puts it. -/
def Decoded.outcome? : Decoded → Option (Except TransportError Message)
  | .message m => some (.ok m)
  | .more => none
  | .failed e => some (.error e.toTransport)

def Received.outcome? : Received → Option (Except TransportError Message)
  | .message m => some (.ok m)
  | .failed e => some (.error e)
  | _ => none

def Received.message? : Received → Option Message
  | .message m => some m
  | _ => none

namespace Inlet

/-! ## Calls -/

/-- **One step of receiving makes some calls of the decoder.** They are fed what was next to be read, and what they answer is what is
received. -/
theorem receive_calls (i : Inlet) :
    ∃ calls, i.receive.2.decoder = i.decoder.called calls ∧ fed calls ++ i.receive.2.arriving = i.arriving ∧
      (i.decoder.answers calls).filterMap Decoded.outcome? = i.receive.1.outcome?.toList := by
  unfold receive
  split
  · -- the decoder is asked once
    by_cases hend : i.atEnd = true
    · simp only [hend, if_true]
      refine ⟨[.finish], ?_⟩
      rcases hfinish : i.decoder.finish with ⟨_ | _ | _, d⟩ <;>
        simp [hfinish, call, fed, answers, decoded, Decoded.outcome?, Received.outcome?]
    · simp only [hend, Bool.false_eq_true, if_false]
      refine ⟨[.next], ?_⟩
      rcases hnext : i.decoder.next with ⟨_ | _ | _, d⟩ <;>
        simp [hnext, call, fed, answers, decoded, Decoded.outcome?, Received.outcome?]
  · split
    · refine ⟨[.feed (i.arriving.take ((i.window.reserve i.decoder.buffer.length).room i.decoder.buffer.length))], ?_⟩
      simp [read, call, fed, answers, Received.outcome?, List.splitAt_eq]
    · refine ⟨[], ?_⟩
      split
      · exact ⟨rfl, rfl, rfl⟩
      · split <;> exact ⟨rfl, rfl, rfl⟩

/-- Receiving is blocked only where nothing can be done. -/
theorem waits_of_blocked {i : Inlet} (h : i.receive.1 = .blocked) :
    i.receive.2 = i ∧ i.decodable = false ∧ i.arriving = [] ∧ i.ended = false := by
  unfold receive at h ⊢
  split
  · next hdecodable =>
    rw [if_pos hdecodable] at h
    split at h
    · cases h
    · cases h
    · cases hend : i.atEnd <;> simp [hend] at h
  · next hidle =>
    rw [if_neg hidle] at h
    split
    · next harriving =>
      rw [if_pos harriving] at h
      cases h
    · next hnothing =>
      rw [if_neg hnothing] at h
      split
      · next hopen => exact ⟨rfl, by simpa using hidle, by simpa using hnothing, by simpa using hopen⟩
      · next hended =>
        rw [if_neg hended] at h
        split at h <;> cases h

/-! ## The end of the stream -/

theorem ended_receive (i : Inlet) : i.receive.2.ended = i.ended := by
  unfold receive
  split
  · split <;> rfl
  · split
    · rfl
    · split
      · rfl
      · split <;> rfl

/-- The end is read only once it is there. -/
def EndSound (i : Inlet) : Prop :=
  i.atEnd = true → i.ended = true

theorem EndSound.receive {i : Inlet} (h : EndSound i) : EndSound i.receive.2 := by
  unfold EndSound
  rw [ended_receive]
  unfold Inlet.receive
  split
  · split <;> exact h
  · split
    · exact fun hread => Bool.noConfusion hread
    · split
      · exact h
      · split
        · exact h
        · next hended _ => exact fun _ => by simpa using hended

end Inlet

/-! ## Frames that carry messages -/

/-- Frames carry messages to decoders that are in order, and of no bytes no message is read. -/
structure Conveys (InOrder : Decoder → Prop) (Carries : Bytes → Message → Prop) : Prop where
  feed : ∀ d chunk, InOrder d → InOrder (d.feed chunk)
  silent : ∀ d, InOrder d → d.buffer = [] → (∀ m, d.next.1 ≠ .message m) ∧ d.next.2.buffer = [] ∧ InOrder d.next.2
  /-- A part of a frame is not enough, and stays where it is. -/
  part : ∀ d m missing, InOrder d → Carries (d.buffer ++ missing) m → missing ≠ [] →
    ∃ d', d.next = (.more, d') ∧ d'.buffer = d.buffer ∧ InOrder d'
  /-- A whole frame is taken off, whatever follows it. -/
  whole : ∀ d frame m more, InOrder d → Carries frame m → d.buffer = frame ++ more →
    ∃ d', d.next = (.message m, d') ∧ d'.buffer = more ∧ InOrder d'

theorem Decoder.Framing.conveys {InOrder : Decoder → Prop} {Carries : Bytes → Message → Prop} (framing : Framing InOrder Carries) :
    Conveys InOrder Carries where
  feed := framing.feed
  silent := by
    intro d hd hbuffer
    obtain ⟨d', hnext, hbuffer', hd'⟩ := framing.empty d hd hbuffer
    rw [hnext]
    exact ⟨fun m hm => (nomatch hm), hbuffer', hd'⟩
  part := framing.part
  whole := framing.whole

theorem conveys_frames (limit : Nat) : Conveys (Unbroken limit) (Carries limit) := by
  rcases Nat.eq_zero_or_pos limit with rfl | hlimit
  · -- no frame is as short as that
    have hnone : ∀ {frame m}, ¬ Carries 0 frame m := by
      intro frame m hcarries
      exact hcarries.isValue.ne_nil (List.eq_nil_of_length_eq_zero (Nat.le_zero.mp hcarries.length))
    refine ⟨fun d chunk hd => hd.feed chunk, ?_, ?_, ?_⟩
    · intro d hd hbuffer
      obtain ⟨hd', hstep⟩ := hd.step
      generalize d.next.1 = decoded, d.next.2 = d' at hd' hstep
      cases hstep with
      | waits hsame _ => exact ⟨fun m hm => (nomatch hm), hsame.trans hbuffer, hd'⟩
      | barred _ hsame => exact ⟨fun m hm => (nomatch hm), hsame.trans hbuffer, hd'⟩
      | takes hvalue _ hsplit _ =>
        rw [hbuffer] at hsplit
        exact absurd (List.append_eq_nil_iff.mp hsplit.symm).1 hvalue.ne_nil
    · exact fun d m missing _ hcarries => absurd hcarries hnone
    · exact fun d frame m more _ hcarries => absurd hcarries hnone
  · exact (framing_frames hlimit).conveys

theorem conveys_lines (limit : Nat) : Conveys (OfLines limit) (OnLine limit) :=
  (framing_lines limit).conveys

/-! ## What is still to be received -/

/-- All that is still to be received: first what is buffered, then what has arrived, then what is on its way. -/
structure Holds (InOrder : Decoder → Prop) (i : Inlet) (unread future : Bytes) : Prop where
  inOrder : InOrder i.decoder
  unread : i.decoder.buffer ++ (i.arriving ++ future) = unread
  ended : i.ended = true → future = []
  atEnd : i.atEnd = true → i.ended = true ∧ i.arriving = []
  /-- A decoder that asked for more still has no message to give. -/
  idle : i.decodable = false → ∀ m, i.decoder.next.1 ≠ .message m

namespace Holds

variable {InOrder : Decoder → Prop} {Carries : Bytes → Message → Prop} {i : Inlet} {unread frame rest bytes future : Bytes} {m : Message}

/-- What arrives was on its way. -/
theorem arrive (h : Holds InOrder i unread (bytes ++ future)) (hopen : i.ended = false) : Holds InOrder (i.arrive bytes) unread future where
  inOrder := h.inOrder
  unread := by
    rw [← h.unread]
    simp [Inlet.arrive]
  ended := fun hended => absurd hended (by simp [Inlet.arrive, hopen])
  atEnd := fun hend => absurd (h.atEnd hend).1 (by simp [hopen])
  idle := h.idle

theorem finish (h : Holds InOrder i unread []) : Holds InOrder i.finish unread [] :=
  ⟨h.inOrder, h.unread, fun _ => rfl, fun hend => ⟨rfl, (h.atEnd hend).2⟩, h.idle⟩

/-- At the end of the stream a message that is complete comes out as before. -/
theorem finish_of_message {d d' : Decoder} (h : d.next = (.message m, d')) : d.finish = (.message m, d') := by
  rw [Decoder.finish, h]

theorem finish_of_silent {d : Decoder} (hbuffer : d.next.2.buffer = []) : d.finish = d.next := by
  rcases hnext : d.next with ⟨_ | _ | _, d'⟩
  · exact finish_of_message hnext
  · rw [hnext] at hbuffer
    exact finish_of_more hnext hbuffer
  · rw [Decoder.finish, hnext]

/-- An inlet that reads, or waits, gives no message. If it is at the end of the stream, nothing is left of it. -/
theorem receive_reading (conveys : Conveys InOrder Carries) (h : Holds InOrder i unread future) (hidle : i.decodable = false) :
    i.receive.1.message? = none ∧ Holds InOrder i.receive.2 unread future ∧
      (i.receive.1 = .finished → i.decoder.buffer = unread) := by
  unfold Inlet.receive
  rw [if_neg (by simp [hidle])]
  split
  · -- one read
    refine ⟨rfl, ⟨conveys.feed _ _ h.inOrder, ?_, h.ended, fun hend => Bool.noConfusion hend, fun hidle => Bool.noConfusion hidle⟩,
      fun hfinished => (nomatch hfinished)⟩
    rw [← h.unread]
    simp only [Inlet.read, List.splitAt_eq, buffer_feed, List.append_assoc]
    rw [← List.append_assoc (List.take _ _), List.take_append_drop]
  · next harriving =>
    have hnothing : i.arriving = [] := by simpa using harriving
    split
    · exact ⟨rfl, h, fun hfinished => (nomatch hfinished)⟩
    · next hended =>
      have hended : i.ended = true := by simpa using hended
      split
      · refine ⟨rfl, h, fun _ => ?_⟩
        rw [← h.unread, hnothing, h.ended hended]
        simp
      · exact ⟨rfl, ⟨h.inOrder, h.unread, h.ended, fun _ => ⟨hended, hnothing⟩, fun hidle => Bool.noConfusion hidle⟩,
          fun hfinished => (nomatch hfinished)⟩

/-- Where the stream goes on with a frame, the next thing to be received is its message. -/
theorem receive_message (conveys : Conveys InOrder Carries) (hcarries : Carries frame m)
    (h : Holds InOrder i (frame ++ rest) future) :
    (i.receive.1.message? = some m ∧ Holds InOrder i.receive.2 rest future) ∨
      (i.receive.1.message? = none ∧ i.receive.1 ≠ .finished ∧ Holds InOrder i.receive.2 (frame ++ rest) future) := by
  cases hdecodable : i.decodable with
  | false =>
    obtain ⟨hnone, hkept, hlast⟩ := h.receive_reading conveys hdecodable
    refine Or.inr ⟨hnone, fun hfinished => ?_, hkept⟩
    -- the frame would be complete, and the decoder would not have asked for more
    obtain ⟨d', hnext, -⟩ := conveys.whole _ frame m rest h.inOrder hcarries (hlast hfinished)
    exact h.idle hdecodable m (by rw [hnext])
  | true =>
    unfold Inlet.receive
    rw [if_pos hdecodable]
    rcases Bytes.cut_cases h.unread with ⟨missing, hmissing, hpart, hlater⟩ | ⟨more, hwhole, hmore⟩
    · have hend : i.atEnd = false := by
        rw [← Bool.not_eq_true]
        intro hend
        obtain ⟨hended, hnothing⟩ := h.atEnd hend
        rw [hnothing, h.ended hended] at hlater
        exact hmissing (List.append_eq_nil_iff.mp hlater.symm).1
      obtain ⟨d', hnext, hsame, hd'⟩ := conveys.part _ m missing h.inOrder (hpart ▸ hcarries) hmissing
      obtain ⟨d'', hagain, -⟩ := conveys.part d' m missing hd' (by rw [hsame, hpart]; exact hcarries) hmissing
      rw [if_neg (by simp [hend]), hnext]
      refine Or.inr ⟨by simp [hend, Received.message?], by simp [hend], hd', ?_, h.ended, h.atEnd, fun _ m' hm' => ?_⟩
      · rw [← h.unread, ← hsame]
        rfl
      · simp [Inlet.decoded, hagain] at hm'
    · obtain ⟨d', hnext, rfl, hd'⟩ := conveys.whole _ frame m more h.inOrder hcarries hwhole
      have hstep : (if i.atEnd = true then i.decoder.finish else i.decoder.next) = (.message m, d') := by
        split
        · exact finish_of_message hnext
        · exact hnext
      rw [hstep]
      refine Or.inl ⟨rfl, hd', hmore, h.ended, h.atEnd, fun hidle => ?_⟩
      exact absurd hidle (by simp [Inlet.decoded, hdecodable])

/-- Where nothing is left of the stream, no message is received. -/
theorem receive_nothing (conveys : Conveys InOrder Carries) (h : Holds InOrder i [] future) :
    i.receive.1.message? = none ∧ Holds InOrder i.receive.2 [] future := by
  cases hdecodable : i.decodable with
  | false =>
    obtain ⟨hnone, hkept, -⟩ := h.receive_reading conveys hdecodable
    exact ⟨hnone, hkept⟩
  | true =>
    obtain ⟨hbuffer, hlater⟩ := List.append_eq_nil_iff.mp h.unread
    obtain ⟨hsilent, hbuffer', hd'⟩ := conveys.silent _ h.inOrder hbuffer
    obtain ⟨hidle, -⟩ := conveys.silent _ hd' hbuffer'
    have hstep : (if i.atEnd = true then i.decoder.finish else i.decoder.next) = (i.decoder.next.1, i.decoder.next.2) := by
      split
      · exact finish_of_silent hbuffer'
      · rfl
    unfold Inlet.receive
    rw [if_pos hdecodable, hstep]
    generalize i.decoder.next.1 = answer, i.decoder.next.2 = d' at hsilent hbuffer' hd' hidle ⊢
    have hunread : d'.buffer ++ (i.arriving ++ future) = [] := by rw [hbuffer', hlater, List.append_nil]
    cases answer with
    | message m => exact absurd rfl (hsilent m)
    | failed e => exact ⟨rfl, hd', hunread, h.ended, h.atEnd, fun hidle => absurd hidle (by simp [Inlet.decoded, hdecodable])⟩
    | more =>
      refine ⟨?_, hd', hunread, h.ended, h.atEnd, fun _ => hidle⟩
      cases i.atEnd <;> rfl

end Holds

/-! ## Streams of frames -/

/-- How far a stream has been received that starts with these frames: not beyond them, or beyond them into the rest. -/
inductive InStep (InOrder : Decoder → Prop) (frames : List (Bytes × Message)) (rest future : Bytes) (i : Inlet) :
    List Message → Prop where
  | within {done left} : frames = done ++ left → Holds InOrder i (left.flatMap (·.1) ++ rest) future →
    InStep InOrder frames rest future i (done.map (·.2))
  | beyond {processed} : frames.map (·.2) <+: processed → rest ≠ [] → InStep InOrder frames rest future i processed

namespace InStep

variable {InOrder : Decoder → Prop} {Carries : Bytes → Message → Prop} {frames : List (Bytes × Message)} {rest bytes future : Bytes}
  {i : Inlet} {processed : List Message}

theorem start (conveys : Conveys InOrder Carries) {d : Decoder} (hd : InOrder d) (hbuffer : d.buffer = []) :
    InStep InOrder frames rest (frames.flatMap (·.1) ++ rest) { decoder := d } [] := by
  have hsplit : frames = [] ++ frames := rfl
  refine .within hsplit ⟨hd, ?_, fun hended => Bool.noConfusion hended, fun hend => Bool.noConfusion hend, ?_⟩
  · rw [hbuffer]
    rfl
  · exact fun _ => (conveys.silent d hd hbuffer).1

theorem arrive (h : InStep InOrder frames rest (bytes ++ future) i processed) (hopen : i.ended = false) :
    InStep InOrder frames rest future (i.arrive bytes) processed := by
  cases h with
  | within hsplit hholds => exact .within hsplit (hholds.arrive hopen)
  | beyond hfront hrest => exact .beyond hfront hrest

theorem finish (h : InStep InOrder frames rest [] i processed) : InStep InOrder frames rest [] i.finish processed := by
  cases h with
  | within hsplit hholds => exact .within hsplit hholds.finish
  | beyond hfront hrest => exact .beyond hfront hrest

/-- **What is received of a stream of frames are their messages, in order**; the end comes only after all of them. -/
theorem receive (conveys : Conveys InOrder Carries) (hcarries : ∀ f ∈ frames, Carries f.1 f.2)
    (h : InStep InOrder frames rest future i processed) :
    InStep InOrder frames rest future i.receive.2 (processed ++ i.receive.1.message?.toList) ∧
      (i.receive.1 = .finished → rest = [] → processed = frames.map (·.2)) := by
  cases h with
  | beyond hfront hrest => exact ⟨.beyond (hfront.trans (List.prefix_append _ _)) hrest, fun _ hnone => absurd hnone hrest⟩
  | @within done left hsplit hholds =>
    cases left with
    | nil =>
      rw [List.append_nil] at hsplit
      subst hsplit
      by_cases hrest : rest = []
      · subst hrest
        obtain ⟨hnone, hkept⟩ := hholds.receive_nothing conveys
        rw [hnone, Option.toList_none, List.append_nil]
        have hsplit : frames = frames ++ [] := (List.append_nil _).symm
        exact ⟨.within hsplit hkept, fun _ _ => rfl⟩
      · exact ⟨.beyond (List.prefix_append _ _) hrest, fun _ hnone => absurd hnone hrest⟩
    | cons f left =>
      obtain ⟨frame, m⟩ := f
      have hframe : Carries frame m := hcarries (frame, m) (by simp [hsplit])
      rw [List.flatMap_cons, List.append_assoc] at hholds
      rcases hholds.receive_message conveys hframe with ⟨hsome, hkept⟩ | ⟨hnone, hmore, hkept⟩
      · rw [hsome, Option.toList_some]
        have hdone : done.map (·.2) ++ [m] = (done ++ [(frame, m)]).map (·.2) := by simp
        rw [hdone]
        refine ⟨.within (by simp [hsplit]) hkept, fun hfinished => ?_⟩
        rw [hfinished] at hsome
        cases hsome
      · rw [hnone, Option.toList_none, List.append_nil]
        rw [← List.append_assoc] at hkept
        exact ⟨.within hsplit hkept, fun hfinished => absurd hfinished hmore⟩

/-- An inlet that waits has received all that has arrived. -/
theorem waits (conveys : Conveys InOrder Carries) (hcarries : ∀ f ∈ frames, Carries f.1 f.2)
    (h : InStep InOrder frames rest [] i processed) (hidle : i.decodable = false) (hnothing : i.arriving = []) :
    frames.map (·.2) <+: processed := by
  cases h with
  | beyond hfront _ => exact hfront
  | @within done left hsplit hholds =>
    cases left with
    | nil => exact hsplit ▸ by simp
    | cons f left =>
      have hbuffer := hholds.unread
      rw [hnothing, List.append_nil, List.append_nil, List.flatMap_cons, List.append_assoc] at hbuffer
      have hframe : Carries f.1 f.2 := hcarries f (by simp [hsplit])
      obtain ⟨d', hnext, -⟩ := conveys.whole _ f.1 f.2 _ hholds.inOrder hframe hbuffer
      exact absurd (congrArg Prod.fst hnext) (hholds.idle hidle f.2)

end InStep

/-! ## The two formats -/

/-- A message can be read from these bytes, wherever they stand in a stream. -/
def Legible : Format → (limit : Nat) → Bytes → Message → Prop
  | .msgpack, limit => Carries limit
  | .json, limit => OnLine limit

/-- A decoder of the format, whatever has been asked of it. -/
def InOrder : Format → (limit : Nat) → Decoder → Prop
  | .msgpack, limit => Unbroken limit
  | .json, limit => OfLines limit

theorem conveys (format : Format) (limit : Nat) : Conveys (InOrder format limit) (Legible format limit) := by
  cases format with
  | msgpack => exact conveys_frames limit
  | json => exact conveys_lines limit

theorem InOrder.format {format : Format} {limit : Nat} {d : Decoder} (h : InOrder format limit d) : d.format = format := by
  cases format with
  | msgpack => exact Unbroken.format h
  | json => exact OfLines.format h

theorem InOrder.called {format : Format} {limit : Nat} {d : Decoder} (h : InOrder format limit d) (calls : List Call) :
    InOrder format limit (d.called calls) := by
  cases format with
  | msgpack => exact Unbroken.called h calls
  | json => exact OfLines.called h calls

end EditorLink.Wire
