import EditorLink.Proofs.Text.Bytes
import EditorLink.Wire.Codec

/-!
# EditorLink.Proofs.Wire.Runs -- decoding a stream that arrives in chunks

A step that gives a message takes at least one byte off the buffer, so the bound of a run is never reached: a run goes on until the
decoder asks for more or fails (`drain_of_message`, `drain_of_more`, `drain_of_failed`).

`overChunks` is a run over a stream that arrives in chunks. `Framing` is what makes such a run deliver a given list of messages wherever
the stream was cut: a decoder takes off a whole frame whatever follows it, and waits while it has only a part of one.
-/

namespace EditorLink.Wire.Decoder

/-! ## One step on frames -/

theorem nextFrame_of_reserved {d : Decoder} {b : UInt8} {scan : Scan} (h : d.scan.advance d.buffer = .reserved b scan) :
    d.nextFrame = (.failed (.decode (.reservedMarker b)), { d with scan }) := by
  rw [nextFrame, h]

theorem nextFrame_of_partially {d : Decoder} {scan : Scan} (h : d.scan.advance d.buffer = .partially scan) :
    d.nextFrame = await { d with scan } (max d.buffer.length scan.need) := by
  rw [nextFrame, h]

theorem nextFrame_of_long {d : Decoder} {length : Nat} (h : d.scan.advance d.buffer = .complete length)
    (hlong : d.limit < length) :
    d.nextFrame = (.failed (.frameTooLarge length d.limit), { d with scan := ⟨length, 0, length⟩ }) := by
  rw [nextFrame, h]
  exact if_pos hlong

/-- The answer of a step that takes a frame off the buffer. -/
def answer : Except ProtocolError Message → Decoded
  | .ok m => .message m
  | .error e => .failed e

theorem nextFrame_of_complete {d : Decoder} {length : Nat} (h : d.scan.advance d.buffer = .complete length)
    (hlength : length ≤ d.limit) :
    d.nextFrame =
      (answer (readFrame (d.buffer.take length)), { d with scan := {}, buffer := d.buffer.drop length }) := by
  rw [nextFrame, h]
  simp only [if_neg (Nat.not_lt.mpr hlength), List.splitAt_eq]
  cases readFrame (d.buffer.take length) <;> rfl

theorem await_ne_message (d d' : Decoder) (pending : Nat) (m : Message) : d.await pending ≠ (.message m, d') := by
  intro h
  rw [await] at h
  split at h <;> cases h

/-- A message comes from a complete frame that is not too long. -/
theorem complete_of_nextFrame {d d' : Decoder} {m : Message} (h : d.nextFrame = (.message m, d')) :
    ∃ length, d.scan.advance d.buffer = .complete length ∧ length ≤ d.limit ∧
      readFrame (d.buffer.take length) = .ok m ∧ d' = { d with scan := {}, buffer := d.buffer.drop length } := by
  cases hscan : d.scan.advance d.buffer with
  | reserved b scan =>
    rw [nextFrame_of_reserved hscan] at h
    cases h
  | partially scan =>
    rw [nextFrame_of_partially hscan] at h
    exact (await_ne_message _ _ _ _ h).elim
  | complete length =>
    rcases Nat.lt_or_ge d.limit length with hlong | hlength
    · rw [nextFrame_of_long hscan hlong] at h
      cases h
    · rw [nextFrame_of_complete hscan hlength] at h
      cases hread : readFrame (d.buffer.take length) with
      | error e =>
        rw [hread] at h
        cases h
      | ok found =>
        rw [hread] at h
        cases h
        exact ⟨length, rfl, hlength, hread, rfl⟩

/-! ## Each message takes something -/

theorem length_of_firstLine {bytes rest : Bytes} {found : Except ProtocolError Message}
    (h : firstLine bytes = (some found, rest)) : rest.length < bytes.length := by
  fun_induction firstLine bytes with
  | case1 bytes hsplit => cases h
  | case2 bytes line after hsplit hread ih =>
    have hafter := length_of_splitLine? hsplit
    have hrest := ih h
    omega
  | case3 bytes line after hsplit m hread =>
    cases h
    exact length_of_splitLine? hsplit
  | case4 bytes line after hsplit e hread =>
    cases h
    exact length_of_splitLine? hsplit

/-- A message takes at least one byte off the buffer. -/
theorem length_of_next {d d' : Decoder} {m : Message} (h : d.next = (.message m, d')) :
    d'.buffer.length < d.buffer.length := by
  rw [next] at h
  split at h
  · obtain ⟨length, -, -, hread, rfl⟩ := complete_of_nextFrame h
    -- no message is in an empty frame
    have hframe : d.buffer.take length ≠ [] := by
      intro hnil
      rw [hnil] at hread
      cases hread
    have hpos : 0 < (d.buffer.take length).length := List.length_pos_iff.mpr hframe
    simp only [List.length_take, List.length_drop] at hpos ⊢
    omega
  · rw [nextLine] at h
    split at h
    · exact (await_ne_message _ _ _ _ h).elim
    · next found rest hline =>
      cases h
      exact length_of_firstLine hline
    · cases h

/-! ## Runs -/

/-- A run with some messages before its own. -/
def Run.behind (messages : List Message) (r : Run) : Run :=
  { r with messages := messages ++ r.messages }

@[simp] theorem Run.behind_nil (r : Run) : r.behind [] = r := rfl

@[simp] theorem Run.behind_behind (first second : List Message) (r : Run) :
    (r.behind second).behind first = r.behind (first ++ second) := by
  simp [behind]

@[simp] theorem Run.failure_behind (messages : List Message) (r : Run) : (r.behind messages).failure = r.failure := rfl

theorem runWith_taken (step : Decoder → Decoded × Decoder) (fuel : Nat) (taken : List Message) (d : Decoder) :
    runWith step fuel taken d = (runWith step fuel [] d).behind taken.reverse := by
  induction fuel generalizing taken d with
  | zero => simp [runWith, Run.behind]
  | succ fuel ih =>
    rw [runWith, runWith]
    split
    · next m d' hstep => rw [ih (m :: taken), ih [m]]; simp
    · simp [Run.behind]
    · simp [Run.behind]

/-- A bound that exceeds the buffer's length is as good as any other. -/
theorem runWith_fuel {fuel more : Nat} {d : Decoder} (hfuel : d.buffer.length < fuel) (hmore : d.buffer.length < more) :
    runWith next fuel [] d = runWith next more [] d := by
  induction fuel generalizing more d with
  | zero => omega
  | succ fuel ih =>
    obtain ⟨more, rfl⟩ : ∃ n, more = n + 1 := ⟨more - 1, by omega⟩
    rw [runWith, runWith]
    split
    · next m d' hstep =>
      have hlength := length_of_next hstep
      have hrest : runWith next fuel [] d' = runWith next more [] d' := ih (by omega) (by omega)
      rw [runWith_taken, runWith_taken next more, hrest]
    · rfl
    · rfl

theorem drain_of_message {d d' : Decoder} {m : Message} (h : d.next = (.message m, d')) :
    d.drain = d'.drain.behind [m] := by
  have hlength := length_of_next h
  rw [drain, runWith, h]
  simp only
  rw [runWith_taken, runWith_fuel hlength (Nat.lt_succ_self _)]
  rfl

theorem drain_of_more {d d' : Decoder} (h : d.next = (.more, d')) : d.drain = ⟨[], none, d'⟩ := by
  rw [drain, runWith, h]
  rfl

theorem drain_of_failed {d d' : Decoder} {e : ProtocolError} (h : d.next = (.failed e, d')) :
    d.drain = ⟨[], some e, d'⟩ := by
  rw [drain, runWith, h]
  rfl

/-- What holds of a decoder as soon as it holds after its next message, holds of every decoder. -/
theorem induct {P : Decoder → Prop} (h : ∀ d, (∀ m d', d.next = (.message m, d') → P d') → P d) (d : Decoder) : P d := by
  induction hlength : d.buffer.length using Nat.strongRecOn generalizing d with
  | _ length ih =>
    subst hlength
    exact h d fun m d' hnext => ih _ (length_of_next hnext) d' rfl

/-! ## Chunks -/

/-- A run over a stream that arrives in chunks: each is appended to the buffer, and then decoding goes on until the decoder asks for
more. The first failure ends the run. -/
def overChunks (d : Decoder) : List Bytes → Run
  | [] => ⟨[], none, d⟩
  | chunk :: chunks =>
    let first := (d.feed chunk).drain
    match first.failure with
    | some _ => first
    | none => (first.decoder.overChunks chunks).behind first.messages

@[simp] theorem buffer_feed (d : Decoder) (chunk : Bytes) : (d.feed chunk).buffer = d.buffer ++ chunk := rfl

@[simp] theorem feed_nil (d : Decoder) : d.feed [] = d := by simp [feed]

@[simp] theorem feed_feed (d : Decoder) (chunk more : Bytes) : (d.feed chunk).feed more = d.feed (chunk ++ more) := by
  simp [feed]

/-! ## Streams of frames -/

/-- Frames carry messages to decoders that are in order. -/
structure Framing (InOrder : Decoder → Prop) (Carries : Bytes → Message → Prop) : Prop where
  feed : ∀ d chunk, InOrder d → InOrder (d.feed chunk)
  empty : ∀ d, InOrder d → d.buffer = [] → ∃ d', d.next = (.more, d') ∧ d'.buffer = [] ∧ InOrder d'
  /-- A part of a frame is not enough, and stays where it is. -/
  part : ∀ d m missing, InOrder d → Carries (d.buffer ++ missing) m → missing ≠ [] →
    ∃ d', d.next = (.more, d') ∧ d'.buffer = d.buffer ∧ InOrder d'
  /-- A whole frame is taken off, whatever follows it. -/
  whole : ∀ d frame m more, InOrder d → Carries frame m → d.buffer = frame ++ more →
    ∃ d', d.next = (.message m, d') ∧ d'.buffer = more ∧ InOrder d'

namespace Framing

variable {InOrder : Decoder → Prop} {Carries : Bytes → Message → Prop} {frame : Message → Bytes}

/-- Decoding takes off the frames that are there and leaves a part of the next one, if more is to come. -/
theorem drain (framing : Framing InOrder Carries) {messages : List Message}
    (hcarries : ∀ m ∈ messages, Carries (frame m) m) {d : Decoder} (hd : InOrder d) {future : Bytes}
    (hstream : d.buffer ++ future = messages.flatMap frame) :
    ∃ done rest d', messages = done ++ rest ∧ d.drain = ⟨done, none, d'⟩ ∧ InOrder d' ∧
      d'.buffer ++ future = rest.flatMap frame ∧ (future = [] → rest = []) := by
  induction messages generalizing d with
  | nil =>
    obtain ⟨hbuffer, rfl⟩ := List.append_eq_nil_iff.mp hstream
    obtain ⟨d', hnext, hempty, hd'⟩ := framing.empty d hd hbuffer
    exact ⟨[], [], d', rfl, drain_of_more hnext, hd', by simp [hempty], fun _ => rfl⟩
  | cons m tail ih =>
    have hm := hcarries m List.mem_cons_self
    -- either a part of the frame is in the buffer, or the whole of it
    rcases Bytes.cut_cases hstream with ⟨missing, hmissing, hpart, rfl⟩ | ⟨more, hwhole, hmore⟩
    · obtain ⟨d', hnext, hbuffer, hd'⟩ := framing.part d m missing hd (hpart ▸ hm) hmissing
      refine ⟨[], m :: tail, d', rfl, drain_of_more hnext, hd', by rw [hbuffer, hstream], fun hnone => ?_⟩
      exact absurd (List.append_eq_nil_iff.mp hnone).1 hmissing
    · obtain ⟨d', hnext, rfl, hd'⟩ := framing.whole d _ m more hd hm hwhole
      have htail : ∀ m ∈ tail, Carries (frame m) m := fun m hm => hcarries m (List.mem_cons_of_mem _ hm)
      obtain ⟨done, rest, last, rfl, hdrain, hlast, hleft, hend⟩ := ih htail hd' hmore
      refine ⟨m :: done, rest, last, rfl, ?_, hlast, hleft, hend⟩
      rw [drain_of_message hnext, hdrain]
      rfl

theorem overChunks (framing : Framing InOrder Carries) {messages : List Message}
    (hcarries : ∀ m ∈ messages, Carries (frame m) m) {d : Decoder} (hd : InOrder d) {chunks : List Bytes}
    (hstream : d.buffer ++ chunks.flatten = messages.flatMap frame) (hidle : chunks.flatten = [] → messages = []) :
    ∃ d', d.overChunks chunks = ⟨messages, none, d'⟩ ∧ d'.buffer = [] ∧ InOrder d' := by
  induction chunks generalizing messages d with
  | nil =>
    obtain rfl := hidle rfl
    exact ⟨d, rfl, by simpa using hstream, hd⟩
  | cons chunk chunks ih =>
    obtain ⟨done, rest, d', rfl, hdrain, hd', hleft, hend⟩ :=
      framing.drain hcarries (framing.feed d chunk hd) (by simpa using hstream : (d.feed chunk).buffer ++ chunks.flatten = messages.flatMap frame)
    have hrest : ∀ m ∈ rest, Carries (frame m) m := fun m hm => hcarries m (List.mem_append_right _ hm)
    obtain ⟨last, hlast, hempty, hin⟩ := ih hrest hd' hleft hend
    refine ⟨last, ?_, hempty, hin⟩
    rw [Decoder.overChunks, hdrain]
    simp only
    rw [hlast]
    rfl

/-- **A stream of frames is decoded wherever it is cut.** From an empty buffer on, every message is delivered, in order, and the buffer
is empty again at the end. -/
theorem deliver (framing : Framing InOrder Carries) {messages : List Message}
    (hcarries : ∀ m ∈ messages, Carries (frame m) m) {d : Decoder} (hd : InOrder d) (hbuffer : d.buffer = [])
    {chunks : List Bytes} (hstream : chunks.flatten = messages.flatMap frame) :
    ∃ d', d.overChunks chunks = ⟨messages, none, d'⟩ ∧ d'.buffer = [] ∧ InOrder d' := by
  refine framing.overChunks hcarries hd (by rw [hbuffer, hstream]; rfl) fun hnone => ?_
  cases messages with
  | nil => rfl
  | cons m tail =>
    -- a frame without bytes would be there while the decoder asks for more
    have hframe : frame m = [] := (List.append_eq_nil_iff.mp (hstream.symm.trans hnone)).1
    obtain ⟨_, hmessage, -⟩ := framing.whole d _ m [] hd (hcarries m List.mem_cons_self) (by rw [hbuffer, hframe]; rfl)
    obtain ⟨_, hmore, -⟩ := framing.empty d hd hbuffer
    rw [hmore] at hmessage
    cases hmessage

end Framing

end EditorLink.Wire.Decoder
