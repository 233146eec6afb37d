import EditorLink.Proofs.Message
import EditorLink.Proofs.Wire.Runs
import EditorLink.Proofs.Wire.Walk

/-!
# EditorLink.Proofs.Wire.Cuts -- where a stream is cut does not matter

A decoder keeps a walk that is as good as a new one (`Resumable`). So a step depends on the bytes in the buffer alone, and what it can do is
said once (`FrameStep`): it waits, or it takes one value within the limit off the buffer, or it is barred by what no later byte takes away
(`Barred.append`). Bytes that are appended later change nothing about a step that gave a message or failed. A run over chunks is therefore
what decoding some front part of the stream at once gives, all of it unless it fails (`overChunks_eq_drain`), and it fails wherever the
stream is cut or nowhere.
-/

namespace EditorLink.Wire

namespace Decoder

/-! ## Walks that are as good as new -/

/-- The walk that is kept will find what a new one would, whatever bytes are appended. -/
def Resumable (d : Decoder) : Prop :=
  ∀ more, d.scan.advance (d.buffer ++ more) = Scan.walk 0 1 (d.buffer ++ more)

theorem Resumable.advance_eq {d : Decoder} (h : d.Resumable) : d.scan.advance d.buffer = Scan.walk 0 1 d.buffer := by
  simpa using h []

theorem Resumable.feed {d : Decoder} (h : d.Resumable) (chunk : Bytes) : (d.feed chunk).Resumable := by
  intro more
  simpa [Decoder.feed] using h (chunk ++ more)

theorem resumable_of_fresh {d : Decoder} (h : d.scan = {}) : d.Resumable :=
  fun more => h ▸ Scan.resumes_fresh more

theorem resumable_of_partially {d : Decoder} {scan : Scan} (h : Scan.walk 0 1 d.buffer = .partially scan) :
    { d with scan }.Resumable :=
  Scan.resumes_of_partially h

theorem resumable_of_reserved {d : Decoder} {b : UInt8} {scan : Scan} (h : Scan.walk 0 1 d.buffer = .reserved b scan) :
    { d with scan }.Resumable := by
  intro more
  have hmore := Scan.walk_append_of_reserved h more
  obtain ⟨-, hneed, hagain⟩ := Scan.walk_of_reserved hmore
  rw [Nat.zero_add] at hneed
  show scan.advance (d.buffer ++ more) = _
  rw [Scan.advance, Bytes.dropExactly?_eq, if_pos hneed, hmore]
  exact hagain

theorem resumable_of_complete {d : Decoder} {length : Nat} (h : Scan.walk 0 1 d.buffer = .complete length) :
    { d with scan := ⟨length, 0, length⟩ }.Resumable := by
  intro more
  have hmore := Scan.walk_append_of_complete h more
  have hlength := Scan.length_le_of_complete hmore
  rw [Nat.zero_add] at hlength
  show Scan.advance ⟨length, 0, length⟩ (d.buffer ++ more) = _
  rw [Scan.advance, Bytes.dropExactly?_eq, if_pos hlength, hmore]
  exact Scan.walk_zero length _

/-- The decoder with a new walk. -/
def restarted (d : Decoder) : Decoder :=
  { d with scan := {} }

/-- A decoder of frames whose walk is as good as new. -/
structure Unbroken (limit : Nat) (d : Decoder) : Prop where
  format : d.format = .msgpack
  limit : d.limit = limit
  resumable : d.Resumable

/-! ## What a step can do -/

/-- What bars a decoder of frames: a marker that starts no value, or a frame over the limit, whether it is complete or not. -/
inductive Barred (limit : Nat) (bytes : Bytes) : ProtocolError → Prop where
  | reserved {b scan} : Scan.walk 0 1 bytes = .reserved b scan → Barred limit bytes (.decode (.reservedMarker b))
  | long {length} : Scan.walk 0 1 bytes = .complete length → limit < length → Barred limit bytes (.frameTooLarge length limit)
  | longPart {scan} : Scan.walk 0 1 bytes = .partially scan → limit < max bytes.length scan.need →
    Barred limit bytes (.frameTooLarge (max bytes.length scan.need) limit)

/-- What bars a decoder is not taken away by more bytes, though it may get another name. -/
theorem Barred.append {limit : Nat} {bytes : Bytes} {e : ProtocolError} (h : Barred limit bytes e) (more : Bytes) :
    ∃ e', Barred limit (bytes ++ more) e' := by
  cases h with
  | reserved hscan => exact ⟨_, .reserved (Scan.walk_append_of_reserved hscan more)⟩
  | long hscan hlong => exact ⟨_, .long (Scan.walk_append_of_complete hscan more) hlong⟩
  | @longPart scan hscan hlong =>
    have hneed := (Scan.walk_append_of_partially hscan).2.1
    obtain ⟨hlater, hlength⟩ := Scan.need_le_of_append hscan more
    cases hscan' : Scan.walk 0 1 (bytes ++ more) with
    | reserved b later => exact ⟨_, .reserved hscan'⟩
    | complete length =>
      have hle := hlength length hscan'
      exact ⟨_, .long hscan' (by omega)⟩
    | partially later =>
      have hle := hlater later hscan'
      exact ⟨_, .longPart hscan' (by omega)⟩

/-- What a step on frames can do. -/
inductive FrameStep (limit : Nat) (d : Decoder) : Decoded → Decoder → Prop where
  | waits {d'} : d'.buffer = d.buffer → d.buffer.length ≤ limit → FrameStep limit d .more d'
  | takes {frame d'} : IsValue frame → frame.length ≤ limit → d.buffer = frame ++ d'.buffer → d'.scan = {} →
    FrameStep limit d (answer (readFrame frame)) d'
  | barred {e d'} : Barred limit d.buffer e → d'.buffer = d.buffer → FrameStep limit d (.failed e) d'

variable {limit : Nat} {d d' : Decoder}

theorem Unbroken.feed (h : Unbroken limit d) (chunk : Bytes) : Unbroken limit (d.feed chunk) :=
  ⟨h.format, h.limit, h.resumable.feed chunk⟩

theorem Unbroken.restarted (h : Unbroken limit d) : Unbroken limit d.restarted :=
  ⟨h.format, h.limit, resumable_of_fresh rfl⟩

theorem Unbroken.next_eq (h : Unbroken limit d) : d.next = d.nextFrame := by
  rw [next, h.format]

/-- A whole value at the front of the buffer is taken off, if it is within the limit. -/
theorem Unbroken.next_value (h : Unbroken limit d) {frame rest : Bytes} (hvalue : IsValue frame) (hlength : frame.length ≤ limit)
    (hbuffer : d.buffer = frame ++ rest) : d.next = (answer (readFrame frame), { d with scan := {}, buffer := rest }) := by
  have hscan : d.scan.advance d.buffer = .complete frame.length := by
    rw [h.resumable.advance_eq, hbuffer, Scan.walk_whole hvalue, Nat.zero_add]
  have hfits : frame.length ≤ d.limit := h.limit.symm ▸ hlength
  rw [h.next_eq, nextFrame_of_complete hscan hfits, hbuffer, List.take_left, List.drop_left]

/-- No value within the limit starts a stream that is barred. -/
theorem Barred.not_value {e : ProtocolError} {frame rest : Bytes} (h : Barred limit (frame ++ rest) e) (hframe : IsValue frame) :
    limit < frame.length := by
  have hscan := Scan.walk_whole hframe 0 rest
  rw [Nat.zero_add] at hscan
  cases h with
  | reserved hfound => cases hscan.symm.trans hfound
  | longPart hfound _ => cases hscan.symm.trans hfound
  | long hfound hlong =>
    cases hscan.symm.trans hfound
    exact hlong

/-- A decoder that is barred fails and keeps its buffer. -/
theorem Barred.next_fails {e : ProtocolError} (hbarred : Barred limit d.buffer e) (h : Unbroken limit d) :
    ∃ e' d', d.next = (.failed e', d') ∧ d'.buffer = d.buffer := by
  have hadvance := h.resumable.advance_eq
  obtain rfl := h.limit
  rw [h.next_eq]
  cases hbarred with
  | reserved hscan => exact ⟨_, _, nextFrame_of_reserved (hadvance.trans hscan), rfl⟩
  | long hscan hlong => exact ⟨_, _, nextFrame_of_long (hadvance.trans hscan) hlong, rfl⟩
  | longPart hscan hlong =>
    rw [nextFrame_of_partially (hadvance.trans hscan), await]
    exact ⟨_, _, if_pos hlong, rfl⟩

/-- **A step on frames** leaves the decoder as good as a new one, whatever it comes to. -/
theorem Unbroken.step (h : Unbroken limit d) : Unbroken limit d.next.2 ∧ FrameStep limit d d.next.1 d.next.2 := by
  have hadvance := h.resumable.advance_eq
  obtain rfl := h.limit
  rw [h.next_eq]
  cases hscan : Scan.walk 0 1 d.buffer with
  | reserved b scan =>
    rw [nextFrame_of_reserved (hadvance.trans hscan)]
    exact ⟨⟨h.format, rfl, resumable_of_reserved hscan⟩, .barred (.reserved hscan) rfl⟩
  | complete length =>
    rcases Nat.lt_or_ge d.limit length with hlong | hlength
    · rw [nextFrame_of_long (hadvance.trans hscan) hlong]
      exact ⟨⟨h.format, rfl, resumable_of_complete hscan⟩, .barred (.long hscan hlong) rfl⟩
    · rw [nextFrame_of_complete (hadvance.trans hscan) hlength]
      refine ⟨⟨h.format, rfl, resumable_of_fresh rfl⟩, ?_⟩
      obtain ⟨frame, rest, hbuffer, rfl, hframe⟩ := Scan.values_of_complete hscan
      rw [Nat.zero_add] at hlength ⊢
      rw [hbuffer, List.take_left, List.drop_left]
      exact .takes hframe hlength hbuffer rfl
  | partially scan =>
    have hkept : Unbroken d.limit { d with scan } := ⟨h.format, rfl, resumable_of_partially hscan⟩
    rw [nextFrame_of_partially (hadvance.trans hscan), await]
    split
    · next hlong => exact ⟨hkept, .barred (.longPart hscan hlong) rfl⟩
    · next hfits =>
      have hlength : d.buffer.length ≤ d.limit := Nat.le_trans (Nat.le_max_left _ _) (Nat.le_of_not_lt hfits)
      exact ⟨hkept, .waits rfl hlength⟩

/-! ## Steps and walks -/

/-- A step of such a decoder depends on its buffer alone. -/
theorem Unbroken.next_restarted (h : Unbroken limit d) : d.restarted.next = d.next := by
  have hscan : d.restarted.scan.advance d.restarted.buffer = d.scan.advance d.buffer := by
    rw [h.restarted.resumable.advance_eq, h.resumable.advance_eq]
    rfl
  rw [h.next_eq, h.restarted.next_eq]
  cases hfound : d.scan.advance d.buffer with
  | reserved b scan => rw [nextFrame_of_reserved hfound, nextFrame_of_reserved (hscan.trans hfound)]; rfl
  | partially scan => rw [nextFrame_of_partially hfound, nextFrame_of_partially (hscan.trans hfound)]; rfl
  | complete length =>
    rcases Nat.lt_or_ge d.limit length with hlong | hlength
    · rw [nextFrame_of_long hfound hlong, nextFrame_of_long (hscan.trans hfound) hlong]; rfl
    · rw [nextFrame_of_complete hfound hlength, nextFrame_of_complete (hscan.trans hfound) hlength]; rfl

/-! ## Steps and later bytes -/

/-- A message comes out the same when more bytes are there. -/
theorem Unbroken.message_feed {m : Message} (h : Unbroken limit d) (hnext : d.next = (.message m, d')) :
    Unbroken limit d' ∧ ∀ more, (d.feed more).next = (.message m, d'.feed more) := by
  rw [h.next_eq] at hnext
  obtain ⟨length, hscan, hlength, hread, rfl⟩ := complete_of_nextFrame hnext
  refine ⟨⟨h.format, h.limit, resumable_of_fresh rfl⟩, fun more => ?_⟩
  rw [h.resumable.advance_eq] at hscan
  have hle : length ≤ d.buffer.length := by simpa using Scan.length_le_of_complete hscan
  have hmore : (d.feed more).scan.advance (d.feed more).buffer = .complete length := by
    rw [(h.feed more).resumable.advance_eq]
    exact Scan.walk_append_of_complete hscan more
  rw [(h.feed more).next_eq, nextFrame_of_complete hmore hlength, buffer_feed, List.take_append_of_le_length hle, hread,
    List.drop_append_of_le_length hle]
  rfl

theorem Unbroken.partially_of_more (h : Unbroken limit d) (hnext : d.next = (.more, d')) :
    ∃ scan, Scan.walk 0 1 d.buffer = .partially scan ∧ max d.buffer.length scan.need ≤ d.limit ∧ d' = { d with scan } := by
  rw [h.next_eq] at hnext
  cases hscan : d.scan.advance d.buffer with
  | reserved b scan =>
    rw [nextFrame_of_reserved hscan] at hnext
    cases hnext
  | complete length =>
    rcases Nat.lt_or_ge d.limit length with hlong | hlength
    · rw [nextFrame_of_long hscan hlong] at hnext
      cases hnext
    · rw [nextFrame_of_complete hscan hlength] at hnext
      cases hread : readFrame (d.buffer.take length) <;> simp [hread, answer] at hnext
  | partially scan =>
    rw [nextFrame_of_partially hscan, await] at hnext
    split at hnext
    · cases hnext
    · next hfits =>
      cases hnext
      exact ⟨scan, h.resumable.advance_eq ▸ hscan, Nat.le_of_not_lt hfits, rfl⟩

/-- A decoder that asks for more has kept its bytes and gone on with its walk. -/
theorem Unbroken.more (h : Unbroken limit d) (hnext : d.next = (.more, d')) :
    Unbroken limit d' ∧ d'.restarted = d.restarted ∧ d'.next = (.more, d') := by
  obtain ⟨scan, hscan, hfits, rfl⟩ := h.partially_of_more hnext
  have hunbroken : Unbroken limit { d with scan } := ⟨h.format, h.limit, resumable_of_partially hscan⟩
  refine ⟨hunbroken, rfl, ?_⟩
  have hagain := hunbroken.resumable.advance_eq.trans hscan
  rw [hunbroken.next_eq, nextFrame_of_partially hagain, await]
  exact if_neg (Nat.not_lt.mpr hfits)

/-- What fails fails also when more bytes are there, though perhaps for another reason. -/
theorem Unbroken.failed_feed {e : ProtocolError} (h : Unbroken limit d) (hnext : d.next = (.failed e, d')) (more : Bytes) :
    ∃ e' d'', (d.feed more).next = (.failed e', d'') := by
  have hstep := h.step.2
  rw [hnext] at hstep
  generalize hdecoded : Decoded.failed e = decoded at hstep
  cases hstep with
  | waits => cases hdecoded
  | barred hbarred _ =>
    obtain ⟨e', hmore⟩ := hbarred.append more
    obtain ⟨e'', last, hfails, -⟩ := Barred.next_fails (d := d.feed more) hmore (h.feed more)
    exact ⟨e'', last, hfails⟩
  | @takes frame _ hvalue hlength hbuffer _ =>
    have hfed : (d.feed more).buffer = frame ++ (d'.buffer ++ more) := by
      rw [buffer_feed, hbuffer, List.append_assoc]
    have hfails := (h.feed more).next_value hvalue hlength hfed
    have hanswer : answer (readFrame frame) = .failed e := hdecoded.symm
    rw [hanswer] at hfails
    exact ⟨e, _, hfails⟩

/-! ## Runs and later bytes -/

theorem Unbroken.drain_restarted (h : Unbroken limit d) : d.restarted.drain = d.drain := by
  have hnext := h.next_restarted
  cases hstep : d.next with
  | mk decoded d' =>
    rw [hstep] at hnext
    cases decoded with
    | message m => rw [drain_of_message hnext, drain_of_message hstep]
    | more => rw [drain_of_more hnext, drain_of_more hstep]
    | failed e => rw [drain_of_failed hnext, drain_of_failed hstep]

/-- **Decoding may be interrupted.** If it did not fail, going on with more bytes gives what decoding all bytes at once would give
then; if it failed, so does decoding all bytes at once, after the same messages. -/
theorem Unbroken.drain_feed (h : Unbroken limit d) (more : Bytes) :
    (d.drain.failure = none → Unbroken limit d.drain.decoder ∧ d.drain.decoder.next = (.more, d.drain.decoder) ∧
      (d.feed more).drain = (d.drain.decoder.feed more).drain.behind d.drain.messages) ∧
    (d.drain.failure ≠ none →
      (d.feed more).drain.messages = d.drain.messages ∧ (d.feed more).drain.failure ≠ none) := by
  induction d using induct with
  | h d ih =>
    cases hstep : d.next with
    | mk decoded d' =>
      cases decoded with
      | message m =>
        obtain ⟨h', hmore⟩ := h.message_feed hstep
        obtain ⟨hgoes, hfails⟩ := ih m d' hstep h'
        rw [drain_of_message hstep, drain_of_message (hmore more)]
        refine ⟨fun hnone => ?_, fun hsome => ?_⟩
        · obtain ⟨hlast, hidle, hdrain⟩ := hgoes hnone
          exact ⟨hlast, hidle, by rw [hdrain, Run.behind_behind]; rfl⟩
        · obtain ⟨hmessages, hfailure⟩ := hfails hsome
          exact ⟨congrArg ([m] ++ ·) hmessages, hfailure⟩
      | more =>
        obtain ⟨h', hsame, hagain⟩ := h.more hstep
        rw [drain_of_more hstep]
        refine ⟨fun _ => ⟨h', hagain, ?_⟩, fun hsome => absurd rfl hsome⟩
        -- both walks are as good as the same new one
        have hfed : (d.feed more).restarted = (d'.feed more).restarted := by
          show d.restarted.feed more = d'.restarted.feed more
          rw [hsame]
        rw [← (h.feed more).drain_restarted, hfed, (h'.feed more).drain_restarted, Run.behind_nil]
      | failed e =>
        obtain ⟨e', d'', hmore⟩ := h.failed_feed hstep more
        rw [drain_of_failed hstep, drain_of_failed hmore]
        exact ⟨fun hnone => by simp at hnone, fun _ => ⟨rfl, by simp⟩⟩

/-- A run over chunks is decoding some front part of the stream at once, which is all of the stream unless it fails. -/
theorem Unbroken.overChunks_eq_drain (h : Unbroken limit d) (hidle : d.next = (.more, d)) (chunks : List Bytes) :
    ∃ front rest, chunks.flatten = front ++ rest ∧ d.overChunks chunks = (d.feed front).drain ∧
      ((d.overChunks chunks).failure = none → rest = []) := by
  induction chunks generalizing d with
  | nil => exact ⟨[], [], rfl, by rw [feed_nil, drain_of_more hidle, overChunks], fun _ => rfl⟩
  | cons chunk chunks ih =>
    have hfed := h.feed chunk
    rw [overChunks]
    cases hfailure : (d.feed chunk).drain.failure with
    | some e =>
      simp only [hfailure]
      exact ⟨chunk, chunks.flatten, rfl, rfl, fun hnone => by simp at hnone⟩
    | none =>
      obtain ⟨hlast, hwaits, -⟩ := (hfed.drain_feed []).1 hfailure
      obtain ⟨front, rest, hsplit, hrun, hend⟩ := ih hlast hwaits
      obtain ⟨-, -, hdrain⟩ := (hfed.drain_feed front).1 hfailure
      simp only
      refine ⟨chunk ++ front, rest, by simp [hsplit], ?_, hend⟩
      rw [hrun, ← feed_feed, hdrain]

/-- A run over chunks delivers what decoding the whole stream at once delivers, and fails exactly if that does. -/
theorem Unbroken.overChunks_same (h : Unbroken limit d) (hidle : d.next = (.more, d)) (chunks : List Bytes) :
    (d.overChunks chunks).messages = (d.feed chunks.flatten).drain.messages ∧
    ((d.overChunks chunks).failure = none ↔ (d.feed chunks.flatten).drain.failure = none) ∧
    ((d.overChunks chunks).failure = none → d.overChunks chunks = (d.feed chunks.flatten).drain) := by
  obtain ⟨front, rest, hsplit, hrun, hend⟩ := h.overChunks_eq_drain hidle chunks
  by_cases hfailure : (d.overChunks chunks).failure = none
  · obtain rfl := hend hfailure
    have hall : d.overChunks chunks = (d.feed chunks.flatten).drain := by rw [hrun, hsplit, List.append_nil]
    rw [← hall]
    exact ⟨rfl, Iff.rfl, fun _ => rfl⟩
  · obtain ⟨-, hfails⟩ := (h.feed front).drain_feed rest
    rw [feed_feed, ← hsplit, ← hrun] at hfails
    obtain ⟨hmessages, hsome⟩ := hfails hfailure
    exact ⟨hmessages.symm, iff_of_false hfailure hsome, fun hnone => absurd hnone hfailure⟩

end Decoder

/-! ## Streams within the limit -/

/-- Complete values of at most `limit` bytes, one after another, and possibly a part of one more. -/
inductive Fits (limit : Nat) : Bytes → Prop where
  | none : Fits limit []
  | part {part missing} : IsValue (part ++ missing) → missing ≠ [] → (part ++ missing).length ≤ limit → Fits limit part
  | value {value rest} : IsValue value → value.length ≤ limit → Fits limit rest → Fits limit (value ++ rest)

/-- What has arrived of such a stream is one. -/
theorem Fits.front {limit : Nat} {front rest : Bytes} (h : Fits limit (front ++ rest)) : Fits limit front := by
  generalize hstream : front ++ rest = stream at h
  induction h generalizing front rest with
  | none => exact (List.append_eq_nil_iff.mp hstream).1 ▸ .none
  | @part part missing hvalue hmissing hlength =>
    subst hstream
    rw [List.append_assoc] at hvalue hlength
    exact .part hvalue (by simp [hmissing]) hlength
  | @value v more hvalue hlength hmore ih =>
    rcases Bytes.cut_cases hstream with ⟨missing, hmissing, rfl, -⟩ | ⟨front, rfl, hsplit⟩
    · exact .part hvalue hmissing hlength
    · exact .value hvalue hlength (ih hsplit)

theorem readFrame_ne_frameTooLarge (frame : Bytes) (size bound : Nat) :
    readFrame frame ≠ .error (.frameTooLarge size bound) := by
  intro h
  rw [readFrame] at h
  split at h
  · rcases Message.fault_of_ofValue h with ⟨fault, h⟩ | ⟨kind, h⟩ <;> cases h
  · cases h

namespace Decoder

variable {limit : Nat} {d : Decoder}

/-- Nothing in a stream within the limit is found too large. -/
theorem Unbroken.drain_of_fits (h : Unbroken limit d) (hlimit : 1 ≤ limit) (hfits : Fits limit d.buffer) (size bound : Nat) :
    d.drain.failure ≠ some (.frameTooLarge size bound) := by
  induction d using induct with
  | h d ih =>
    have hadvance := h.resumable.advance_eq
    -- a walk that asks for more stays within the limit
    have hawait : ∀ scan : Scan, Scan.walk 0 1 d.buffer = .partially scan → max d.buffer.length scan.need ≤ limit →
        d.drain.failure ≠ some (.frameTooLarge size bound) := by
      intro scan hscan hmax
      have hnext := h.next_eq.trans (nextFrame_of_partially (hadvance.trans hscan))
      rw [await, if_neg (show ¬ d.limit < _ by rw [h.limit]; exact Nat.not_lt.mpr hmax)] at hnext
      rw [drain_of_more hnext]
      simp
    generalize hbuffer : d.buffer = buffer at hfits
    cases hfits with
    | none =>
      have hscan : Scan.walk 0 1 d.buffer = .partially ⟨0, 1, 1⟩ := by
        rw [hbuffer]
        exact Scan.walk_nil 0 0
      exact hawait _ hscan (by rw [hbuffer]; exact hlimit)
    | part hvalue hmissing hlength =>
      obtain ⟨scan, hscan, hneed⟩ := Scan.walk_part hvalue hmissing 0
      rw [← hbuffer] at hscan hneed hlength
      refine hawait scan hscan ?_
      simp only [List.length_append] at hneed hlength
      omega
    | @value value rest hvalue hlength hrest =>
      have hnext := h.next_value hvalue hlength hbuffer
      cases hread : readFrame value with
      | ok m =>
        rw [hread] at hnext
        rw [drain_of_message hnext]
        exact ih m _ hnext ⟨h.format, h.limit, resumable_of_fresh rfl⟩ hrest
      | error e =>
        rw [hread] at hnext
        rw [drain_of_failed hnext]
        rintro heq
        cases heq
        exact readFrame_ne_frameTooLarge value size bound hread

/-- A decoder of frames to which nothing has arrived. -/
def ofLimit (limit : Nat) : Decoder :=
  { format := .msgpack, limit }

theorem unbroken_ofLimit (limit : Nat) : Unbroken limit (ofLimit limit) :=
  ⟨rfl, rfl, resumable_of_fresh rfl⟩

theorem next_ofLimit (hlimit : 1 ≤ limit) : (ofLimit limit).next = (.more, ofLimit limit) := by
  have hscan : (ofLimit limit).scan.advance (ofLimit limit).buffer = .partially {} := rfl
  rw [(unbroken_ofLimit limit).next_eq, nextFrame_of_partially hscan, await]
  exact if_neg (Nat.not_lt.mpr hlimit)

/-- **Decoding does not depend on where the stream is cut.** Over any two ways to cut a stream of bytes into chunks, decoding delivers
the same messages; it fails over both or over neither, and if it does not fail the same bytes are left. It never finds a frame too large
in a stream whose complete values, and some completion of whose rest, are within the limit. -/
theorem decoding_ignores_cuts (limit : Nat) (hlimit : 1 ≤ limit) (chunks others : List Bytes)
    (hsame : chunks.flatten = others.flatten) :
    let run := (ofLimit limit).overChunks chunks
    let other := (ofLimit limit).overChunks others
    run.messages = other.messages ∧
    (run.failure = none ↔ other.failure = none) ∧
    (run.failure = none → run.decoder.buffer = other.decoder.buffer) ∧
    (Fits limit chunks.flatten → ∀ size bound, run.failure ≠ some (.frameTooLarge size bound)) := by
  intro run other
  have hunbroken := unbroken_ofLimit limit
  have hidle := next_ofLimit hlimit
  obtain ⟨hmessages, hfailure, hrun⟩ := hunbroken.overChunks_same hidle chunks
  obtain ⟨hmessages', hfailure', hother⟩ := hunbroken.overChunks_same hidle others
  rw [← hsame] at hmessages' hfailure' hother
  have hiff : run.failure = none ↔ other.failure = none := hfailure.trans hfailure'.symm
  refine ⟨hmessages.trans hmessages'.symm, hiff, fun hnone => ?_, fun hfits size bound => ?_⟩
  · have hequal : run = other := (hrun hnone).trans (hother (hiff.mp hnone)).symm
    rw [hequal]
  · obtain ⟨front, rest, hsplit, hfront, -⟩ := hunbroken.overChunks_eq_drain hidle chunks
    rw [hsplit] at hfits
    show ((ofLimit limit).overChunks chunks).failure ≠ _
    rw [hfront]
    exact (hunbroken.feed front).drain_of_fits hlimit hfits.front size bound

/-- A notification is cut inside the length of its method, and a part of a second one follows it. -/
theorem cut_inside_a_length_is_no_matter :
    let cut : List Bytes := [[0x93, 0x02, 0xd9], [0x01, 0x6d, 0x90, 0x93, 0x02]]
    let whole : List Bytes := [[0x93, 0x02, 0xd9, 0x01, 0x6d, 0x90, 0x93, 0x02]]
    (1 ≤ 7 ∧ cut.flatten = whole.flatten ∧ Fits 7 cut.flatten) ∧
    ((ofLimit 7).overChunks cut).messages = ((ofLimit 7).overChunks whole).messages ∧
    (((ofLimit 7).overChunks cut).failure = none ↔ ((ofLimit 7).overChunks whole).failure = none) ∧
    (((ofLimit 7).overChunks cut).failure = none →
      ((ofLimit 7).overChunks cut).decoder.buffer = ((ofLimit 7).overChunks whole).decoder.buffer) ∧
    ∀ size bound, ((ofLimit 7).overChunks cut).failure ≠ some (.frameTooLarge size bound) := by
  intro cut whole
  have hthree : Own (Pack.Head.ofByte 0x93) [] 3 := .array 3
  have htwo : Own (Pack.Head.ofByte 0x02) [] 0 := .natural 2
  have hsized : Own (Pack.Head.ofByte 0xd9) [0x01, 0x6d] 0 := .textSized [0x01] [0x6d] rfl
  have hempty : Own (Pack.Head.ofByte 0xa0) [] 0 := .text []
  have hnothing : Own (Pack.Head.ofByte 0x90) [] 0 := .array 0
  have harguments : Values 1 [0x90] := Values.flat hnothing .none
  have hfirst : IsValue [0x93, 0x02, 0xd9, 0x01, 0x6d, 0x90] :=
    Values.flat hthree (Values.flat htwo (Values.flat hsized harguments))
  have hsecond : IsValue [0x93, 0x02, 0xa0, 0x90] :=
    Values.flat hthree (Values.flat htwo (Values.flat hempty harguments))
  have hrest : Fits 7 [0x93, 0x02] := @Fits.part 7 [0x93, 0x02] [0xa0, 0x90] hsecond (by decide) (by decide)
  have hfits : Fits 7 ([0x93, 0x02, 0xd9, 0x01, 0x6d, 0x90] ++ [0x93, 0x02]) := .value hfirst (by decide) hrest
  obtain ⟨hmessages, hfailure, hleft, hlarge⟩ := decoding_ignores_cuts 7 (by decide) cut whole rfl
  exact ⟨⟨by decide, rfl, hfits⟩, hmessages, hfailure, hleft, hlarge hfits⟩

end Decoder
end EditorLink.Wire
