import Mathlib
import EditorLink.Proofs.Pack.RoundTrip
import EditorLink.Proofs.Wire.Cuts

/-!
# EditorLink.Proofs.Wire.Frames -- messages in frames, there and back

The writer of MessagePack and the walk that finds where a frame ends are two readings of one format. They agree: what is written is one
value of the grammar (`isValue_pack`), so a walk is complete at its end. Hence a message in a frame is delivered from any stream that the
frame is a part of, and a list of messages from any way to cut the stream of their frames (`frames_arrive`).
-/

namespace EditorLink.Wire

open Pack (Head Announces AnnouncesNegative)

/-! ## What is written is one value -/

theorem own_plain {head : Head} {own : Bytes} {b : UInt8} (hb : Head.ofByte b = head) (h : Own head own 0) : IsValue (b :: own) := by
  subst hb
  have hvalue : Values 1 (b :: own ++ []) := Values.flat h .none
  rwa [List.append_nil] at hvalue

theorem isValue_natural {n : Nat} {head : Bytes} (h : Announces .natural .unsigned n head) : IsValue head := by
  cases h with
  | inline b hb => exact own_plain hb (.natural n)
  | sized b width hb hfits =>
    refine own_plain hb ?_
    have hown := Own.unsigned (Bytes.ofNat width n)
    rwa [Bytes.length_ofNat] at hown

theorem isValue_negative {k : Nat} {head : Bytes} (h : AnnouncesNegative k head) : IsValue head := by
  cases h with
  | inline b hb _ => exact own_plain hb (.negative _)
  | sized b width n hb hfits _ =>
    refine own_plain hb ?_
    have hown := Own.signed (Bytes.ofNat width n)
    rwa [Bytes.length_ofNat] at hown

theorem isValue_packNumber (n : Number) : IsValue (Pack.packNumber n) := by
  cases n with
  | natural n => exact isValue_natural (Pack.announces_packNatural n.toNat_lt)
  | negative k => exact isValue_negative (Pack.announcesNegative_packNegative k.isLt)
  | float x =>
    have hdouble : Head.ofByte 0xcb = .double := rfl
    exact own_plain hdouble (.double _ (Bytes.length_ofNat 8 x.bits.toNat))

theorem isValue_text {head content : Bytes} (h : Announces .text .textSized content.length head) : IsValue (head ++ content) := by
  cases h with
  | inline b hb => exact own_plain hb (.text content)
  | sized b width hb hfits =>
    refine own_plain hb ?_
    have hown := Own.textSized (Bytes.ofNat width content.length) content (Bytes.toNat_ofNat hfits).symm
    rwa [Bytes.length_ofNat] at hown

theorem isValue_packText {s : String} (hs : s.utf8ByteSize < 2 ^ 32) : IsValue (Pack.packText s) :=
  isValue_text (Pack.announces_textHead (Bytes.length_ofText s ▸ hs))

theorem isValue_array {count : Nat} {head items : Bytes} (h : Announces .array .arrayCounted count head)
    (hitems : Values count items) : IsValue (head ++ items) := by
  cases h with
  | inline b hb =>
    have hown := Own.array count
    rw [← hb] at hown
    exact Values.flat hown ((Nat.zero_add count).symm ▸ hitems)
  | sized b width hb hfits =>
    have hown := Own.arrayCounted (Bytes.ofNat width count)
    rw [Bytes.length_ofNat, Bytes.toNat_ofNat hfits, ← hb] at hown
    exact Values.flat hown ((Nat.zero_add count).symm ▸ hitems)

theorem isValue_map {count : Nat} {head fields : Bytes} (h : Announces .map .mapCounted count head)
    (hfields : Values (2 * count) fields) : IsValue (head ++ fields) := by
  cases h with
  | inline b hb =>
    have hown := Own.map count
    rw [← hb] at hown
    exact Values.flat hown ((Nat.zero_add (2 * count)).symm ▸ hfields)
  | sized b width hb hfits =>
    have hown := Own.mapCounted (Bytes.ofNat width count)
    rw [Bytes.length_ofNat, Bytes.toNat_ofNat hfits, ← hb] at hown
    exact Values.flat hown ((Nat.zero_add (2 * count)).symm ▸ hfields)

/-- So many values for each element of a list. -/
theorem values_flatMap {α : Type} {write : α → Bytes} {each : Nat} {list : List α} (h : ∀ a ∈ list, Values each (write a)) :
    Values (each * list.length) (list.flatMap write) := by
  induction list with
  | nil => exact .none
  | cons a list ih =>
    have hfirst := h a List.mem_cons_self
    have hrest := ih fun a ha => h a (List.mem_cons_of_mem _ ha)
    have hcount : each * (a :: list).length = each + each * list.length := by
      rw [List.length_cons, Nat.mul_succ, Nat.add_comm]
    rw [hcount, List.flatMap_cons]
    exact hfirst.append hrest

/-- **A value is written as one value of the grammar.** -/
theorem isValue_pack {v : Value} (hshort : v.Short (2 ^ 32)) : IsValue (Pack.pack v) := by
  induction v using Value.induct with
  | null =>
    rw [Pack.pack]
    have hnil : Head.ofByte 0xc0 = .nil := rfl
    exact own_plain hnil .nil
  | bool b =>
    cases b with
    | false =>
      rw [Pack.pack]
      have hfalse : Head.ofByte 0xc2 = .bool false := rfl
      exact own_plain hfalse (.bool false)
    | true =>
      rw [Pack.pack]
      have htrue : Head.ofByte 0xc3 = .bool true := rfl
      exact own_plain htrue (.bool true)
  | number n =>
    rw [Pack.pack]
    exact isValue_packNumber n
  | string s =>
    rw [Pack.pack]
    exact isValue_packText (Value.short_string_iff.mp hshort)
  | array items ih =>
    obtain ⟨hcount, hshorts⟩ := Value.short_array_iff.mp hshort
    have hitems : Values (1 * items.length) (items.flatMap fun v => Pack.pack v) := by
      apply values_flatMap
      intro v hv
      exact ih v hv (hshorts v hv)
    rw [Nat.one_mul] at hitems
    rw [Pack.pack]
    exact isValue_array (Pack.announces_arrayHead hcount) hitems
  | object fields ih =>
    obtain ⟨hcount, hshorts⟩ := Value.short_object_iff.mp hshort
    have hfields : Values (2 * fields.length) (fields.flatMap fun f => Pack.packText f.1 ++ Pack.pack f.2) := by
      apply values_flatMap
      intro f hf
      obtain ⟨hkey, hvalue⟩ := hshorts f hf
      exact (isValue_packText hkey).append (ih f hf hvalue)
    rw [Pack.pack]
    exact isValue_map (Pack.announces_mapHead hcount) hfields

/-! ## Frames in a stream -/

/-- A message that a frame carries: it is in order, not too deep, and short enough for the format and for the limit. -/
structure Framed (limit : Nat) (m : Message) : Prop where
  notNullFailure : ¬ m.IsNullFailure
  wellFormed : m.toValue.WellFormed
  depth : m.toValue.depth ≤ 1023
  short : m.toValue.Short (2 ^ 32)
  length : (encode .msgpack m).length ≤ limit

/-- A frame of at most `limit` bytes in which a message is read. -/
structure Carries (limit : Nat) (frame : Bytes) (m : Message) : Prop where
  isValue : IsValue frame
  length : frame.length ≤ limit
  reads : readFrame frame = .ok m

theorem Framed.carries {limit : Nat} {m : Message} (h : Framed limit m) : Carries limit (encode .msgpack m) m := by
  refine ⟨isValue_pack h.short, h.length, ?_⟩
  show readFrame (Pack.pack m.toValue) = .ok m
  rw [readFrame, Pack.read?_pack h.wellFormed h.short h.depth]
  exact Message.ofValue_toValue h.notNullFailure

namespace Decoder

variable {limit : Nat} {d : Decoder}

/-- A decoder that walks over a part of a value waits for the rest of it. -/
theorem Unbroken.waits (h : Unbroken limit d) {scan : Scan} (hscan : Scan.walk 0 1 d.buffer = .partially scan)
    (hlength : max d.buffer.length scan.need ≤ limit) :
    ∃ d', d.next = (.more, d') ∧ d'.buffer = d.buffer ∧ Unbroken limit d' := by
  have hadvance : d.scan.advance d.buffer = .partially scan := h.resumable.advance_eq.trans hscan
  have hfits : ¬ d.limit < max d.buffer.length scan.need := by
    rw [h.limit]
    exact Nat.not_lt.mpr hlength
  have hnext : d.next = (.more, { d with scan }) := by
    rw [h.next_eq, nextFrame_of_partially hadvance, await]
    exact if_neg hfits
  exact ⟨_, hnext, rfl, (h.more hnext).1⟩

/-- Frames carry messages to decoders whose walk is as good as new. -/
theorem framing_frames (hlimit : 1 ≤ limit) : Framing (Unbroken limit) (Carries limit) where
  feed := fun d chunk hd => hd.feed chunk
  empty := by
    intro d hd hbuffer
    have hscan : Scan.walk 0 1 d.buffer = .partially ⟨0, 1, 1⟩ := by
      rw [hbuffer]
      exact Scan.walk_nil 0 0
    have hlength : max d.buffer.length 1 ≤ limit := by
      rw [hbuffer]
      exact hlimit
    obtain ⟨d', hnext, hsame, hd'⟩ := hd.waits hscan hlength
    exact ⟨d', hnext, hsame.trans hbuffer, hd'⟩
  part := by
    intro d m missing hd hcarries hmissing
    obtain ⟨scan, hscan, hneed⟩ := Scan.walk_part hcarries.isValue hmissing 0
    have hlength := hcarries.length
    rw [List.length_append] at hneed hlength
    exact hd.waits hscan (by omega)
  whole := by
    intro d frame m more hd hcarries hbuffer
    refine ⟨{ d with scan := {}, buffer := more }, ?_, rfl, hd.format, hd.limit, resumable_of_fresh rfl⟩
    rw [hd.next_value hcarries.isValue hcarries.length hbuffer, hcarries.reads]
    rfl

/-- A decoder with an empty buffer that is told that the stream has ended has nothing to report. -/
theorem finish_of_more {d' : Decoder} (hnext : d.next = (.more, d')) (hbuffer : d'.buffer = []) : d.finish = (.more, d') := by
  rw [finish, hnext]
  simp only
  rw [hbuffer]
  rfl

/-- **Messages in frames arrive as they were sent.** However the stream of their frames is cut into chunks, decoding delivers exactly
these messages, does not fail, and leaves nothing; at the end of the stream there is nothing to report. -/
theorem frames_arrive (limit : Nat) (messages : List Message) (chunks : List Bytes) (hlimit : 1 ≤ limit)
    (hframed : ∀ m ∈ messages, Framed limit m) (hstream : chunks.flatten = encodeAll .msgpack messages) :
    ∃ d d', (ofLimit limit).overChunks chunks = ⟨messages, none, d⟩ ∧ d.buffer = [] ∧ d.finish = (.more, d') := by
  have hcarries : ∀ m ∈ messages, Carries limit (encode .msgpack m) m := by
    intro m hm
    exact (hframed m hm).carries
  obtain ⟨d, hrun, hbuffer, hd⟩ := (framing_frames hlimit).deliver hcarries (unbroken_ofLimit limit) rfl hstream
  obtain ⟨d', hnext, hbuffer', -⟩ := (framing_frames hlimit).empty d hd hbuffer
  exact ⟨d, d', hrun, hbuffer, finish_of_more hnext hbuffer'⟩

/-- A request and the failure of another one, cut inside an integer and inside a character. -/
theorem two_messages_arrive_in_three_chunks :
    let messages : List Message := [
      .request 1 "f" [.nat 300, .number (.negative ⟨2 ^ 63 - 1, by decide⟩), .object [("a", .null), ("b", .string "é")]],
      .reply 7 (.error (.number (.float ⟨0x3ff8000000000000, by decide⟩)))]
    let chunks : List Bytes := [
      [0x94, 0x00, 0x01, 0xa1, 0x66, 0x93, 0xcd, 0x01],
      [0x2c, 0xd3, 0x80, 0, 0, 0, 0, 0, 0, 0, 0x82, 0xa1, 0x61, 0xc0, 0xa1, 0x62, 0xa2, 0xc3],
      [0xa9, 0x94, 0x01, 0x07, 0xcb, 0x3f, 0xf8, 0, 0, 0, 0, 0, 0, 0xc0]]
    (1 ≤ 32 ∧ (∀ m ∈ messages, Framed 32 m) ∧ chunks.flatten = encodeAll .msgpack messages) ∧
      ∃ d d', (ofLimit 32).overChunks chunks = ⟨messages, none, d⟩ ∧ d.buffer = [] ∧ d.finish = (.more, d') := by
  intro messages chunks
  have hframed : ∀ m ∈ messages, Framed 32 m := by
    simp only [messages, List.forall_mem_cons, List.not_mem_nil, false_implies, implies_true, and_true]
    have hordered : Keyed.Ordered [("a", Value.null), ("b", .string "é")] := by
      rw [Keyed.Ordered, List.pairwise_pair]
      decide
    constructor
    · refine ⟨id, ?_, by decide, ?_, by cbv⟩
      · simp [Message.toValue, Value.nat, hordered, Value.WellFormed.null, Value.WellFormed.number, Value.WellFormed.string]
      · simp [Message.toValue, Value.nat]
        decide
    · refine ⟨id, ?_, by decide, ?_, by cbv⟩
      · simp [Message.toValue, Value.nat, Value.WellFormed.null, Value.WellFormed.number]
      · simp [Message.toValue, Value.nat]
  have hstream : chunks.flatten = encodeAll .msgpack messages := by
    cbv
  exact ⟨⟨by decide, hframed, hstream⟩, frames_arrive 32 messages chunks (by decide) hframed hstream⟩

end Decoder
end EditorLink.Wire
