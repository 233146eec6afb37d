import EditorLink.Proofs.Pack.Heads
import EditorLink.Proofs.Value

/-!
# EditorLink.Proofs.Pack.RoundTrip -- values are read as they were written

A value that was written reads back as it was, whatever follows it (`unpack_pack`), if it may be nested so deep and its lengths and counts
fit into the thirty-two bits that the format has for them. The proof goes over the containers of the value; each kind of head is met in
one lemma, where the reader does the same for both ways to write a number.
-/

namespace EditorLink.Pack

/-! ## One marker -/

/-- The reader of what is in a container, where so many containers are still allowed. -/
def inner? : Nat → Option (Bytes → Reading Value)
  | 0 => none
  | depth + 1 => some (unpack depth)

theorem unpack_cons (depth : Nat) (b : UInt8) (bytes : Bytes) :
    unpack depth (b :: bytes) = readAfter (inner? depth) bytes (Head.ofByte b) := by
  cases depth <;> rfl

/-! ## Numbers -/

theorem unpack_natural {n : UInt64} {head : Bytes} (h : Announces .natural .unsigned n.toNat head) (depth : Nat) (rest : Bytes) :
    unpack depth (head ++ rest) = some (.nat n, rest) := by
  cases h with
  | inline b hb =>
    show unpack depth (b :: rest) = _
    rw [unpack_cons, hb, readAfter, UInt64.ofNat_toNat]
  | sized b width hb hfits =>
    show unpack depth (b :: (Bytes.ofNat width n.toNat ++ rest)) = _
    rw [unpack_cons, hb, readAfter, readUnsigned, Bytes.readNat?_ofNat hfits, Option.map_some]
    simp only
    rw [UInt64.ofNat_toNat]

theorem ofInt_negative (k : Fin 0x8000_0000_0000_0000) : Value.ofInt (-(k.val : Int) - 1) = .number (.negative k) := by
  have hnumber : Number.ofInt? (-(k.val : Int) - 1) = some (.negative k) := by
    have hback : (-(-(k.val : Int) - 1) - 1).toNat = k.val := by omega
    rw [Number.ofInt?, if_neg (by omega), dif_pos (by omega)]
    simp only [hback]
  rw [Value.ofInt, hnumber]

theorem unpack_negative {k : Fin 0x8000_0000_0000_0000} {head : Bytes} (h : AnnouncesNegative k.val head) (depth : Nat) (rest : Bytes) :
    unpack depth (head ++ rest) = some (.number (.negative k), rest) := by
  cases h with
  | inline b hb hsmall =>
    have hvalue : ((255 - k.val : Nat) : Int) - 256 = -(k.val : Int) - 1 := by omega
    show unpack depth (b :: rest) = _
    rw [unpack_cons, hb, readAfter, hvalue, ofInt_negative]
  | sized b width n hb hfits hvalue =>
    show unpack depth (b :: (Bytes.ofNat width n ++ rest)) = _
    rw [unpack_cons, hb, readAfter, readSigned, Bytes.readNat?_ofNat hfits, Option.map_some]
    simp only
    rw [hvalue, ofInt_negative]

theorem unpack_float (x : Double) (depth : Nat) (rest : Bytes) :
    unpack depth (packNumber (.float x) ++ rest) = some (.number (.float x), rest) := by
  have hfits : x.bits.toNat < 256 ^ 8 := x.bits.toNat_lt
  have hbits : Double.ofBits? x.bits = some x := dif_pos x.finite
  show unpack depth (0xcb :: (Bytes.ofNat 8 x.bits.toNat ++ rest)) = _
  rw [unpack_cons, show Head.ofByte 0xcb = .double from rfl, readAfter, readDouble, Bytes.readNat?_ofNat hfits, Option.map_some]
  simp only
  rw [UInt64.ofNat_toNat, hbits]
  rfl

theorem unpack_number (n : Number) (depth : Nat) (rest : Bytes) :
    unpack depth (packNumber n ++ rest) = some (.number n, rest) := by
  cases n with
  | natural n => exact unpack_natural (announces_packNatural n.toNat_lt) depth rest
  | negative k => exact unpack_negative (announcesNegative_packNegative k.isLt) depth rest
  | float x => exact unpack_float x depth rest

/-! ## Texts -/

theorem readText_ofText (s : String) (rest : Bytes) :
    readText (Bytes.ofText s).length (Bytes.ofText s ++ rest) = some (s, rest) := by
  rw [readText, Bytes.splitExactly?_length_append]
  simp

/-- A text reads back as a value, and as a key. -/
theorem read_packText {s : String} (hs : s.utf8ByteSize < 2 ^ 32) (rest : Bytes) :
    (∀ depth, unpack depth (packText s ++ rest) = some (.string s, rest)) ∧ readKey (packText s ++ rest) = some (s, rest) := by
  have hread := readText_ofText s rest
  have hhead := announces_textHead (Bytes.length_ofText s ▸ hs)
  have hbytes : packText s ++ rest = textHead (Bytes.ofText s).length ++ (Bytes.ofText s ++ rest) := by simp [packText]
  rw [hbytes]
  generalize textHead (Bytes.ofText s).length = head at hhead
  cases hhead with
  | inline b hb =>
    refine ⟨fun depth => ?_, ?_⟩
    · show unpack depth (b :: (Bytes.ofText s ++ rest)) = _
      rw [unpack_cons, hb, readAfter, hread, Option.map_some]
    · show readKey (b :: (Bytes.ofText s ++ rest)) = _
      rw [readKey, hb]
      exact hread
  | sized b width hb hfits =>
    have hsized : readSizedText width (Bytes.ofNat width (Bytes.ofText s).length ++ (Bytes.ofText s ++ rest)) = some (s, rest) := by
      rw [readSizedText, Bytes.readNat?_ofNat hfits]
      exact hread
    refine ⟨fun depth => ?_, ?_⟩
    · show unpack depth (b :: (Bytes.ofNat width _ ++ _)) = _
      rw [unpack_cons, hb, readAfter, hsized, Option.map_some]
    · show readKey (b :: (Bytes.ofNat width _ ++ _)) = _
      rw [readKey, hb]
      exact hsized

/-! ## Containers -/

theorem unpack_array {count : Nat} {head : Bytes} (h : Announces .array .arrayCounted count head) (depth : Nat) (rest : Bytes) :
    unpack (depth + 1) (head ++ rest) = readArray (unpack depth) count rest := by
  cases h with
  | inline b hb =>
    show unpack (depth + 1) (b :: rest) = _
    rw [unpack_cons, hb]
    rfl
  | sized b width hb hfits =>
    show unpack (depth + 1) (b :: (Bytes.ofNat width count ++ rest)) = _
    rw [unpack_cons, hb, readAfter, Bytes.readNat?_ofNat hfits]
    rfl

theorem unpack_map {count : Nat} {head : Bytes} (h : Announces .map .mapCounted count head) (depth : Nat) (rest : Bytes) :
    unpack (depth + 1) (head ++ rest) = readMap (unpack depth) count rest := by
  cases h with
  | inline b hb =>
    show unpack (depth + 1) (b :: rest) = _
    rw [unpack_cons, hb]
    rfl
  | sized b width hb hfits =>
    show unpack (depth + 1) (b :: (Bytes.ofNat width count ++ rest)) = _
    rw [unpack_cons, hb, readAfter, Bytes.readNat?_ofNat hfits]
    rfl

/-- Items are read one after another if each is read whatever follows it. -/
theorem readItems_flatMap {element : Bytes → Reading Value} {write : Value → Bytes} {items : List Value}
    (h : ∀ v ∈ items, ∀ rest, element (write v ++ rest) = some (v, rest)) (taken : List Value) (rest : Bytes) :
    readItems element items.length taken (items.flatMap write ++ rest) = some (taken.reverse ++ items, rest) := by
  induction items generalizing taken with
  | nil => simp [readItems]
  | cons v items ih =>
    have hv := h v List.mem_cons_self
    have hitems := ih fun v hv => h v (List.mem_cons_of_mem _ hv)
    rw [List.flatMap_cons, List.append_assoc, List.length_cons, readItems, hv]
    simp only
    rw [hitems]
    simp

theorem readFields_flatMap {element : Bytes → Reading Value} {writeKey : String → Bytes} {write : Value → Bytes} {fields : Fields}
    (hkey : ∀ f ∈ fields, ∀ rest, readKey (writeKey f.1 ++ rest) = some (f.1, rest))
    (h : ∀ f ∈ fields, ∀ rest, element (write f.2 ++ rest) = some (f.2, rest)) (taken : Fields) (rest : Bytes) :
    readFields element fields.length taken (fields.flatMap (fun f => writeKey f.1 ++ write f.2) ++ rest) =
      some (taken.reverse ++ fields, rest) := by
  induction fields generalizing taken with
  | nil => simp [readFields]
  | cons f fields ih =>
    have hname := hkey f List.mem_cons_self
    have hvalue := h f List.mem_cons_self
    have hfields := ih (fun f hf => hkey f (List.mem_cons_of_mem _ hf)) fun f hf => h f (List.mem_cons_of_mem _ hf)
    rw [List.flatMap_cons, List.append_assoc, List.append_assoc, List.length_cons, readFields, hname]
    simp only
    rw [hvalue]
    simp only
    rw [hfields]
    simp

/-! ## Values -/

/-- **A value that was written reads back as it was**, whatever follows it. -/
theorem unpack_pack {v : Value} (hwell : v.WellFormed) (hshort : v.Short (2 ^ 32)) {depth : Nat} (hdepth : v.depth ≤ depth)
    (rest : Bytes) : unpack depth (pack v ++ rest) = some (v, rest) := by
  induction v using Value.induct generalizing depth rest with
  | null => rw [pack]; show unpack depth (0xc0 :: rest) = _; rw [unpack_cons]; rfl
  | bool b =>
    cases b with
    | false => rw [pack]; show unpack depth (0xc2 :: rest) = _; rw [unpack_cons]; rfl
    | true => rw [pack]; show unpack depth (0xc3 :: rest) = _; rw [unpack_cons]; rfl
  | number n =>
    rw [pack]
    exact unpack_number n depth rest
  | string s =>
    rw [pack]
    exact (read_packText (Value.short_string_iff.mp hshort) rest).1 depth
  | array items ih =>
    obtain ⟨hpos, hinner⟩ := Value.depth_array_le_iff.mp hdepth
    obtain ⟨depth, rfl⟩ : ∃ d, depth = d + 1 := ⟨depth - 1, by omega⟩
    obtain ⟨hcount, hitems⟩ := Value.short_array_iff.mp hshort
    have hwell' := Value.wellFormed_array_iff.mp hwell
    have hread : ∀ v ∈ items, ∀ rest, unpack depth (pack v ++ rest) = some (v, rest) := by
      intro v hv rest
      exact ih v hv (hwell' v hv) (hitems v hv) (hinner v hv) rest
    rw [pack, List.append_assoc, unpack_array (announces_arrayHead hcount), readArray, readItems_flatMap hread]
    simp
  | object fields ih =>
    obtain ⟨hpos, hinner⟩ := Value.depth_object_le_iff.mp hdepth
    obtain ⟨depth, rfl⟩ : ∃ d, depth = d + 1 := ⟨depth - 1, by omega⟩
    obtain ⟨hcount, hfields⟩ := Value.short_object_iff.mp hshort
    obtain ⟨hordered, hwell'⟩ := Value.wellFormed_object_iff.mp hwell
    have hkey : ∀ f ∈ fields, ∀ rest, readKey (packText f.1 ++ rest) = some (f.1, rest) := by
      intro f hf rest
      exact (read_packText (hfields f hf).1 rest).2
    have hread : ∀ f ∈ fields, ∀ rest, unpack depth (pack f.2 ++ rest) = some (f.2, rest) := by
      intro f hf rest
      exact ih f hf (hwell' f hf) (hfields f hf).2 (hinner f hf) rest
    rw [pack, List.append_assoc, unpack_map (announces_mapHead hcount), readMap, readFields_flatMap hkey hread]
    simp [Value.ofFields, Keyed.ofList_of_ordered hordered]

/-- All bytes of a value together read back as the value. -/
theorem read?_pack {v : Value} (hwell : v.WellFormed) (hshort : v.Short (2 ^ 32)) (hdepth : v.depth ≤ maxDepth) :
    read? (pack v) = some v := by
  have hwhole := unpack_pack hwell hshort hdepth []
  rw [List.append_nil] at hwhole
  rw [read?, hwhole]

end EditorLink.Pack
