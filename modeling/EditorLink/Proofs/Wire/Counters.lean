import Mathlib
import EditorLink.Proofs.Wire.Calls

/-!
# EditorLink.Proofs.Wire.Counters -- a walk whose counters are machine words

A walk counts in natural numbers. Here it counts in words of sixty-four bits, and each sum, difference and product is refused unless a
word holds it (`Counters`). On a buffer shorter than `2 ^ 31` bytes nothing is ever refused, and what is found is what the walk in
natural numbers finds (`words_are_enough`).

What bounds the counters is how little a marker can do (`Layout.Small`). What belongs to it ends at most `2 ^ 32 + 4` bytes behind it, and it adds
at most `2 ^ 33 - 2` values, which are the keys and values of the largest map. A walk has visited at most one marker for each byte
before its place, and none behind the buffer; so this place bounds the values that are left (`Scan.Within`), also in a walk that has been
interrupted and goes on when more bytes are there.
-/

namespace EditorLink.Wire

open Pack (Head)

/-! ## How far a marker reaches -/

/-- The widths and sizes that markers have. -/
def Layout.Small : Layout → Prop
  | .fixed size => size ≤ 31
  | .sized width extra => width ≤ 4 ∧ extra ≤ 1
  | .items count => count ≤ 30
  | .counted width per => width ≤ 4 ∧ per ≤ 2

instance : DecidablePred Layout.Small
  | .fixed size => inferInstanceAs (Decidable (size ≤ 31))
  | .sized width extra => inferInstanceAs (Decidable (width ≤ 4 ∧ extra ≤ 1))
  | .items count => inferInstanceAs (Decidable (count ≤ 30))
  | .counted width per => inferInstanceAs (Decidable (width ≤ 4 ∧ per ≤ 2))

theorem small_of_layout? {b : UInt8} {layout : Layout} (h : layout? (Head.ofByte b) = some layout) : layout.Small := by
  have hall : ∀ n : Fin 256, (layout? (Head.ofByte (.ofNat n))).all (fun l => decide l.Small) = true := by decide +kernel
  have hb := hall ⟨b.toNat, b.toNat_lt⟩
  rw [UInt8.ofNat_toNat, h] at hb
  exact of_decide_eq_true hb

theorem toNat_digits_lt (digits : Bytes) : Bytes.toNat digits < 256 ^ digits.length := by
  induction digits using List.reverseRecOn with
  | nil => simp [Bytes.toNat]
  | append_singleton digits b ih =>
    have hb : b.toNat < 256 := b.toNat_lt
    rw [Bytes.toNat_concat, List.length_append, List.length_singleton, Nat.pow_succ]
    omega

/-- The lengths and counts behind markers have four bytes or fewer. -/
theorem lt_of_readNat? {width n : Nat} {bytes rest : Bytes} (h : Bytes.readNat? width bytes = some (n, rest)) (hwidth : width ≤ 4) :
    n < 0x1_0000_0000 := by
  obtain ⟨digits, -, rfl, rfl⟩ := Bytes.readNat?_eq_some_iff.mp h
  calc Bytes.toNat digits < 256 ^ digits.length := toNat_digits_lt digits
    _ ≤ 256 ^ 4 := Nat.pow_le_pow_right (by decide) hwidth
    _ = 0x1_0000_0000 := by decide

namespace Scan

section Reach

variable {start : Nat} {bytes : Bytes} {layout : Layout}

theorem need_of_short {need : Nat} (hsmall : layout.Small) (h : stride start bytes layout = .short need) : need ≤ start + 4 := by
  cases layout with
  | fixed size => cases h
  | items count => cases h
  | sized width extra =>
    rw [stride] at h
    split at h
    · cases h
      have := hsmall.1
      omega
    · cases h
  | counted width per =>
    rw [stride] at h
    split at h
    · cases h
      have := hsmall.1
      omega
    · cases h

/-- A marker reaches not much further than the longest payload, and adds no more values than the largest map has. -/
theorem reach_of_full {stop added : Nat} {rest : Option Bytes} (hsmall : layout.Small) (h : stride start bytes layout = .full stop added rest) :
    start ≤ stop ∧ stop ≤ start + 0x1_0000_0004 ∧ added ≤ 0x1_FFFF_FFFE := by
  cases layout with
  | fixed size =>
    cases h
    have hsize : size ≤ 31 := hsmall
    omega
  | items count =>
    cases h
    have hcount : added ≤ 30 := hsmall
    omega
  | sized width extra =>
    rw [stride] at h
    split at h
    · cases h
    · next size _ hread =>
      cases h
      obtain ⟨hwidth, hextra⟩ := hsmall
      have hsize := lt_of_readNat? hread hwidth
      omega
  | counted width per =>
    rw [stride] at h
    split at h
    · cases h
    · next count _ hread =>
      cases h
      obtain ⟨hwidth, hper⟩ := hsmall
      have hcount := lt_of_readNat? hread hwidth
      have hadded : count * per ≤ count * 2 := Nat.mul_le_mul_left count hper
      omega

end Reach

/-- A marker of that layout stands in the buffer, before `bytes`. -/
structure Marked (buffer : Bytes) (offset : Nat) (b : UInt8) (bytes : Bytes) (layout : Layout) : Prop where
  drop : buffer.drop offset = b :: bytes
  layout : layout? (Head.ofByte b) = some layout

section Marked

variable {buffer bytes rest : Bytes} {offset stop added : Nat} {b : UInt8} {layout : Layout}

theorem Marked.small (h : Marked buffer offset b bytes layout) : layout.Small :=
  small_of_layout? h.layout

theorem Marked.length_eq (h : Marked buffer offset b bytes layout) : buffer.length = offset + 1 + bytes.length := by
  have hlength := congrArg List.length h.drop
  rw [List.length_drop, List.length_cons] at hlength
  omega

/-- What is missing is behind the buffer. -/
theorem Marked.length_lt (h : Marked buffer offset b bytes layout) (hstride : stride (offset + 1) bytes layout = .full stop added none) :
    buffer.length < stop := by
  rw [h.length_eq]
  exact (stride_beyond hstride).1

/-- What is left behind a marker and its own bytes is what the buffer holds there. -/
theorem Marked.drop_stop (h : Marked buffer offset b bytes layout) (hstride : stride (offset + 1) bytes layout = .full stop added (some rest)) :
    stop ≤ buffer.length ∧ buffer.drop stop = rest := by
  obtain ⟨own, rfl, rfl, -⟩ := stride_full hstride
  constructor
  · rw [h.length_eq, List.length_append]
    omega
  · rw [Nat.add_assoc, ← List.drop_drop, h.drop, Nat.add_comm, List.drop_succ_cons, List.drop_left]

end Marked

/-! ## What a walk can have counted -/

/-- The bounds of a walk's counters: a place is not far behind the buffer, and each byte before it may have added a largest map. -/
structure Within (buffer : Bytes) (offset remaining : Nat) : Prop where
  offset_le : offset ≤ buffer.length + 0x1_0000_0004
  remaining_le : remaining ≤ 1 + min offset buffer.length * 0x1_FFFF_FFFE

/-- What a walk computes at a place stays below `2 ^ 64`, and a value is left for it to count down. -/
structure InWords (buffer : Bytes) (scan : Scan) : Prop where
  start : scan.offset + 1 < UInt64.size
  left : 1 ≤ scan.remaining
  short : ∀ {b bytes layout need}, Marked buffer scan.offset b bytes layout →
    stride (scan.offset + 1) bytes layout = .short need → need < UInt64.size
  full : ∀ {b bytes layout stop added rest}, Marked buffer scan.offset b bytes layout →
    stride (scan.offset + 1) bytes layout = .full stop added rest →
    stop < UInt64.size ∧ added < UInt64.size ∧ scan.remaining - 1 + added < UInt64.size

section Within

variable {buffer bytes : Bytes} {offset remaining stop added : Nat} {b : UInt8} {layout : Layout} {rest : Option Bytes}

/-- A marker inside the buffer keeps the bounds. -/
theorem Within.pass (h : Within buffer offset remaining) (hleft : 1 ≤ remaining) (hmarked : Marked buffer offset b bytes layout)
    (hstride : stride (offset + 1) bytes layout = .full stop added rest) : Within buffer stop (remaining - 1 + added) := by
  have hremaining := h.remaining_le
  have hlength := hmarked.length_eq
  obtain ⟨hstart, hstop, hadded⟩ := reach_of_full hmarked.small hstride
  -- the place has got one byte of the buffer further at least, which may have added as much as it did
  constructor
  · omega
  · omega

/-- More bytes keep the bounds. -/
theorem Within.append (h : Within buffer offset remaining) (more : Bytes) : Within (buffer ++ more) offset remaining := by
  have hlength : buffer.length ≤ (buffer ++ more).length := by simp
  constructor
  · exact h.offset_le.trans (Nat.add_le_add_right hlength _)
  · calc remaining ≤ 1 + min offset buffer.length * 0x1_FFFF_FFFE := h.remaining_le
      _ ≤ 1 + min offset (buffer ++ more).length * 0x1_FFFF_FFFE :=
        Nat.add_le_add_left (Nat.mul_le_mul_right _ (min_le_min_left offset hlength)) 1

/-- A buffer of less than `2 ^ 31` bytes cannot have announced `2 ^ 64` values. -/
theorem Within.remaining_lt (h : Within buffer offset remaining) (hshort : buffer.length < 2 ^ 31) : remaining < UInt64.size := by
  calc remaining ≤ 1 + min offset buffer.length * 0x1_FFFF_FFFE := h.remaining_le
    _ ≤ 1 + (2 ^ 31 - 1) * 0x1_FFFF_FFFE :=
      Nat.add_le_add_left (Nat.mul_le_mul_right _ ((Nat.min_le_right _ _).trans (Nat.le_pred_of_lt hshort))) 1
    _ < UInt64.size := by decide

theorem Within.inWords {scan : Scan} (h : Within buffer scan.offset scan.remaining) (hshort : buffer.length < 2 ^ 31)
    (hleft : 1 ≤ scan.remaining) : InWords buffer scan := by
  have hoffset := h.offset_le
  have hword : UInt64.size = 2 ^ 64 := rfl
  constructor
  · omega
  · exact hleft
  · intro b bytes layout need hmarked hstride
    have hneed := need_of_short hmarked.small hstride
    omega
  · intro b bytes layout stop added rest hmarked hstride
    obtain ⟨hstart, hstop, hadded⟩ := reach_of_full hmarked.small hstride
    refine ⟨by omega, by omega, ?_⟩
    exact (h.pass hleft hmarked hstride).remaining_lt hshort

end Within

end Scan

/-! ## Words -/

/-- The sum of two words, if a word holds it. -/
def sum? (a b : UInt64) : Option UInt64 :=
  if a.toNat + b.toNat < UInt64.size then some (a + b) else none

/-- The difference of two words, if it is not negative. -/
def difference? (a b : UInt64) : Option UInt64 :=
  if b.toNat ≤ a.toNat then some (a - b) else none

/-- The product of two words, if a word holds it. -/
def product? (a b : UInt64) : Option UInt64 :=
  if a.toNat * b.toNat < UInt64.size then some (a * b) else none

theorem exists_sum? {a b : UInt64} (h : a.toNat + b.toNat < UInt64.size) : ∃ s, sum? a b = some s ∧ s.toNat = a.toNat + b.toNat := by
  refine ⟨a + b, if_pos h, ?_⟩
  rw [UInt64.toNat_add]
  exact Nat.mod_eq_of_lt h

theorem exists_sum_ofNat? {a : UInt64} {n : Nat} (h : a.toNat + n < UInt64.size) :
    ∃ s, sum? a (.ofNat n) = some s ∧ s.toNat = a.toNat + n := by
  have hn : (UInt64.ofNat n).toNat = n := UInt64.toNat_ofNat_of_lt' (Nat.lt_of_le_of_lt (Nat.le_add_left n _) h)
  obtain ⟨s, hsum, hs⟩ := exists_sum? (a := a) (b := .ofNat n) (by rwa [hn])
  exact ⟨s, hsum, by rw [hs, hn]⟩

theorem exists_difference? {a b : UInt64} (h : b.toNat ≤ a.toNat) : ∃ s, difference? a b = some s ∧ s.toNat = a.toNat - b.toNat := by
  refine ⟨a - b, if_pos h, ?_⟩
  exact UInt64.toNat_sub_of_le _ _ (UInt64.le_iff_toNat_le.mpr h)

theorem exists_product? {a b : UInt64} (h : a.toNat * b.toNat < UInt64.size) :
    ∃ s, product? a b = some s ∧ s.toNat = a.toNat * b.toNat := by
  refine ⟨a * b, if_pos h, ?_⟩
  rw [UInt64.toNat_mul]
  exact Nat.mod_eq_of_lt h

/-- The big-endian number of some digits, shifted in one after another. What is shifted out is lost. -/
def gathered (digits : Bytes) : UInt64 :=
  digits.foldl (fun n b => n <<< 8 ||| b.toUInt64) 0

/-- A number of so many digits at the front. -/
def gathered? (width : Nat) (bytes : Bytes) : Option UInt64 :=
  (Bytes.splitExactly? width bytes).map fun (digits, _) => gathered digits

/-- No more digits than a word has bytes lose nothing. -/
theorem toNat_gathered {digits : Bytes} (h : digits.length ≤ 8) : (gathered digits).toNat = Bytes.toNat digits := by
  induction digits using List.reverseRecOn with
  | nil => rfl
  | append_singleton digits b ih =>
    rw [List.length_append, List.length_singleton] at h
    have hconcat : gathered (digits ++ [b]) = gathered digits <<< 8 ||| b.toUInt64 := by simp [gathered]
    have hb : b.toNat < 2 ^ 8 := b.toNat_lt
    have hhigh : Bytes.toNat digits < 2 ^ 56 := by
      calc Bytes.toNat digits < 256 ^ digits.length := toNat_digits_lt digits
        _ ≤ 256 ^ 7 := Nat.pow_le_pow_right (by decide) (by omega)
        _ = 2 ^ 56 := by decide
    have hshift : (Bytes.toNat digits) <<< ((8 : UInt64).toNat % 64) % 2 ^ 64 = (Bytes.toNat digits) <<< 8 := by
      apply Nat.mod_eq_of_lt
      show (Bytes.toNat digits) <<< 8 < _
      rw [Nat.shiftLeft_eq]
      omega
    rw [hconcat, Bytes.toNat_concat, UInt64.toNat_or, UInt64.toNat_shiftLeft, ih (by omega), UInt8.toNat_toUInt64, hshift,
      ← Nat.shiftLeft_add_eq_or_of_lt hb, Nat.shiftLeft_eq]

theorem gathered?_of_none {width : Nat} {bytes : Bytes} (h : Bytes.readNat? width bytes = none) : gathered? width bytes = none := by
  rw [Bytes.readNat?, Option.map_eq_none_iff] at h
  rw [gathered?, h]
  rfl

theorem gathered?_of_some {width n : Nat} {bytes rest : Bytes} (h : Bytes.readNat? width bytes = some (n, rest)) (hwidth : width ≤ 4) :
    ∃ w, gathered? width bytes = some w ∧ w.toNat = n := by
  obtain ⟨digits, rfl, rfl, rfl⟩ := Bytes.readNat?_eq_some_iff.mp h
  refine ⟨gathered digits, ?_, toNat_gathered (by omega)⟩
  rw [gathered?, Bytes.splitExactly?_length_append]
  rfl

/-! ## The walk in words -/

/-- Where a walk stands, in words. -/
structure Counters where
  offset : UInt64
  remaining : UInt64
  need : UInt64

namespace Counters

def scan (c : Counters) : Scan :=
  ⟨c.offset.toNat, c.remaining.toNat, c.need.toNat⟩

/-- What one turn of the walk comes to. -/
inductive Turned where
  | on (next : Counters)
  | ends (found : Scanned)

/-- All that belongs to a marker ends at `stop`, and so many values are added. -/
def pass? (c : Counters) (length : Nat) (stop added : UInt64) : Option Turned := do
  let left ← difference? c.remaining 1
  let remaining ← sum? left added
  if length < stop.toNat then pure (.ends (.partially (scan ⟨stop, remaining, stop⟩)))
  else pure (.on ⟨stop, remaining, c.need⟩)

/-- Visits a marker of some layout that ends at `start`, before `bytes`. -/
def visit? (c : Counters) (length : Nat) (start : UInt64) (bytes : Bytes) : Layout → Option Turned
  | .fixed size => do
    let stop ← sum? start (.ofNat size)
    c.pass? length stop 0
  | .items count => c.pass? length start (.ofNat count)
  | .sized width extra => do
    let digits ← sum? start (.ofNat width)
    match gathered? width bytes with
    | none => pure (.ends (.partially (scan { c with need := digits })))
    | some size =>
      let payload ← sum? digits (.ofNat extra)
      let stop ← sum? payload size
      c.pass? length stop 0
  | .counted width per => do
    let digits ← sum? start (.ofNat width)
    match gathered? width bytes with
    | none => pure (.ends (.partially (scan { c with need := digits })))
    | some count =>
      let added ← product? count (.ofNat per)
      c.pass? length digits added

/-- Visits what stands at the place where the walk is. -/
def turn? (c : Counters) (buffer : Bytes) : Option Turned := do
  let start ← sum? c.offset 1
  match buffer.drop c.offset.toNat with
  | [] => pure (.ends (.partially (scan { c with need := start })))
  | b :: bytes =>
    match layout? (Head.ofByte b) with
    | none => pure (.ends (.reserved b (scan { c with need := start })))
    | some layout => c.visit? buffer.length start bytes layout

/-- Turn after turn, as long as values are left, but no more than so many. -/
def loop? (buffer : Bytes) : (turns : Nat) → Counters → Option Scanned
  | 0, _ => none
  | turns + 1, c =>
    if c.remaining = 0 then some (.complete c.offset.toNat)
    else
      match c.turn? buffer with
      | none => none
      | some (.on next) => loop? buffer turns next
      | some (.ends found) => some found

/-- Goes on with a walk in words. Each turn that does not end it leaves a byte of the buffer behind, so these bound the turns. -/
def advance? (c : Counters) (buffer : Bytes) : Option Scanned :=
  if buffer.length < c.need.toNat then some (.partially c.scan) else c.loop? buffer (buffer.length + 1)

/-- What the walk in natural numbers finds from there. -/
def found (c : Counters) (buffer : Bytes) : Scanned :=
  Scan.walk c.offset.toNat c.remaining.toNat (buffer.drop c.offset.toNat)

/-- The bounds, at a place in words. -/
def Within (c : Counters) (buffer : Bytes) : Prop :=
  Scan.Within buffer c.offset.toNat c.remaining.toNat

/-- A turn finds what the walk in natural numbers finds, or it passes over a marker inside the buffer and leaves that to the next turn. -/
inductive Continues (buffer : Bytes) (c : Counters) : Turned → Prop where
  | on {next} : c.offset.toNat < buffer.length → c.offset < next.offset → next.offset.toNat ≤ buffer.length → next.Within buffer →
    c.found buffer = next.found buffer → Continues buffer c (.on next)
  | ends {found} : c.found buffer = found → Continues buffer c (.ends found)

section Turn

variable {buffer bytes : Bytes} {c : Counters} {b : UInt8} {layout : Layout}

theorem one_le_remaining (h : c.remaining ≠ 0) : 1 ≤ c.remaining.toNat := by
  have hpositive : c.remaining.toNat ≠ 0 := fun hzero => h (UInt64.toNat_inj.mp hzero)
  exact Nat.one_le_iff_ne_zero.mpr hpositive

theorem exists_left (h : c.remaining ≠ 0) : ∃ left, c.remaining.toNat = left + 1 :=
  Nat.exists_eq_add_of_le' (one_le_remaining h)

theorem Within.inWords (h : c.Within buffer) (hshort : buffer.length < 2 ^ 31) (hremaining : c.remaining ≠ 0) : c.scan.InWords buffer :=
  Scan.Within.inWords h hshort (one_le_remaining hremaining)

/-- The walk stands within the bounds before a marker, with values left. -/
structure Faces (buffer : Bytes) (c : Counters) (b : UInt8) (bytes : Bytes) (layout : Layout) : Prop where
  short : buffer.length < 2 ^ 31
  within : c.Within buffer
  remaining : c.remaining ≠ 0
  marked : Scan.Marked buffer c.offset.toNat b bytes layout

theorem Faces.inWords (h : c.Faces buffer b bytes layout) : c.scan.InWords buffer :=
  h.within.inWords h.short h.remaining

/-- What the walk in natural numbers makes of the marker. -/
theorem Faces.found_eq (h : c.Faces buffer b bytes layout) :
    c.found buffer =
      match Scan.stride (c.offset.toNat + 1) bytes layout with
      | .short need => .partially ⟨c.offset.toNat, c.remaining.toNat, need⟩
      | .full stop added none => .partially ⟨stop, c.remaining.toNat - 1 + added, stop⟩
      | .full stop added (some rest) => Scan.walk stop (c.remaining.toNat - 1 + added) rest := by
  obtain ⟨left, hleft⟩ := exists_left h.remaining
  rw [found, hleft, h.marked.drop, Scan.walk_marker h.marked.layout]
  rfl

/-- Where the number of the marker is incomplete, its end is a word, and the turn ends the walk. -/
theorem Faces.exists_short? {start : UInt64} {width : Nat} (h : c.Faces buffer b bytes layout)
    (hstride : Scan.stride (c.offset.toNat + 1) bytes layout = .short (start.toNat + width)) :
    ∃ digits, sum? start (.ofNat width) = some digits ∧ c.Continues buffer (.ends (.partially (scan { c with need := digits }))) := by
  obtain ⟨digits, hsum, hdigits⟩ := exists_sum_ofNat? (h.inWords.short h.marked hstride)
  refine ⟨digits, hsum, .ends ?_⟩
  rw [h.found_eq, hstride, scan, hdigits]

/-- A marker's own bytes are passed over without an overflow, and the turn ends the walk if they do not end inside the buffer. -/
theorem Faces.exists_pass? {stop added : UInt64} {rest : Option Bytes} (h : c.Faces buffer b bytes layout)
    (hstride : Scan.stride (c.offset.toNat + 1) bytes layout = .full stop.toNat added.toNat rest) :
    ∃ turned, c.pass? buffer.length stop added = some turned ∧ c.Continues buffer turned := by
  have hleft := one_le_remaining h.remaining
  obtain ⟨hstart, -, -⟩ := Scan.reach_of_full h.marked.small hstride
  obtain ⟨-, -, hfits⟩ := h.inWords.full h.marked hstride
  obtain ⟨left, hdifference, hleftNat⟩ := exists_difference? (a := c.remaining) (b := 1) hleft
  have hleftNat : left.toNat = c.remaining.toNat - 1 := hleftNat
  obtain ⟨remaining, hsum, hremaining⟩ := exists_sum? (a := left) (b := added) (by rwa [hleftNat])
  rw [hleftNat] at hremaining
  simp only [pass?, hdifference, hsum, Option.bind_eq_bind, Option.bind_some]
  cases rest with
  | none =>
    refine ⟨_, if_pos (h.marked.length_lt hstride), .ends ?_⟩
    rw [h.found_eq, hstride, scan, hremaining]
  | some rest =>
    obtain ⟨hstop, hrest⟩ := h.marked.drop_stop hstride
    have hlength := h.marked.length_eq
    refine ⟨_, if_neg (Nat.not_lt.mpr hstop), .on (by omega) (UInt64.lt_iff_toNat_lt.mpr hstart) hstop ?_ ?_⟩
    · have hwithin := h.within.pass hleft h.marked hstride
      rwa [← hremaining] at hwithin
    · rw [h.found_eq, hstride, found, hremaining, hrest]

section Visit

variable {start : UInt64}

theorem exists_visit_fixed? {size : Nat} (h : c.Faces buffer b bytes (.fixed size)) (hstart : start.toNat = c.offset.toNat + 1) :
    ∃ turned, c.visit? buffer.length start bytes (.fixed size) = some turned ∧ c.Continues buffer turned := by
  obtain ⟨hfits, -, -⟩ := h.inWords.full h.marked rfl
  obtain ⟨stop, hsum, hstop⟩ := exists_sum_ofNat? (a := start) (n := size) (by rwa [hstart])
  have hstride : Scan.stride (c.offset.toNat + 1) bytes (.fixed size) = .full stop.toNat 0 (Bytes.dropExactly? size bytes) := by
    rw [hstop, hstart, Scan.stride]
  simp only [visit?, hsum, Option.bind_eq_bind, Option.bind_some]
  exact h.exists_pass? hstride

theorem exists_visit_items? {count : Nat} (h : c.Faces buffer b bytes (.items count)) (hstart : start.toNat = c.offset.toNat + 1) :
    ∃ turned, c.visit? buffer.length start bytes (.items count) = some turned ∧ c.Continues buffer turned := by
  obtain ⟨-, hfits, -⟩ := h.inWords.full h.marked rfl
  have hcount : (UInt64.ofNat count).toNat = count := UInt64.toNat_ofNat_of_lt' hfits
  have hstride : Scan.stride (c.offset.toNat + 1) bytes (.items count) = .full start.toNat (UInt64.ofNat count).toNat (some bytes) := by
    rw [hcount, hstart, Scan.stride]
  exact h.exists_pass? hstride

theorem exists_visit_sized? {width extra : Nat} (h : c.Faces buffer b bytes (.sized width extra)) (hstart : start.toNat = c.offset.toNat + 1) :
    ∃ turned, c.visit? buffer.length start bytes (.sized width extra) = some turned ∧ c.Continues buffer turned := by
  cases hread : Bytes.readNat? width bytes with
  | none =>
    have hstride : Scan.stride (c.offset.toNat + 1) bytes (.sized width extra) = .short (start.toNat + width) := by
      rw [hstart, Scan.stride, hread]
    obtain ⟨digits, hsum, hcontinues⟩ := h.exists_short? hstride
    simp only [visit?, hsum, gathered?_of_none hread, Option.bind_eq_bind, Option.bind_some]
    exact ⟨_, rfl, hcontinues⟩
  | some found =>
    obtain ⟨n, rest⟩ := found
    have hstride : Scan.stride (c.offset.toNat + 1) bytes (.sized width extra) =
        .full (start.toNat + width + extra + n) 0 (Bytes.dropExactly? (extra + n) rest) := by
      rw [hstart, Scan.stride, hread]
    obtain ⟨hfits, -, -⟩ := h.inWords.full h.marked hstride
    obtain ⟨size, hgathered, rfl⟩ := gathered?_of_some hread h.marked.small.1
    obtain ⟨digits, hdigitsSum, hdigits⟩ := exists_sum_ofNat? (a := start) (n := width) (by omega)
    obtain ⟨payload, hpayloadSum, hpayload⟩ := exists_sum_ofNat? (a := digits) (n := extra) (by omega)
    obtain ⟨stop, hstopSum, hstop⟩ := exists_sum? (a := payload) (b := size) (by omega)
    simp only [visit?, hdigitsSum, hgathered, hpayloadSum, hstopSum, Option.bind_eq_bind, Option.bind_some]
    rw [← hdigits, ← hpayload, ← hstop] at hstride
    exact h.exists_pass? hstride

theorem exists_visit_counted? {width per : Nat} (h : c.Faces buffer b bytes (.counted width per)) (hstart : start.toNat = c.offset.toNat + 1) :
    ∃ turned, c.visit? buffer.length start bytes (.counted width per) = some turned ∧ c.Continues buffer turned := by
  cases hread : Bytes.readNat? width bytes with
  | none =>
    have hstride : Scan.stride (c.offset.toNat + 1) bytes (.counted width per) = .short (start.toNat + width) := by
      rw [hstart, Scan.stride, hread]
    obtain ⟨digits, hsum, hcontinues⟩ := h.exists_short? hstride
    simp only [visit?, hsum, gathered?_of_none hread, Option.bind_eq_bind, Option.bind_some]
    exact ⟨_, rfl, hcontinues⟩
  | some found =>
    obtain ⟨n, rest⟩ := found
    have hstride : Scan.stride (c.offset.toNat + 1) bytes (.counted width per) = .full (start.toNat + width) (n * per) (some rest) := by
      rw [hstart, Scan.stride, hread]
    obtain ⟨hdigitsFits, haddedFits, -⟩ := h.inWords.full h.marked hstride
    obtain ⟨hwidth, hper⟩ := h.marked.small
    have hperWord : (UInt64.ofNat per).toNat = per := UInt64.toNat_ofNat_of_lt' (Nat.lt_of_le_of_lt hper (by decide))
    obtain ⟨count, hgathered, rfl⟩ := gathered?_of_some hread hwidth
    obtain ⟨digits, hdigitsSum, hdigits⟩ := exists_sum_ofNat? hdigitsFits
    obtain ⟨added, hproduct, hadded⟩ := exists_product? (a := count) (b := .ofNat per) (by rwa [hperWord])
    simp only [visit?, hdigitsSum, hgathered, hproduct, Option.bind_eq_bind, Option.bind_some]
    rw [hperWord] at hadded
    rw [← hdigits, ← hadded] at hstride
    exact h.exists_pass? hstride

theorem exists_visit? (h : c.Faces buffer b bytes layout) (hstart : start.toNat = c.offset.toNat + 1) :
    ∃ turned, c.visit? buffer.length start bytes layout = some turned ∧ c.Continues buffer turned := by
  cases layout with
  | fixed size => exact exists_visit_fixed? h hstart
  | items count => exact exists_visit_items? h hstart
  | sized width extra => exact exists_visit_sized? h hstart
  | counted width per => exact exists_visit_counted? h hstart

end Visit

/-- **A turn overflows nothing**, and it finds what the walk in natural numbers finds or gets on. -/
theorem exists_turn? (hshort : buffer.length < 2 ^ 31) (h : c.Within buffer) (hremaining : c.remaining ≠ 0) :
    ∃ turned, c.turn? buffer = some turned ∧ c.Continues buffer turned := by
  obtain ⟨left, hleft⟩ := exists_left hremaining
  obtain ⟨start, hsum, hstart⟩ : ∃ s, sum? c.offset 1 = some s ∧ s.toNat = c.offset.toNat + 1 :=
    exists_sum_ofNat? (h.inWords hshort hremaining).start
  simp only [turn?, hsum, Option.bind_eq_bind, Option.bind_some]
  cases hdrop : buffer.drop c.offset.toNat with
  | nil =>
    refine ⟨_, rfl, .ends ?_⟩
    rw [found, hleft, hdrop, Scan.walk_nil, scan, hleft, hstart]
  | cons b bytes =>
    cases hlayout : layout? (Head.ofByte b) with
    | none =>
      simp only [hlayout]
      refine ⟨_, rfl, .ends ?_⟩
      rw [found, hleft, hdrop, Scan.walk_reserved hlayout, scan, hleft, hstart]
    | some layout =>
      simp only [hlayout]
      exact exists_visit? ⟨hshort, h, hremaining, hdrop, hlayout⟩ hstart

/-! ## The whole walk in words -/

/-- **So many turns as there are bytes behind the place, and one, find what the walk in natural numbers finds.** -/
theorem loop?_eq (hshort : buffer.length < 2 ^ 31) {turns : Nat} (h : c.Within buffer) (hturns : buffer.length - c.offset.toNat < turns) :
    c.loop? buffer turns = some (c.found buffer) := by
  induction turns generalizing c with
  | zero => exact absurd hturns (Nat.not_lt_zero _)
  | succ turns ih =>
    rw [loop?]
    by_cases hremaining : c.remaining = 0
    · rw [if_pos hremaining, found, hremaining, UInt64.toNat_zero, Scan.walk_zero]
    · obtain ⟨turned, hturn, hcontinues⟩ := exists_turn? hshort h hremaining
      rw [if_neg hremaining, hturn]
      cases hcontinues with
      | ends hfound => rw [hfound]
      | @on next hinside hon hbehind hwithin hfound =>
        -- a byte fewer is left behind the place, and a turn fewer is left for it
        have hless := UInt64.lt_iff_toNat_lt.mp hon
        rw [hfound]
        exact ih hwithin (by omega)

/-- The places where a walk in words stands between its turns. -/
inductive Reaches (buffer : Bytes) (c : Counters) : Counters → Prop where
  | here : Reaches buffer c c
  | on {place next} : Reaches buffer c place → place.remaining ≠ 0 → place.turn? buffer = some (.on next) → Reaches buffer c next

/-- The bounds hold wherever the walk gets, and it leads to the same end from there. -/
theorem Reaches.within (hshort : buffer.length < 2 ^ 31) (h : c.Within buffer) {place : Counters} (hplace : c.Reaches buffer place) :
    place.Within buffer ∧ c.found buffer = place.found buffer := by
  induction hplace with
  | here => exact ⟨h, rfl⟩
  | on _ hremaining hturn ih =>
    obtain ⟨hwithin, hfound⟩ := ih
    obtain ⟨turned, hturned, hcontinues⟩ := exists_turn? hshort hwithin hremaining
    obtain rfl : .on _ = turned := Option.some.inj (hturn.symm.trans hturned)
    cases hcontinues with
    | on _ _ _ hnext hgoes => exact ⟨hnext, hfound.trans hgoes⟩

/-- Wherever the walk gets, its numbers stay in words; and the turn that is made there visits a marker inside the buffer and gets on, or
it ends the walk with what the walk in natural numbers finds. -/
theorem Reaches.turn (hshort : buffer.length < 2 ^ 31) (h : c.Within buffer) {place : Counters} (hplace : c.Reaches buffer place)
    (hremaining : place.remaining ≠ 0) :
    place.scan.InWords buffer ∧
      ((∃ next, place.turn? buffer = some (.on next) ∧ place.offset.toNat < buffer.length ∧ place.offset < next.offset) ∨
        place.turn? buffer = some (.ends (c.found buffer))) := by
  obtain ⟨hwithin, hfound⟩ := hplace.within hshort h
  obtain ⟨turned, hturn, hcontinues⟩ := exists_turn? hshort hwithin hremaining
  refine ⟨hwithin.inWords hshort hremaining, ?_⟩
  cases hcontinues with
  | on hinside hon => exact Or.inl ⟨_, hturn, hinside, hon⟩
  | ends hends => exact Or.inr (by rw [hturn, hfound, hends])

theorem advance_scan (c : Counters) (buffer : Bytes) :
    c.scan.advance buffer = if c.need.toNat ≤ buffer.length then c.found buffer else .partially c.scan := by
  rw [Scan.advance, Bytes.dropExactly?_eq, scan]
  split_ifs <;> rfl

/-- **In words the walk goes on as it does in natural numbers.** -/
theorem advance?_eq (hshort : buffer.length < 2 ^ 31) (h : c.Within buffer) : c.advance? buffer = some (c.scan.advance buffer) := by
  by_cases hneed : buffer.length < c.need.toNat
  · rw [advance?, advance_scan, if_pos hneed, if_neg (Nat.not_le.mpr hneed)]
  · rw [advance?, advance_scan, if_neg hneed, if_pos (Nat.le_of_not_lt hneed)]
    exact loop?_eq hshort h (Nat.lt_succ_of_le (Nat.sub_le _ _))

end Turn

end Counters

/-! ## The walks that a decoder keeps -/

/-- A walk that is kept between two calls has counted within the bounds, and does not ask for much more than there is. -/
structure Scan.Kept (buffer : Bytes) (scan : Scan) : Prop where
  within : Scan.Within buffer scan.offset scan.remaining
  need_le : scan.need ≤ buffer.length + 0x1_0000_0005

theorem Scan.Within.start (buffer : Bytes) : Scan.Within buffer 0 1 := by
  constructor
  · exact Nat.zero_le _
  · exact Nat.le_add_right 1 _

theorem Scan.kept_fresh (buffer : Bytes) : Scan.Kept buffer {} := by
  refine ⟨.start buffer, ?_⟩
  show 1 ≤ _
  omega

theorem Scan.Kept.append {buffer : Bytes} {scan : Scan} (h : scan.Kept buffer) (more : Bytes) : scan.Kept (buffer ++ more) := by
  refine ⟨h.within.append more, h.need_le.trans ?_⟩
  simp

/-- The walk that is kept after a stop before the end. -/
def Scanned.scan? : Scanned → Option Scan
  | .complete _ => none
  | .partially scan => some scan
  | .reserved _ scan => some scan

/-- Wherever a walk stops before its end, the bounds hold. -/
theorem Scan.Within.kept {buffer bytes : Bytes} {offset remaining : Nat} {scan : Scan} (h : Scan.Within buffer offset remaining)
    (hdrop : buffer.drop offset = bytes) (hstops : (walk offset remaining bytes).scan? = some scan) : scan.Kept buffer := by
  have hoffset := h.offset_le
  fun_induction Scan.walk offset remaining bytes with
  | case1 offset bytes => cases hstops
  | case2 offset remaining =>
    cases hstops
    exact ⟨h, Nat.add_le_add_right hoffset 1⟩
  | case3 offset remaining b bytes hlayout =>
    cases hstops
    exact ⟨h, Nat.add_le_add_right hoffset 1⟩
  | case4 offset remaining b bytes layout hlayout need hstride =>
    cases hstops
    have hmarked : Marked buffer offset b bytes layout := ⟨hdrop, hlayout⟩
    have hneed := need_of_short hmarked.small hstride
    have hlength := hmarked.length_eq
    exact ⟨h, by show need ≤ _; omega⟩
  | case5 offset remaining b bytes layout hlayout stop added hstride =>
    cases hstops
    have hpassed := h.pass (Nat.le_add_left 1 remaining) ⟨hdrop, hlayout⟩ hstride
    exact ⟨hpassed, Nat.le_succ_of_le hpassed.offset_le⟩
  | case6 offset remaining b bytes layout hlayout stop added rest hstride ih =>
    have hmarked : Marked buffer offset b bytes layout := ⟨hdrop, hlayout⟩
    have hpassed := h.pass (Nat.le_add_left 1 remaining) hmarked hstride
    exact ih hpassed (hmarked.drop_stop hstride).2 hstops hpassed.offset_le

namespace Decoder

/-- A decoder of frames whose walk is as good as new and has counted within the bounds. -/
structure Counted (limit : Nat) (d : Decoder) : Prop where
  unbroken : Unbroken limit d
  kept : d.scan.Kept d.buffer

section Counted

variable {limit : Nat} {d : Decoder}

theorem Counted.feed (h : Counted limit d) (chunk : Bytes) : Counted limit (d.feed chunk) :=
  ⟨h.unbroken.feed chunk, h.kept.append chunk⟩

/-- A step keeps the bounds. -/
theorem Counted.next (h : Counted limit d) : Counted limit d.next.2 := by
  refine ⟨h.unbroken.step.1, ?_⟩
  have hadvance := h.unbroken.resumable.advance_eq
  have hkept : ∀ scan, (Scan.walk 0 1 d.buffer).scan? = some scan → scan.Kept d.buffer :=
    fun scan => (Scan.Within.start d.buffer).kept rfl
  rw [h.unbroken.next_eq]
  cases hscan : Scan.walk 0 1 d.buffer with
  | reserved b scan =>
    rw [nextFrame_of_reserved (hadvance.trans hscan)]
    exact hkept scan (by rw [hscan]; rfl)
  | partially scan =>
    rw [nextFrame_of_partially (hadvance.trans hscan), await]
    have hscanKept := hkept scan (by rw [hscan]; rfl)
    split <;> exact hscanKept
  | complete length =>
    rcases Nat.lt_or_ge d.limit length with hlong | hlength
    · rw [nextFrame_of_long (hadvance.trans hscan) hlong]
      have hinside : length ≤ d.buffer.length := by simpa using Scan.length_le_of_complete hscan
      exact ⟨⟨Nat.le_add_right_of_le hinside, Nat.zero_le _⟩, Nat.le_add_right_of_le hinside⟩
    · rw [nextFrame_of_complete (hadvance.trans hscan) hlength]
      exact Scan.kept_fresh _

theorem Counted.called (h : Counted limit d) (calls : List Call) : Counted limit (d.called calls) := by
  apply called_induct (P := Counted limit) _ _ _ h
  · intro d chunk hd
    exact hd.feed chunk
  · intro d hd
    exact hd.next
  · intro d hd
    rw [hd.unbroken.finish_decoder]
    exact hd.next

/-- A decoder with a short buffer keeps a walk that words hold. -/
theorem Counted.exists_counters (h : Counted limit d) (hshort : d.buffer.length < 2 ^ 31) :
    ∃ c : Counters, c.scan = d.scan ∧ c.Within d.buffer := by
  have hoffset := h.kept.within.offset_le
  have hneed := h.kept.need_le
  have hword : UInt64.size = 2 ^ 64 := rfl
  have hscan : Counters.scan ⟨.ofNat d.scan.offset, .ofNat d.scan.remaining, .ofNat d.scan.need⟩ = d.scan := by
    rw [Counters.scan, UInt64.toNat_ofNat_of_lt' (show d.scan.offset < UInt64.size by omega),
      UInt64.toNat_ofNat_of_lt' (h.kept.within.remaining_lt hshort), UInt64.toNat_ofNat_of_lt' (show d.scan.need < UInt64.size by omega)]
  refine ⟨_, hscan, ?_⟩
  have hwithin := h.kept.within
  rwa [← hscan] at hwithin

theorem counted_fresh (limit : Nat) : Counted limit (fresh .msgpack limit) :=
  ⟨unbroken_ofLimit limit, Scan.kept_fresh _⟩

/-- **Words of sixty-four bits are enough.** Whatever a decoder of frames has been fed and asked, if its buffer is shorter than `2 ^ 31`
bytes then its walk goes on in words as it does in natural numbers: no sum, difference or product is refused, and the same is found. At
each place where the walk gets with values left, the numbers that it computes stay below `2 ^ 64` and there is a value to count down.
Its turn there visits a marker inside the buffer and gets on, or it ends the walk. -/
theorem words_are_enough (limit : Nat) (calls : List Call) (hshort : ((fresh .msgpack limit).called calls).buffer.length < 2 ^ 31) :
    let d := (fresh .msgpack limit).called calls
    ∃ c : Counters, c.scan = d.scan ∧ c.advance? d.buffer = some (d.scan.advance d.buffer) ∧
      (d.scan.need ≤ d.buffer.length → ∀ place, c.Reaches d.buffer place → place.remaining ≠ 0 →
        place.scan.InWords d.buffer ∧
        ((∃ next, place.turn? d.buffer = some (.on next) ∧ place.offset.toNat < d.buffer.length ∧ place.offset < next.offset) ∨
          place.turn? d.buffer = some (.ends (d.scan.advance d.buffer)))) := by
  intro d
  have hd : Counted limit d := (counted_fresh limit).called calls
  obtain ⟨c, hscan, hwithin⟩ := hd.exists_counters hshort
  refine ⟨c, hscan, ?_, ?_⟩
  · rw [← hscan]
    exact Counters.advance?_eq hshort hwithin
  · intro hneed place hplace hremaining
    have hfound : d.scan.advance d.buffer = c.found d.buffer := by
      rw [← hscan] at hneed ⊢
      rw [Counters.advance_scan]
      exact if_pos hneed
    rw [hfound]
    exact hplace.turn hshort hwithin hremaining

/-- A map and an extension that announce the most that they can, cut inside the map's count. -/
theorem hostile_numbers_stay_in_words :
    let calls : List Call := [.feed [0xdf, 0xff, 0xff], .next, .feed [0xff, 0xff, 0xc9, 0xff, 0xff, 0xff, 0xff]]
    let buffer : Bytes := [0xdf, 0xff, 0xff, 0xff, 0xff, 0xc9, 0xff, 0xff, 0xff, 0xff]
    let d := (fresh .msgpack (2 ^ 33)).called calls
    let found : Scanned := .partially ⟨0x1_0000_000a, 0x1_FFFF_FFFD, 0x1_0000_000a⟩
    (d.buffer.length < 2 ^ 31 ∧ d.scan.need ≤ d.buffer.length) ∧ d.buffer = buffer ∧
      ∃ c : Counters, c.scan = ⟨0, 1, 5⟩ ∧ c.advance? buffer = some found ∧
        ∀ place, c.Reaches buffer place → place.remaining ≠ 0 →
          place.scan.InWords buffer ∧
          ((∃ next, place.turn? buffer = some (.on next) ∧ place.offset.toNat < buffer.length ∧ place.offset < next.offset) ∨
            place.turn? buffer = some (.ends found)) := by
  intro calls buffer d found
  have hd : d = { format := .msgpack, limit := 2 ^ 33, scan := ⟨0, 1, 5⟩, buffer } := by
    simp only [d, calls, buffer]
    cbv
  have hfound : (⟨0, 1, 5⟩ : Scan).advance buffer = found := by cbv
  have hshort : d.buffer.length < 2 ^ 31 := by rw [hd]; decide
  have hneed : d.scan.need ≤ d.buffer.length := by rw [hd]; decide
  obtain ⟨c, hscan, hadvance, hturns⟩ := words_are_enough (2 ^ 33) calls hshort
  have hturns := hturns hneed
  rw [show (fresh .msgpack (2 ^ 33)).called calls = d from rfl, hd] at hscan hadvance hturns
  rw [hfound] at hadvance hturns
  exact ⟨⟨hshort, hneed⟩, by rw [hd], c, hscan, hadvance, hturns⟩

end Counted

end Decoder

end EditorLink.Wire
