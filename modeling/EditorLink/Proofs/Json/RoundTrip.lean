import EditorLink.Proofs.Json.Tokens
import EditorLink.Proofs.Value

/-!
# EditorLink.Proofs.Json.RoundTrip -- values are read as they were written

The text of a value reads back as the value, whatever follows it that no number goes on with (`readValue_chars`): a comma, a closing
bracket, or nothing. The bound that the reader gets for what is in a container is the length of the whole text, so the texts of parts are
shown to be no longer than it. Of the text itself two things are said, for every value: it starts like a value (`Opens`), so no reader
takes it for the end of an empty container, and it has no control characters (`printable_chars`), so none of its characters ends a line.
-/

namespace EditorLink.Json

open Text

/-! ## Separated texts -/

section Separated

variable {α β : Type}

/-- The first text, and then each with the separator in front of it. -/
theorem intercalate_cons (separator : α) (write : β → List α) (b : β) (items : List β) :
    [separator].intercalate ((b :: items).map write) = write b ++ items.flatMap fun w => separator :: write w := by
  induction items generalizing b with
  | nil => simp [List.intercalate]
  | cons w items ih =>
    have hrest := ih w
    simp only [List.intercalate, List.map_cons, List.intersperse_cons_cons, List.flatten_cons] at hrest ⊢
    rw [hrest]
    simp

theorem mem_intercalate {separator a : α} {write : β → List α} {items : List β}
    (h : a ∈ [separator].intercalate (items.map write)) : a = separator ∨ ∃ w ∈ items, a ∈ write w := by
  cases items with
  | nil => cases h
  | cons b items =>
    rw [intercalate_cons, List.mem_append, List.mem_flatMap] at h
    rcases h with h | ⟨w, hw, h⟩
    · exact .inr ⟨b, List.mem_cons_self, h⟩
    · rcases List.mem_cons.mp h with rfl | h
      · exact .inl rfl
      · exact .inr ⟨w, List.mem_cons_of_mem _ hw, h⟩

/-- No text is longer than all of them together, and a separator stands between any two. -/
theorem le_length_intercalate (separator : α) (write : β → List α) (items : List β) :
    items.length ≤ ([separator].intercalate (items.map write)).length + 1 ∧
      ∀ w ∈ items, (write w).length ≤ ([separator].intercalate (items.map write)).length := by
  have htail : ∀ items : List β, items.length ≤ (items.flatMap fun w => separator :: write w).length ∧
      ∀ w ∈ items, (write w).length ≤ (items.flatMap fun w => separator :: write w).length := by
    intro items
    induction items with
    | nil => simp
    | cons b items ih =>
      obtain ⟨hcount, hlength⟩ := ih
      simp only [List.flatMap_cons, List.length_append, List.length_cons, List.forall_mem_cons]
      refine ⟨by omega, by omega, fun w hw => ?_⟩
      have := hlength w hw
      omega
  cases items with
  | nil => simp
  | cons b items =>
    obtain ⟨hcount, hlength⟩ := htail items
    simp only [intercalate_cons, List.length_append, List.length_cons, List.forall_mem_cons]
    refine ⟨by omega, by omega, fun w hw => ?_⟩
    have := hlength w hw
    omega

end Separated

/-! ## Texts of values -/

theorem chars_array (items : List Value) : chars (.array items) = '[' :: [','].intercalate (items.map chars) ++ [']'] := by
  rw [chars]

/-- A field as it stands in an object. -/
def fieldChars (f : String × Value) : List Char :=
  quote f.1 ++ ':' :: chars f.2

theorem chars_object (fields : Fields) :
    chars (.object fields) = '\x7b' :: [','].intercalate (fields.map fieldChars) ++ ['\x7d'] := by
  rw [chars]
  rfl

/-- A value starts with this character. -/
def Opens (c : Char) : Prop :=
  isSpace c = false ∧ c ≠ ']' ∧ c ≠ '\x7d'

theorem skipSpace_cons {c : Char} (h : isSpace c = false) (cs : List Char) : skipSpace (c :: cs) = c :: cs := by
  simp [skipSpace, h]

theorem opens_of_isNumeric {c : Char} (h : IsNumeric c) : Opens c := by
  have hne : ∀ d, ¬ IsNumeric d → c ≠ d := by
    rintro _ hd rfl
    exact hd h
  refine ⟨?_, hne _ (by decide), hne _ (by decide)⟩
  simp [isSpace, hne ' ' (by decide), hne '\n' (by decide), hne '\t' (by decide), hne '\r' (by decide)]

/-- Every float in a value has a text that reads back. -/
def FloatsReadBack (v : Value) : Prop :=
  ∀ x, Value.Part (.number (.float x)) v → x.ReadsBack

theorem FloatsReadBack.number {n : Number} (h : FloatsReadBack (.number n)) : NumberReadsBack n := by
  cases n with
  | float x => exact h x (.self _)
  | _ => trivial

theorem FloatsReadBack.item {v : Value} {items : List Value} (h : FloatsReadBack (.array items)) (hv : v ∈ items) : FloatsReadBack v :=
  fun x hx => h x (.item hv hx)

theorem FloatsReadBack.field {f : String × Value} {fields : Fields} (h : FloatsReadBack (.object fields)) (hf : f ∈ fields) :
    FloatsReadBack f.2 :=
  fun x hx => h x (.field hf hx)

/-- The text of a value is not empty and starts like a value. -/
theorem opens_chars {v : Value} (h : FloatsReadBack v) : ∃ c cs, chars v = c :: cs ∧ Opens c := by
  cases v with
  | null => exact ⟨_, _, chars.eq_1, by decide, by decide, by decide⟩
  | bool b =>
    cases b with
    | true => exact ⟨_, _, chars.eq_2, by decide, by decide, by decide⟩
    | false => exact ⟨_, _, chars.eq_3, by decide, by decide, by decide⟩
  | number n =>
    -- a text without characters would be no number
    have hne : numberChars n ≠ [] := by
      intro hnil
      have hread := readNumber_numberChars h.number stops_nil
      rw [hnil] at hread
      cases hread
    obtain ⟨c, cs, hcons⟩ := List.exists_cons_of_ne_nil hne
    exact ⟨c, cs, by rw [chars, hcons], opens_of_isNumeric (isNumeric_numberChars n c (hcons ▸ List.mem_cons_self))⟩
  | string s => exact ⟨_, _, by rw [chars, quote]; rfl, by decide, by decide, by decide⟩
  | array items => exact ⟨_, _, by rw [chars]; rfl, by decide, by decide, by decide⟩
  | object fields => exact ⟨_, _, by rw [chars]; rfl, by decide, by decide, by decide⟩

/-! ## Reading by the first character -/

theorem readValue_string (bound depth : Nat) (cs : List Char) :
    readValue bound depth ('"' :: cs) = (readCharacters bound [] cs).map fun (s, rest) => (.string s, rest) := by
  cases depth <;> rfl

theorem readValue_number (bound depth : Nat) {c : Char} (h : IsNumeric c) (cs : List Char) :
    readValue bound depth (c :: cs) = (readNumber (c :: cs)).map fun (n, rest) => (.number n, rest) := by
  rw [readValue.eq_def]
  simp only [skipSpace_cons (opens_of_isNumeric h).1]
  split
  -- no word, quote or bracket is numeric
  · next heq => cases heq; exact absurd h (by decide)
  · next heq => cases heq; exact absurd h (by decide)
  · next heq => cases heq; exact absurd h (by decide)
  · next heq => cases heq; exact absurd h (by decide)
  · next heq => cases heq; exact absurd h (by decide)
  · next heq => cases heq; exact absurd h (by decide)
  · rfl

theorem readValue_array (bound depth : Nat) {c : Char} (h : Opens c) (cs : List Char) :
    readValue bound (depth + 1) ('[' :: c :: cs) =
      (readItems (readValue bound depth) bound [] (c :: cs)).map fun (items, rest) => (Value.array items, rest) := by
  rw [readValue.eq_def]
  simp only [skipSpace_cons (show isSpace '[' = false from rfl), skipSpace_cons h.1]
  split
  · next heq =>
    cases heq
    exact absurd rfl h.2.1
  · rfl

theorem readValue_object (bound depth : Nat) {c : Char} (h : Opens c) (cs : List Char) :
    readValue bound (depth + 1) ('\x7b' :: c :: cs) =
      (readFields bound (readValue bound depth) bound [] (c :: cs)).map fun (fields, rest) => (Value.object fields, rest) := by
  rw [readValue.eq_def]
  simp only [skipSpace_cons (show isSpace '\x7b' = false from rfl), skipSpace_cons h.1]
  split
  · next heq =>
    cases heq
    exact absurd rfl h.2.2
  · rfl

/-! ## Containers -/

theorem stops_of_separator {c : Char} (h : c = ',' ∨ c = ']' ∨ c = '\x7d') (rest : List Char) : Stops (c :: rest) := by
  intro d hd
  obtain rfl := Option.some.inj hd
  rcases h with rfl | rfl | rfl <;> decide

/-- Items are read up to the closing bracket if each is read whatever follows it. -/
theorem readItems_chars {element : List Char → Reading Value} {write : Value → List Char} {v : Value} {items : List Value}
    (h : ∀ w ∈ v :: items, ∀ rest, Stops rest → element (write w ++ rest) = some (w, rest)) {fuel : Nat}
    (hfuel : items.length < fuel) (taken : List Value) (rest : List Char) :
    readItems element fuel taken (write v ++ (items.flatMap (fun w => ',' :: write w) ++ ']' :: rest)) =
      some (taken.reverse ++ v :: items, rest) := by
  have hfirst := h v List.mem_cons_self
  induction items generalizing v fuel taken with
  | nil =>
    obtain ⟨fuel, rfl⟩ : ∃ n, fuel = n + 1 := ⟨fuel - 1, by simp at hfuel; omega⟩
    show readItems element (fuel + 1) taken (write v ++ ']' :: rest) = _
    rw [readItems, hfirst _ (stops_of_separator (.inr (.inl rfl)) rest)]
    simp [skipSpace_cons (show isSpace ']' = false from rfl)]
  | cons w items ih =>
    obtain ⟨fuel, rfl⟩ : ∃ n, fuel = n + 1 := ⟨fuel - 1, by simp at hfuel; omega⟩
    have hothers : ∀ u ∈ w :: items, ∀ rest, Stops rest → element (write u ++ rest) = some (u, rest) := by
      intro u hu
      exact h u (List.mem_cons_of_mem _ hu)
    have hrest := ih hothers (by simpa using hfuel) (v :: taken) (hothers w List.mem_cons_self)
    have htext : (w :: items).flatMap (fun u => ',' :: write u) ++ ']' :: rest =
        ',' :: (write w ++ (items.flatMap (fun u => ',' :: write u) ++ ']' :: rest)) := by
      simp
    rw [htext, readItems, hfirst _ (stops_of_separator (.inl rfl) _)]
    simp only [skipSpace_cons (show isSpace ',' = false from rfl)]
    rw [hrest]
    simp

/-- A key, a colon and a value are read if the key and the value are. -/
theorem readField_chars {bound : Nat} {element : List Char → Reading Value} {f : String × Value}
    (hkey : f.1.toList.length < bound) {rest : List Char} (hvalue : element (chars f.2 ++ rest) = some (f.2, rest)) :
    readField bound element (fieldChars f ++ rest) = some (f, rest) := by
  have hquoted := readCharacters_quoted hkey [] (':' :: (chars f.2 ++ rest))
  have htext : fieldChars f ++ rest = '"' :: (f.1.toList.flatMap escape ++ '"' :: ':' :: (chars f.2 ++ rest)) := by
    simp [fieldChars, quote]
  rw [htext, readField, skipSpace_cons (show isSpace '"' = false from rfl)]
  simp only
  rw [hquoted]
  simp only [skipSpace_cons (show isSpace ':' = false from rfl)]
  rw [hvalue]
  simp

/-- Fields are read up to the closing brace if each is read whatever follows it. -/
theorem readFields_chars {bound : Nat} {element : List Char → Reading Value} {write : String × Value → List Char}
    {f : String × Value} {fields : Fields}
    (h : ∀ g ∈ f :: fields, ∀ rest, Stops rest → readField bound element (write g ++ rest) = some (g, rest)) {fuel : Nat}
    (hfuel : fields.length < fuel) (taken : Fields) (rest : List Char) :
    readFields bound element fuel taken (write f ++ (fields.flatMap (fun g => ',' :: write g) ++ '\x7d' :: rest)) =
      some (taken.reverse ++ f :: fields, rest) := by
  have hfirst := h f List.mem_cons_self
  induction fields generalizing f fuel taken with
  | nil =>
    obtain ⟨fuel, rfl⟩ : ∃ n, fuel = n + 1 := ⟨fuel - 1, by simp at hfuel; omega⟩
    show readFields bound element (fuel + 1) taken (write f ++ '\x7d' :: rest) = _
    rw [readFields, hfirst _ (stops_of_separator (.inr (.inr rfl)) rest)]
    simp [skipSpace_cons (show isSpace '\x7d' = false from rfl)]
  | cons g fields ih =>
    obtain ⟨fuel, rfl⟩ : ∃ n, fuel = n + 1 := ⟨fuel - 1, by simp at hfuel; omega⟩
    have hothers : ∀ u ∈ g :: fields, ∀ rest, Stops rest → readField bound element (write u ++ rest) = some (u, rest) := by
      intro u hu
      exact h u (List.mem_cons_of_mem _ hu)
    have hrest := ih hothers (by simpa using hfuel) (f :: taken) (hothers g List.mem_cons_self)
    have htext : (g :: fields).flatMap (fun u => ',' :: write u) ++ '\x7d' :: rest =
        ',' :: (write g ++ (fields.flatMap (fun u => ',' :: write u) ++ '\x7d' :: rest)) := by
      simp
    rw [htext, readFields, hfirst _ (stops_of_separator (.inl rfl) _)]
    simp only [skipSpace_cons (show isSpace ',' = false from rfl)]
    rw [hrest]
    simp

/-! ## Values -/

theorem length_quote (s : String) : s.toList.length + 2 ≤ (quote s).length := by
  have hescape : ∀ c, 1 ≤ (escape c).length := by
    intro c
    rw [escape]
    repeat' split
    all_goals simp
  have hcount : ∀ cs : List Char, cs.length ≤ (cs.flatMap escape).length := by
    intro cs
    induction cs with
    | nil => simp
    | cons c cs ih =>
      have := hescape c
      simp only [List.flatMap_cons, List.length_append, List.length_cons]
      omega
  have := hcount s.toList
  simp only [quote, List.length_cons, List.length_append, List.length_nil]
  omega

/-- An array is read if what is in it is. -/
theorem readValue_array_chars {items : List Value} (hfloats : FloatsReadBack (.array items)) {bound depth : Nat}
    (hbound : (chars (.array items)).length ≤ bound)
    (h : ∀ v ∈ items, (chars v).length ≤ bound → ∀ rest, Stops rest →
      readValue bound depth (chars v ++ rest) = some (v, rest)) (rest : List Char) :
    readValue bound (depth + 1) (chars (.array items) ++ rest) = some (.array items, rest) := by
  rw [chars_array] at hbound ⊢
  cases items with
  | nil => rfl
  | cons v items =>
    obtain ⟨hcount, hlength⟩ := le_length_intercalate ',' chars (v :: items)
    simp only [List.length_cons, List.length_append, List.length_nil] at hbound hcount
    have hread : ∀ w ∈ v :: items, ∀ rest, Stops rest → readValue bound depth (chars w ++ rest) = some (w, rest) := by
      intro w hw
      have hshorter := hlength w hw
      exact h w hw (by omega)
    have hitems := readItems_chars hread (show items.length < bound by omega) [] rest
    have htext : '[' :: [','].intercalate ((v :: items).map chars) ++ [']'] ++ rest =
        '[' :: (chars v ++ (items.flatMap (fun w => ',' :: chars w) ++ ']' :: rest)) := by
      rw [intercalate_cons]
      simp
    obtain ⟨c, cs, hcons, hopens⟩ := opens_chars (hfloats.item List.mem_cons_self)
    rw [htext]
    rw [hcons] at hitems ⊢
    exact (readValue_array bound depth hopens _).trans (congrArg _ hitems)

/-- An object is read if the values of its fields are. -/
theorem readValue_object_chars {fields : Fields} {bound depth : Nat} (hbound : (chars (.object fields)).length ≤ bound)
    (h : ∀ f ∈ fields, (chars f.2).length ≤ bound → ∀ rest, Stops rest →
      readValue bound depth (chars f.2 ++ rest) = some (f.2, rest)) (rest : List Char) :
    readValue bound (depth + 1) (chars (.object fields) ++ rest) = some (.object fields, rest) := by
  rw [chars_object] at hbound ⊢
  cases fields with
  | nil => rfl
  | cons f fields =>
    obtain ⟨hcount, hlength⟩ := le_length_intercalate ',' fieldChars (f :: fields)
    simp only [List.length_cons, List.length_append, List.length_nil] at hbound hcount
    have hread : ∀ g ∈ f :: fields, ∀ rest, Stops rest →
        readField bound (readValue bound depth) (fieldChars g ++ rest) = some (g, rest) := by
      intro g hg rest hrest
      have hshorter := hlength g hg
      have hkey := length_quote g.1
      rw [fieldChars, List.length_append, List.length_cons] at hshorter
      exact readField_chars (by omega) (h g hg (by omega) rest hrest)
    have hfields := readFields_chars hread (show fields.length < bound by omega) [] rest
    have htext : '\x7b' :: [','].intercalate ((f :: fields).map fieldChars) ++ ['\x7d'] ++ rest =
        '\x7b' :: (fieldChars f ++ (fields.flatMap (fun g => ',' :: fieldChars g) ++ '\x7d' :: rest)) := by
      rw [intercalate_cons]
      simp
    have hopens : Opens '"' := ⟨by decide, by decide, by decide⟩
    rw [htext]
    exact (readValue_object bound depth hopens _).trans (congrArg _ hfields)

/-- **The text of a value reads back as the value**, whatever follows it that no number goes on with. -/
theorem readValue_chars {v : Value} (hfloats : FloatsReadBack v) {bound depth : Nat} (hbound : (chars v).length ≤ bound)
    (hdepth : v.depth ≤ depth) {rest : List Char} (hrest : Stops rest) :
    readValue bound depth (chars v ++ rest) = some (v, rest) := by
  induction v using Value.induct generalizing depth rest with
  | null =>
    rw [chars]
    cases depth <;> rfl
  | bool b => cases b <;> rw [chars] <;> cases depth <;> rfl
  | number n =>
    obtain ⟨c, cs, hcons, -⟩ := opens_chars hfloats
    rw [chars] at hcons ⊢
    have hnumeric : IsNumeric c := isNumeric_numberChars n c (hcons ▸ List.mem_cons_self)
    have hread := readNumber_numberChars hfloats.number hrest
    rw [hcons] at hread ⊢
    rw [List.cons_append] at hread ⊢
    rw [readValue_number _ _ hnumeric, hread]
    rfl
  | string s =>
    rw [chars] at hbound ⊢
    have hlength := length_quote s
    have hquoted := readCharacters_quoted (show s.toList.length < bound by omega) [] rest
    have htext : quote s ++ rest = '"' :: (s.toList.flatMap escape ++ '"' :: rest) := by simp [quote]
    rw [htext, readValue_string, hquoted]
    simp
  | array items ih =>
    obtain ⟨hpos, hinner⟩ := Value.depth_array_le_iff.mp hdepth
    obtain ⟨depth, rfl⟩ : ∃ d, depth = d + 1 := ⟨depth - 1, by omega⟩
    refine readValue_array_chars hfloats hbound (fun v hv hshort _ hrest => ?_) rest
    exact ih v hv (hfloats.item hv) hshort (hinner v hv) hrest
  | object fields ih =>
    obtain ⟨hpos, hinner⟩ := Value.depth_object_le_iff.mp hdepth
    obtain ⟨depth, rfl⟩ : ∃ d, depth = d + 1 := ⟨depth - 1, by omega⟩
    refine readValue_object_chars hbound (fun f hf hshort _ hrest => ?_) rest
    exact ih f hf (hfloats.field hf) hshort (hinner f hf) hrest

/-! ## Whole texts -/

theorem itemsInOrder_eq (taken items : List Value) : itemsInOrder taken items = taken.reverse ++ items.map inOrder := by
  induction items generalizing taken with
  | nil => simp [itemsInOrder]
  | cons v items ih => rw [itemsInOrder, ih]; simp

theorem fieldsInOrder_eq (taken fields : Fields) :
    fieldsInOrder taken fields = taken.reverse ++ fields.map fun f => (f.1, inOrder f.2) := by
  induction fields generalizing taken with
  | nil => simp [fieldsInOrder]
  | cons f fields ih => rw [fieldsInOrder, ih]; simp

/-- Putting a value in order whose fields are in order changes nothing. -/
theorem inOrder_of_wellFormed {v : Value} (h : v.WellFormed) : inOrder v = v := by
  induction v using Value.induct with
  | null => rfl
  | bool b => rfl
  | number n => rfl
  | string s => rfl
  | array items ih =>
    have hitems := Value.wellFormed_array_iff.mp h
    have hsame : items.map inOrder = items.map id := List.map_congr_left fun v hv => ih v hv (hitems v hv)
    rw [List.map_id] at hsame
    rw [inOrder, itemsInOrder_eq, hsame]
    rfl
  | object fields ih =>
    obtain ⟨hordered, hfields⟩ := Value.wellFormed_object_iff.mp h
    have hsame : (fields.map fun f => (f.1, inOrder f.2)) = fields.map id :=
      List.map_congr_left fun f hf => Prod.ext rfl (ih f hf (hfields f hf))
    rw [List.map_id] at hsame
    rw [inOrder, fieldsInOrder_eq, hsame, List.reverse_nil, List.nil_append, Keyed.ofList_of_ordered hordered]

/-- The text of a value, read as a whole, is that value again. -/
theorem read?_chars {v : Value} (hwell : v.WellFormed) (hfloats : FloatsReadBack v) (hdepth : v.depth ≤ maxDepth) :
    read? (chars v) = some v := by
  have hbound : (chars v).length ≤ (chars v).length + 1 := Nat.le_succ _
  have hread := readValue_chars hfloats hbound hdepth stops_nil
  rw [List.append_nil] at hread
  rw [read?, readAsWritten?, hread]
  simp [skipSpace, inOrder_of_wellFormed hwell]

/-! ## Control characters -/

theorem printable_hexDigit {d : Nat} (h : d < 16) : 0x20 ≤ (hexDigit d).toNat := by
  have hall : ∀ d < 16, 0x20 ≤ (hexDigit d).toNat := by decide
  exact hall d h

/-- A character between quotes is written without control characters. -/
theorem printable_escape (c : Char) : ∀ d ∈ escape c, 0x20 ≤ d.toNat := by
  rw [escape]
  split
  · simp
  split
  · simp
  split
  · next hprinted => simpa using hprinted
  split
  · simp
  split
  · simp
  split
  · simp
  split
  · simp
  split
  · simp
  · have hhigh := printable_hexDigit (show c.toNat / 16 < 16 by omega)
    have hlow := printable_hexDigit (show c.toNat % 16 < 16 by omega)
    simp [hhigh, hlow]

theorem printable_quote (s : String) : ∀ d ∈ quote s, 0x20 ≤ d.toNat := by
  intro d hd
  rw [quote, List.mem_append, List.mem_cons, List.mem_flatMap] at hd
  rcases hd with (rfl | ⟨c, -, hd⟩) | hd
  · decide
  · exact printable_escape c d hd
  · obtain rfl := List.mem_singleton.mp hd
    decide

theorem printable_of_isNumeric {c : Char} (h : IsNumeric c) : 0x20 ≤ c.toNat := by
  rcases h with h | h
  · rw [isDigit, Bool.and_eq_true, decide_eq_true_eq, decide_eq_true_eq] at h
    have hzero : '0'.toNat ≤ c.toNat := h.1
    exact Nat.le_trans (by decide) hzero
  · have hall : ∀ c ∈ ['-', '+', '.', 'e'], 0x20 ≤ c.toNat := by simp
    exact hall c h

/-- **No control character is in the text of a value.** -/
theorem printable_chars (v : Value) : ∀ d ∈ chars v, 0x20 ≤ d.toNat := by
  induction v using Value.induct with
  | null => simp [chars]
  | bool b => cases b <;> simp [chars]
  | number n =>
    intro d hd
    rw [chars] at hd
    exact printable_of_isNumeric (isNumeric_numberChars n d hd)
  | string s =>
    rw [chars]
    exact printable_quote s
  | array items ih =>
    intro d hd
    rw [chars_array, List.mem_append, List.mem_cons] at hd
    rcases hd with (rfl | hd) | hd
    · decide
    · rcases mem_intercalate hd with rfl | ⟨v, hv, hd⟩
      · decide
      · exact ih v hv d hd
    · obtain rfl := List.mem_singleton.mp hd
      decide
  | object fields ih =>
    intro d hd
    rw [chars_object, List.mem_append, List.mem_cons] at hd
    rcases hd with (rfl | hd) | hd
    · decide
    · rcases mem_intercalate hd with rfl | ⟨f, hf, hd⟩
      · decide
      · rw [fieldChars, List.mem_append, List.mem_cons] at hd
        rcases hd with hd | rfl | hd
        · exact printable_quote f.1 d hd
        · decide
        · exact ih f hf d hd
    · obtain rfl := List.mem_singleton.mp hd
      decide

end EditorLink.Json
