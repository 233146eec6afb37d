import EditorLink.Configuration.Loading
import EditorLink.Proofs.Configuration.Overlay
import EditorLink.Proofs.Json.RoundTrip

/-!
# EditorLink.Proofs.Configuration.Sources -- what files and variables hold

Whatever a file holds and whatever variables give, every object in it has its fields in order, because each reader orders the fields of
an object when it is complete. Variables give a little more than that: null never comes from them (`Value.Solid`).
-/

namespace EditorLink

/-! ## Values -/

namespace Value

/-- Fields are in order everywhere, and there is no null. -/
inductive Solid : Value → Prop where
  | bool (b) : Solid (.bool b)
  | number (n) : Solid (.number n)
  | string (s) : Solid (.string s)
  | array {items} : (∀ v ∈ items, Solid v) → Solid (.array items)
  | object {fields} : Keyed.Ordered fields → (∀ f ∈ fields, Solid f.2) → Solid (.object fields)

theorem solid_object_iff (fields : Fields) : Solid (.object fields) ↔ Keyed.Ordered fields ∧ ∀ f ∈ fields, Solid f.2 := by
  constructor
  · rintro ⟨⟩
    constructor <;> assumption
  · rintro ⟨hordered, h⟩
    exact .object hordered h

theorem Solid.wellFormed {v : Value} (h : Solid v) : WellFormed v := by
  induction h with
  | bool b => exact .bool b
  | number n => exact .number n
  | string s => exact .string s
  | array _ ih => exact .array ih
  | object ordered _ ih => exact .object ordered ih

theorem wellFormed_ofFields {fields : Fields} (h : ∀ f ∈ fields, WellFormed f.2) : WellFormed (ofFields fields) :=
  .object (Keyed.ordered_ofList _) fun f hf => h f (Keyed.mem_ofList hf)

theorem solid_ofFields {fields : Fields} (h : ∀ f ∈ fields, Solid f.2) : Solid (ofFields fields) :=
  .object (Keyed.ordered_ofList _) fun f hf => h f (Keyed.mem_ofList hf)

end Value

namespace Configuration

open Value Files

/-! ## Files -/

/-- Putting a value in order puts it in order everywhere. -/
theorem wellFormed_inOrder (v : Value) : (Json.inOrder v).WellFormed := by
  induction v using Value.induct with
  | null => exact .null
  | bool b => exact .bool b
  | number n => exact .number n
  | string s => exact .string s
  | array items ih =>
    rw [Json.inOrder, Json.itemsInOrder_eq, List.reverse_nil, List.nil_append]
    refine .array fun v hv => ?_
    obtain ⟨item, hitem, rfl⟩ := List.mem_map.mp hv
    exact ih item hitem
  | object fields ih =>
    rw [Json.inOrder, Json.fieldsInOrder_eq, List.reverse_nil, List.nil_append]
    refine wellFormed_ofFields fun f hf => ?_
    obtain ⟨field, hfield, rfl⟩ := List.mem_map.mp hf
    exact ih field hfield

mutual
theorem wellFormed_ofToml : ∀ item, (ofToml item).WellFormed
  | .scalar (.text s) => .string s
  | .scalar (.integer i) => by
    rw [ofToml, ofInt]
    split
    · exact .number _
    · exact .null
  | .scalar (.float x) => .number _
  | .scalar (.flag b) => .bool b
  | .scalar (.date written) =>
    .object (List.pairwise_singleton ..) fun f hf => by
      rw [List.mem_singleton.mp hf]
      exact .string written
  | .list items => .array (wellFormed_ofTomlItems items)
  | .table _ entries => wellFormed_ofFields (wellFormed_ofTomlEntries entries)
  | .tables latest earlier =>
    .array (wellFormed_ofTomlTables earlier fun v hv => by
      rw [List.mem_singleton.mp hv]
      exact wellFormed_ofFields (wellFormed_ofTomlEntries latest))

theorem wellFormed_ofTomlItems : ∀ items, ∀ v ∈ ofTomlItems items, v.WellFormed
  | item :: rest, v, hv => by
    rcases List.mem_cons.mp hv with rfl | hv
    · exact wellFormed_ofToml item
    · exact wellFormed_ofTomlItems rest v hv

theorem wellFormed_ofTomlEntries : ∀ entries, ∀ f ∈ ofTomlEntries entries, f.2.WellFormed
  | (key, item) :: rest, f, hf => by
    rcases List.mem_cons.mp hf with rfl | hf
    · exact wellFormed_ofToml item
    · exact wellFormed_ofTomlEntries rest f hf

theorem wellFormed_ofTomlTables : ∀ tables {later : List Value}, (∀ v ∈ later, v.WellFormed) →
    ∀ v ∈ ofTomlTables tables later, v.WellFormed
  | [], _, hlater => hlater
  | t :: earlier, _, hlater =>
    wellFormed_ofTomlTables earlier fun v hv => by
      rcases List.mem_cons.mp hv with rfl | hv
      · exact wellFormed_ofFields (wellFormed_ofTomlEntries t)
      · exact hlater v hv
end

theorem wellFormed_ofMeaning {m : Yaml.Meaning} {v : Value} (h : ofMeaning m = some v) : v.WellFormed := by
  cases m with
  | null => cases h; exact .null
  | flag b => cases h; exact .bool b
  | integer i => cases h; exact .number _
  | float x => cases h; exact .number _
  | text s => cases h; exact .string s

/-- What `mapM` gives comes from somewhere. -/
theorem mem_of_mapM {α β : Type} {f : α → Option β} {items : List α} {results : List β} (h : items.mapM f = some results)
    {b : β} (hb : b ∈ results) : ∃ a ∈ items, f a = some b := by
  induction items generalizing results with
  | nil =>
    cases h
    cases hb
  | cons a rest ih =>
    simp only [List.mapM_cons, Option.bind_eq_bind, Option.bind_eq_some_iff, Option.pure_def, Option.some.injEq] at h
    obtain ⟨first, hfirst, others, hothers, rfl⟩ := h
    rcases List.mem_cons.mp hb with rfl | hb
    · exact ⟨a, List.mem_cons_self, hfirst⟩
    · obtain ⟨a', ha', hfa⟩ := ih hothers hb
      exact ⟨a', List.mem_cons_of_mem _ ha', hfa⟩

theorem wellFormed_toValueWithin {depth : Nat} {n : Yaml.Node} {v : Value} (h : n.toValueWithin ofMeaning depth = some v) : v.WellFormed := by
  induction depth generalizing n v with
  | zero =>
    cases n with
    | scalar tag plain s =>
      obtain ⟨m, -, hm⟩ := Option.bind_eq_some_iff.mp h
      exact wellFormed_ofMeaning hm
    | sequence tag items => cases h
    | mapping tag entries => cases h
  | succ depth ih =>
    cases n with
    | scalar tag plain s =>
      obtain ⟨m, -, hm⟩ := Option.bind_eq_some_iff.mp h
      exact wellFormed_ofMeaning hm
    | sequence tag items =>
      rw [Yaml.Node.toValueWithin] at h
      split at h
      · cases h
      · obtain ⟨values, hvalues, rfl⟩ := Option.map_eq_some_iff.mp h
        refine .array fun v hv => ?_
        obtain ⟨item, -, hitem⟩ := mem_of_mapM hvalues hv
        exact ih hitem
    | mapping tag entries =>
      rw [Yaml.Node.toValueWithin] at h
      split at h
      · cases h
      · obtain ⟨fields, hfields, rfl⟩ := Option.map_eq_some_iff.mp h
        refine wellFormed_ofFields fun f hf => ?_
        obtain ⟨entry, -, hentry⟩ := mem_of_mapM hfields hf
        simp only [Option.bind_eq_bind, Option.bind_eq_some_iff, Option.pure_def, Option.some.injEq] at hentry
        obtain ⟨key, -, value, hvalue, rfl⟩ := hentry
        exact ih hvalue

/-- **The fields of a document are in order, and so is all that is in them.** -/
theorem wellFormed_read? {format : FileFormat} {text : String} {fields : Fields} (h : format.read? text = some fields) :
    (Value.object fields).WellFormed := by
  cases format with
  | toml =>
    obtain ⟨t, -, rfl⟩ := Option.map_eq_some_iff.mp h
    exact wellFormed_ofFields (wellFormed_ofTomlEntries t)
  | json =>
    rw [FileFormat.read?] at h
    split at h
    · next fields' hread =>
      cases h
      obtain ⟨v, -, hv⟩ := Option.map_eq_some_iff.mp hread
      rw [← hv]
      exact wellFormed_inOrder v
    · cases h
  | yaml =>
    rw [FileFormat.read?] at h
    split at h
    · cases h
    · cases h
      exact .object List.Pairwise.nil nofun
    · split at h
      · obtain ⟨entries, hentries, rfl⟩ := Option.map_eq_some_iff.mp h
        refine wellFormed_ofFields fun f hf => ?_
        obtain ⟨entry, -, hentry⟩ := mem_of_mapM hentries hf
        obtain ⟨v, hv, rfl⟩ := Option.map_eq_some_iff.mp hentry
        exact wellFormed_toValueWithin hv
      · cases h

/-- Settings are an object that is in order everywhere. -/
def Settings (v : Value) : Prop :=
  ∃ fields, v = .object fields ∧ v.WellFormed

theorem settings_nothing : Settings (.object []) :=
  ⟨[], rfl, .object List.Pairwise.nil nofun⟩

theorem Settings.overlay {v w : Value} (hv : Settings v) (hw : Settings w) : Settings (overlay v w) := by
  obtain ⟨base, rfl, hbase⟩ := hv
  obtain ⟨later, rfl, hlater⟩ := hw
  exact ⟨_, overlay_objects .., overlay_closed (fun _ => wellFormed_object_iff) hbase hlater⟩

theorem settings_readFile {files : Tree} {format : FileFormat} {path : String} {v : Value} (h : readFile files format path = .ok v) :
    Settings v := by
  rw [readFile] at h
  split at h
  · next fields hread =>
    cases h
    obtain ⟨text, -, hfields⟩ := Option.bind_eq_some_iff.mp hread
    exact ⟨fields, rfl, wellFormed_read? hfields⟩
  · cases h

theorem settings_readFound {files : Tree} {names : List (String × FileFormat)} {v w : Value} (hv : Settings v)
    (h : readFound files names v = .ok w) : Settings w := by
  induction names generalizing v with
  | nil =>
    cases h
    exact hv
  | cons entry rest ih =>
    obtain ⟨name, format⟩ := entry
    rw [readFound] at h
    split at h
    · exact ih hv h
    · next path _ =>
      cases hfile : readFile files format path with
      | error e =>
        rw [hfile] at h
        cases h
      | ok u =>
        rw [hfile] at h
        exact ih (hv.overlay (settings_readFile hfile)) h

/-! ## Variables -/

namespace Variables

theorem solid_bare (cs : List Char) : Solid (bare cs) := by
  simp only [bare]
  split
  · exact .number _
  · split
    · exact .number _
    · exact .string _

theorem solid_readCharacter {cs rest : List Char} {v : Value} (h : readCharacter cs = some (v, rest)) : Solid v := by
  rw [readCharacter.eq_def] at h
  split at h
  · obtain ⟨c, -, heq⟩ := Option.map_eq_some_iff.mp h
    cases heq
    exact .string _
  · cases h
    exact .string _
  · cases h

/-- What is read one by one has every property that each item has when it is read. -/
theorem readSeries_forall {α : Type} {P : α → Prop} {close : Char} {item : List Char → Reading α}
    (hitem : ∀ cs a rest, item cs = some (a, rest) → P a) {fuel : Nat} {taken : List α} (htaken : ∀ a ∈ taken, P a)
    {cs rest : List Char} {items : List α} (h : readSeries close item fuel taken cs = some (items, rest)) : ∀ a ∈ items, P a := by
  induction fuel generalizing taken cs with
  | zero => cases h
  | succ fuel ih =>
    rw [readSeries] at h
    split at h
    · cases h
      exact fun a ha => htaken a (List.mem_reverse.mp ha)
    · split at h
      · cases h
      · next a rest' hread =>
        have hmore : ∀ b ∈ a :: taken, P b := List.forall_mem_cons.mpr ⟨hitem _ _ _ hread, htaken⟩
        split at h
        · exact ih hmore h
        · split at h
          · cases h
            exact fun b hb => hmore b (List.mem_reverse.mp hb)
          · cases h

theorem solid_readPair {value : List Char → Reading Value} (hvalue : ∀ cs v rest, value cs = some (v, rest) → Solid v)
    {cs rest : List Char} {f : String × Value} (h : readPair value cs = some (f, rest)) : Solid f.2 := by
  rw [readPair] at h
  split at h
  · cases h
  · split at h
    · obtain ⟨⟨v, rest'⟩, hread, heq⟩ := Option.map_eq_some_iff.mp h
      cases heq
      exact hvalue _ _ _ hread
    · cases h

theorem solid_readValue {fuel : Nat} {cs rest : List Char} {v : Value} (h : readValue fuel cs = some (v, rest)) : Solid v := by
  induction fuel generalizing cs v rest with
  | zero => cases h
  | succ fuel ih =>
    rw [readValue] at h
    obtain ⟨⟨v', rest'⟩, hread, heq⟩ := Option.map_eq_some_iff.mp h
    cases heq
    split at hread
    · cases hread
      exact .bool true
    · cases hread
      exact .bool false
    · obtain ⟨⟨fields, rest''⟩, hseries, heq⟩ := Option.map_eq_some_iff.mp hread
      cases heq
      exact solid_ofFields (readSeries_forall (P := fun f => Solid f.2) (fun _ _ _ => solid_readPair fun _ _ _ => ih) (by simp) hseries)
    · obtain ⟨⟨items, rest''⟩, hseries, heq⟩ := Option.map_eq_some_iff.mp hread
      cases heq
      exact .array (readSeries_forall (fun _ _ _ => ih) (by simp) hseries)
    · obtain ⟨⟨s, rest''⟩, -, heq⟩ := Option.map_eq_some_iff.mp hread
      cases heq
      exact .string s
    · exact solid_readCharacter hread
    · cases hread
      exact solid_bare _

theorem solid_valueOf (text : String) : Solid (valueOf text) := by
  simp only [valueOf]
  split
  · next h => exact solid_readValue h
  · exact .string text

theorem solid_nested (path : List String) {v : Value} (h : Solid v) : Solid (nested path v) := by
  induction path with
  | nil => exact h
  | cons p rest ih =>
    refine .object (List.pairwise_singleton ..) fun f hf => ?_
    rw [List.mem_singleton.mp hf]
    exact ih

/-- A path has at least one part. -/
theorem ne_nil_of_path? {name : String} {path : List String} (h : path? name = some path) : path ≠ [] := by
  rw [path?] at h
  split at h
  · cases h
  · next rest _ =>
    have hparts : splitPath rest ≠ [] := by
      rw [splitPath.eq_def]
      split
      · simp
      · simp
      · simp
      · split <;> simp
    simp only at h
    split at h
    · cases h
    · cases h
      simpa using hparts

/-- A solid object. -/
def SolidObject (v : Value) : Prop :=
  ∃ fields, v = .object fields ∧ Solid (.object fields)

/-- One variable over what was there before. -/
def put (v : Value) (entry : String × String) : Value :=
  match path? entry.1 with
  | some path => overlay v (nested path (valueOf entry.2))
  | none => v

theorem settings_eq (env : Environment) : settings env = env.foldl put (.object []) := rfl

theorem SolidObject.put {v : Value} (h : SolidObject v) (entry : String × String) : SolidObject (put v entry) := by
  obtain ⟨fields, rfl, hsolid⟩ := h
  rw [Variables.put]
  cases hpath : path? entry.1 with
  | none => exact ⟨fields, rfl, hsolid⟩
  | some path =>
    cases path with
    | nil => exact absurd rfl (ne_nil_of_path? hpath)
    | cons p rest =>
      have hnested := solid_nested (p :: rest) (solid_valueOf entry.2)
      refine ⟨_, overlay_objects .., ?_⟩
      rw [← overlay_objects]
      exact overlay_closed solid_object_iff hsolid hnested

/-- **Variables give an object that is solid.** -/
theorem solid_settings (env : Environment) : SolidObject (settings env) :=
  List.foldlRecOn (motive := SolidObject) env put ⟨[], rfl, .object List.Pairwise.nil nofun⟩ fun _ hv entry _ => hv.put entry

end Variables
end Configuration
end EditorLink
