import Mathlib.Tactic.Choose
import EditorLink.Configuration.Loading
import EditorLink.Proofs.Configuration.Substitution
import EditorLink.Proofs.Record

/-!
# EditorLink.Proofs.Configuration.Settings -- a configuration setting by setting

Everything that is done to get a configuration from a value is done to each setting on its own: it is looked up in its section, read,
checked, and expanded if it is a path. So a value gives a configuration exactly if it gives each setting (`ofSettings_eq_ok_iff`), and a
configuration may be put together from settings of several others (`assemble`).
-/

namespace EditorLink.Configuration

/-! ## Settings -/

/-- The settings of a configuration. -/
inductive Item where
  | format
  | maxFrameBytes
  | maxInFlight
  | roots
  | packageDir
  | level
  | file
  | json
  deriving DecidableEq

/-- What a section gives for the field with some names and a place; the outer `none` is a section that cannot be read. -/
def slotAt? (names : Record.Names) (place : Nat) : Value → Option (Option Value)
  | .object fields => Record.slot? fields names
  | .array items => some items[place]?
  | _ => none

namespace Item

/-- The key of the section that a setting is in. -/
def sectionKey : Item → String
  | format | maxFrameBytes => "wire"
  | maxInFlight => "dispatch"
  | roots | packageDir => "packages"
  | level | file | json => "logging"

def names : Item → Record.Names
  | format => ["format"]
  | maxFrameBytes => ["maxFrameBytes", "max_frame_bytes"]
  | maxInFlight => ["maxInFlight", "max_in_flight"]
  | roots => ["roots"]
  | packageDir => ["packageDir", "package_dir"]
  | level => ["level"]
  | file => ["file"]
  | json => ["json"]

/-- The place of a setting in an array that stands for its section. -/
def place : Item → Nat
  | format | maxInFlight | roots | level => 0
  | maxFrameBytes | packageDir | file => 1
  | json => 2

/-- What a section, if there is one, gives for a setting; the outer `none` is a section that cannot be read. -/
def slot? (item : Item) : Option Value → Option (Option Value)
  | none => some none
  | some v => slotAt? item.names item.place v

/-- A configuration has for a setting what is read from what is given for it. -/
def Reads (slot : Option Value) (c : Configuration) : Item → Prop
  | format => Record.withDefault? ({} : WireOptions).format (format? .ignored) slot = some c.wire.format
  | maxFrameBytes => Record.withDefault? ({} : WireOptions).maxFrameBytes Value.natural? slot = some c.wire.maxFrameBytes
  | maxInFlight => Record.withDefault? ({} : DispatchOptions).maxInFlight Value.natural? slot = some c.dispatch.maxInFlight
  | roots => Record.withDefault? [] texts? slot = some c.packages.roots
  | packageDir => Record.optional? Value.text? slot = some c.packages.packageDir
  | level => Record.withDefault? ({} : LogOptions).level Value.text? slot = some c.log.level
  | file => Record.optional? Value.text? slot = some c.log.file
  | json => Record.withDefault? ({} : LogOptions).json Value.flag? slot = some c.log.json

/-- Two configurations have one value for a setting. -/
def Agree (c d : Configuration) : Item → Prop
  | format => c.wire.format = d.wire.format
  | maxFrameBytes => c.wire.maxFrameBytes = d.wire.maxFrameBytes
  | maxInFlight => c.dispatch.maxInFlight = d.dispatch.maxInFlight
  | roots => c.packages.roots = d.packages.roots
  | packageDir => c.packages.packageDir = d.packages.packageDir
  | level => c.log.level = d.log.level
  | file => c.log.file = d.log.file
  | json => c.log.json = d.log.json

/-- A setting keeps the rules. -/
def Fit (c : Configuration) : Item → Prop
  | maxFrameBytes => minFrameBytes ≤ c.wire.maxFrameBytes.toNat
  | maxInFlight => c.dispatch.maxInFlight ≠ 0
  | level => Text.isBlankText c.log.level = false
  | _ => True

/-- A setting with the references in it replaced. -/
def Expands (env : Environment) (c d : Configuration) : Item → Prop
  | roots => c.packages.roots.mapM (expand env) = .ok d.packages.roots
  | packageDir => c.packages.packageDir.mapM (expand env) = .ok d.packages.packageDir
  | item => item.Agree c d

variable {item : Item} {c c' d d' : Configuration} {slot : Option Value} {env : Environment}

@[simp] theorem Agree.refl (item : Item) (c : Configuration) : item.Agree c c := by
  cases item <;> rfl

theorem Agree.symm (h : item.Agree c d) : item.Agree d c := by
  cases item <;> exact Eq.symm h

theorem Agree.trans (h : item.Agree c c') (h' : item.Agree c' d) : item.Agree c d := by
  cases item <;> exact Eq.trans h h'

theorem Reads.congr (same : item.Agree c d) (h : item.Reads slot c) : item.Reads slot d := by
  cases item <;> exact h.trans (congrArg some same)

theorem Fit.congr (same : item.Agree c d) (h : item.Fit c) : item.Fit d := by
  cases item with
  | maxFrameBytes => exact Nat.le_trans h (Nat.le_of_eq (congrArg UInt64.toNat same))
  | maxInFlight => exact fun hzero => h (Eq.trans same hzero)
  | level => exact (congrArg Text.isBlankText (Eq.symm same)).trans h
  | _ => trivial

theorem Expands.congr (same : item.Agree c c') (same' : item.Agree d d') (h : item.Expands env c d) : item.Expands env c' d' := by
  cases item with
  | roots => exact (congrArg (List.mapM (expand env)) (Eq.symm same)).trans (h.trans (congrArg Except.ok same'))
  | packageDir => exact (congrArg (Option.mapM (expand env)) (Eq.symm same)).trans (h.trans (congrArg Except.ok same'))
  | _ => exact (Agree.symm same).trans (Agree.trans h same')

/-- What is given for a setting has one meaning. -/
theorem Reads.agree (h : item.Reads slot c) (h' : item.Reads slot d) : item.Agree c d := by
  cases item <;> exact Option.some.inj (Eq.trans (Eq.symm h) h')

/-- A setting that is not given has its default. -/
theorem reads_default (item : Item) : item.Reads none {} := by
  cases item <;> rfl

theorem fit_default (item : Item) : item.Fit {} := by
  cases item with
  | maxFrameBytes => exact (by decide : minFrameBytes ≤ Wire.defaultMaxFrameBytes)
  | maxInFlight => exact (by decide : (1024 : UInt64) ≠ 0)
  | level => rfl
  | _ => trivial

theorem expands_default (env : Environment) (item : Item) : item.Expands env {} {} := by
  cases item <;> rfl

end Item

/-- Configurations that agree on each setting are the same. -/
theorem eq_of_agree {c d : Configuration} (h : ∀ item : Item, item.Agree c d) : c = d := by
  obtain ⟨⟨_, _⟩, ⟨_⟩, ⟨_, _⟩, ⟨_, _, _⟩⟩ := c
  obtain ⟨⟨_, _⟩, ⟨_⟩, ⟨_, _⟩, ⟨_, _, _⟩⟩ := d
  cases h .format
  cases h .maxFrameBytes
  cases h .maxInFlight
  cases h .roots
  cases h .packageDir
  cases h .level
  cases h .file
  cases h .json
  rfl

/-! ## Reading -/

/-- What a section gives for each of its declared fields, it gives for each on its own. -/
theorem slots?_eq {declared : List Record.Names} (some_declared : declared ≠ []) (v : Value) :
    slots? .ignored declared v = declared.zipIdx.mapM fun e => slotAt? e.1 e.2 v := by
  cases v with
  | object fields =>
    have hfst : declared.zipIdx.map Prod.fst = declared := List.zipIdx_map_fst ..
    have hmap : (declared.zipIdx.map Prod.fst).mapM (Record.slot? fields) = declared.zipIdx.mapM (Record.slot? fields ∘ Prod.fst) :=
      List.mapM_map
    rw [hfst] at hmap
    exact hmap
  | array items =>
    have hshort : ¬ declared.length < (items.take declared.length).length := by
      rw [List.length_take]
      omega
    have hpure : (declared.zipIdx.mapM fun e => slotAt? e.1 e.2 (.array items)) = some (declared.zipIdx.map fun e => items[e.2]?) :=
      List.mapM_pure
    rw [hpure, slots?, if_pos rfl, Record.slots?, if_neg hshort]
    congr 1
    refine List.ext_getElem ?_ fun i _ hi => ?_
    · simp only [List.length_append, List.length_map, List.length_replicate, List.length_take, List.length_zipIdx]
      omega
    simp only [List.length_map, List.length_zipIdx] at hi
    simp only [List.getElem_map, List.getElem_zipIdx, List.getElem_append, List.getElem_take, List.length_map, List.getElem_replicate, Nat.zero_add]
    split
    · rw [List.getElem?_eq_getElem]
    · next hge =>
      rw [List.length_take] at hge
      exact (List.getElem?_eq_none (by omega)).symm
  | _ =>
    obtain ⟨names, rest, rfl⟩ := List.exists_cons_of_ne_nil some_declared
    rw [List.zipIdx_cons, List.mapM_cons]
    rfl

section Sections

open Item

variable {v : Option Value}

theorem wire_iff {o : WireOptions} : Record.withDefault? {} (WireOptions.ofValue? .ignored) v = some o ↔
    ∃ a b, format.slot? v = some a ∧ maxFrameBytes.slot? v = some b ∧ format.Reads a { wire := o } ∧ maxFrameBytes.Reads b { wire := o } := by
  obtain ⟨f, m⟩ := o
  cases v with
  | none => simp [Record.withDefault?, slot?, Reads]
  | some v =>
    rw [Record.withDefault?, WireOptions.ofValue?, slots?_eq (by simp)]
    simp only [slot?, Reads, names, place, List.zipIdx_cons, List.zipIdx_nil, List.mapM_cons, List.mapM_nil]
    cases slotAt? ["format"] 0 v with
    | none => simp
    | some a =>
      cases slotAt? ["maxFrameBytes", "max_frame_bytes"] (0 + 1) v with
      | none => simp
      | some b => simp [Option.bind_eq_some_iff]

theorem dispatch_iff {o : DispatchOptions} : Record.withDefault? {} (DispatchOptions.ofValue? .ignored) v = some o ↔
    ∃ a, maxInFlight.slot? v = some a ∧ maxInFlight.Reads a { dispatch := o } := by
  obtain ⟨m⟩ := o
  cases v with
  | none => simp [Record.withDefault?, slot?, Reads]
  | some v =>
    rw [Record.withDefault?, DispatchOptions.ofValue?, slots?_eq (by simp)]
    simp only [slot?, Reads, names, place, List.zipIdx_cons, List.zipIdx_nil, List.mapM_cons, List.mapM_nil]
    cases slotAt? ["maxInFlight", "max_in_flight"] 0 v with
    | none => simp
    | some a => simp [Option.bind_eq_some_iff]

theorem packages_iff {o : PackageOptions} : Record.withDefault? {} (PackageOptions.ofValue? .ignored) v = some o ↔
    ∃ a b, roots.slot? v = some a ∧ Item.packageDir.slot? v = some b ∧ roots.Reads a { packages := o } ∧ Item.packageDir.Reads b { packages := o } := by
  obtain ⟨r, d⟩ := o
  cases v with
  | none => simp [Record.withDefault?, Record.optional?, slot?, Reads]
  | some v =>
    rw [Record.withDefault?, PackageOptions.ofValue?, slots?_eq (by simp)]
    simp only [slot?, Reads, names, place, List.zipIdx_cons, List.zipIdx_nil, List.mapM_cons, List.mapM_nil]
    cases slotAt? ["roots"] 0 v with
    | none => simp
    | some a =>
      cases slotAt? ["packageDir", "package_dir"] (0 + 1) v with
      | none => simp
      | some b => simp [Option.bind_eq_some_iff]

theorem logging_iff {o : LogOptions} : Record.withDefault? {} (LogOptions.ofValue? .ignored) v = some o ↔
    ∃ a b c, level.slot? v = some a ∧ file.slot? v = some b ∧ json.slot? v = some c ∧
      level.Reads a { log := o } ∧ file.Reads b { log := o } ∧ json.Reads c { log := o } := by
  obtain ⟨l, f, j⟩ := o
  cases v with
  | none => simp [Record.withDefault?, Record.optional?, slot?, Reads]
  | some v =>
    rw [Record.withDefault?, LogOptions.ofValue?, slots?_eq (by simp)]
    simp only [slot?, Reads, names, place, List.zipIdx_cons, List.zipIdx_nil, List.mapM_cons, List.mapM_nil]
    cases slotAt? ["level"] 0 v with
    | none => simp
    | some a =>
      cases slotAt? ["file"] (0 + 1) v with
      | none => simp
      | some b =>
        cases slotAt? ["json"] (0 + 1 + 1) v with
        | none => simp
        | some c =>
          simp only [Option.bind_eq_bind, Option.pure_def, Option.bind_some, Option.bind_eq_some_iff, Option.some.injEq, LogOptions.mk.injEq]
          constructor
          · rintro ⟨_, hl, _, hf, _, hj, rfl, rfl, rfl⟩
            exact ⟨a, b, c, rfl, rfl, rfl, hl, hf, hj⟩
          · rintro ⟨_, _, _, rfl, rfl, rfl, hl, hf, hj⟩
            exact ⟨_, hl, _, hf, _, hj, rfl, rfl, rfl⟩

/-- **An object gives a configuration exactly if it gives each setting.** -/
theorem ofValue?_iff {fields : Fields} (ordered : Keyed.Ordered fields) {c : Configuration} :
    ofValue? .ignored (.object fields) = some c ↔
      ∀ item : Item, ∃ slot, item.slot? (Keyed.get? fields item.sectionKey) = some slot ∧ item.Reads slot c := by
  have hsection : ∀ key, Record.slot? fields [key] = some (Keyed.get? fields key) := by
    intro key
    cases hfound : Keyed.get? fields key with
    | none => exact Record.slot?_eq_none_iff.mpr (by simpa using hfound)
    | some v => exact (Record.slot?_eq_some_iff ordered).mpr ⟨key, List.mem_singleton_self key, hfound, fun m hm _ => List.mem_singleton.mp hm⟩
  have hread : ofValue? .ignored (.object fields) = some c ↔
      Record.withDefault? {} (WireOptions.ofValue? .ignored) (Keyed.get? fields "wire") = some c.wire ∧
      Record.withDefault? {} (DispatchOptions.ofValue? .ignored) (Keyed.get? fields "dispatch") = some c.dispatch ∧
      Record.withDefault? {} (PackageOptions.ofValue? .ignored) (Keyed.get? fields "packages") = some c.packages ∧
      Record.withDefault? {} (LogOptions.ofValue? .ignored) (Keyed.get? fields "logging") = some c.log := by
    obtain ⟨w, d, p, l⟩ := c
    rw [ofValue?, slots?, Record.slots?]
    · simp only [List.mapM_cons, List.mapM_nil, hsection, Option.bind_eq_bind, Option.pure_def, Option.bind_some, Option.bind_eq_some_iff,
        Option.some.injEq, Configuration.mk.injEq]
      constructor
      · rintro ⟨_, hw, _, hd, _, hp, _, hl, rfl, rfl, rfl, rfl⟩
        exact ⟨hw, hd, hp, hl⟩
      · rintro ⟨hw, hd, hp, hl⟩
        exact ⟨_, hw, _, hd, _, hp, _, hl, rfl, rfl, rfl, rfl⟩
    · exact nofun
  rw [hread, wire_iff, dispatch_iff, packages_iff, logging_iff]
  constructor
  · rintro ⟨⟨_, _, hformat, hmax, rformat, rmax⟩, ⟨_, hin, rin⟩, ⟨_, _, hroots, hdir, rroots, rdir⟩,
      ⟨_, _, _, hlevel, hfile, hjson, rlevel, rfile, rjson⟩⟩ item
    cases item with
    | format => exact ⟨_, hformat, rformat⟩
    | maxFrameBytes => exact ⟨_, hmax, rmax⟩
    | maxInFlight => exact ⟨_, hin, rin⟩
    | roots => exact ⟨_, hroots, rroots⟩
    | packageDir => exact ⟨_, hdir, rdir⟩
    | level => exact ⟨_, hlevel, rlevel⟩
    | file => exact ⟨_, hfile, rfile⟩
    | json => exact ⟨_, hjson, rjson⟩
  · intro h
    obtain ⟨_, hformat, rformat⟩ := h .format
    obtain ⟨_, hmax, rmax⟩ := h .maxFrameBytes
    obtain ⟨_, hin, rin⟩ := h .maxInFlight
    obtain ⟨_, hroots, rroots⟩ := h .roots
    obtain ⟨_, hdir, rdir⟩ := h .packageDir
    obtain ⟨_, hlevel, rlevel⟩ := h .level
    obtain ⟨_, hfile, rfile⟩ := h .file
    obtain ⟨_, hjson, rjson⟩ := h .json
    exact ⟨⟨_, _, hformat, hmax, rformat, rmax⟩, ⟨_, hin, rin⟩, ⟨_, _, hroots, hdir, rroots, rdir⟩,
      ⟨_, _, _, hlevel, hfile, hjson, rlevel, rfile, rjson⟩⟩

end Sections

/-! ## Rules and paths -/

/-- A configuration keeps the rules exactly if each of its settings does. -/
theorem validate_eq_ok_iff {c : Configuration} : c.validate = .ok () ↔ ∀ item : Item, item.Fit c := by
  have hfault : c.validate = .ok () ↔ c.fault? = none := by
    rw [validate]
    cases c.fault? with
    | none => exact ⟨fun _ => rfl, fun _ => rfl⟩
    | some fault => exact ⟨nofun, nofun⟩
  rw [hfault, fault?]
  constructor
  · intro h
    split at h
    · cases h
    · next hlimit =>
      split at h
      · cases h
      · next hhandlers =>
        split at h
        · cases h
        · next hlevel =>
          intro item
          cases item with
          | maxFrameBytes => exact Nat.not_lt.mp hlimit
          | maxInFlight => exact hhandlers
          | level => exact Bool.eq_false_iff.mpr hlevel
          | _ => trivial
  · intro h
    rw [if_neg (Nat.not_lt.mpr (h .maxFrameBytes)), if_neg (h .maxInFlight), if_neg (Bool.eq_false_iff.mp (h .level))]

/-- References are replaced in a configuration exactly if they are in each setting. -/
theorem expandPaths_eq_ok_iff {env : Environment} {c d : Configuration} : expandPaths env c = .ok d ↔ ∀ item : Item, item.Expands env c d := by
  constructor
  · intro h
    rw [expandPaths] at h
    cases hroots : c.packages.roots.mapM (expand env) with
    | error e =>
      rw [hroots] at h
      cases h
    | ok roots =>
      cases hdir : c.packages.packageDir.mapM (expand env) with
      | error e =>
        rw [hroots, hdir] at h
        cases h
      | ok dir =>
        rw [hroots, hdir] at h
        cases h
        intro item
        cases item with
        | roots => exact hroots
        | packageDir => exact hdir
        | _ => rfl
  · intro h
    have hroots : c.packages.roots.mapM (expand env) = .ok d.packages.roots := h .roots
    have hdir : c.packages.packageDir.mapM (expand env) = .ok d.packages.packageDir := h .packageDir
    have hexpand : expandPaths env c = .ok { c with packages := { roots := d.packages.roots, packageDir := d.packages.packageDir } } := by
      rw [expandPaths, hroots, hdir]
      rfl
    rw [hexpand]
    refine congrArg Except.ok (eq_of_agree fun item => ?_)
    cases item with
    | roots => rfl
    | packageDir => rfl
    | format => exact h .format
    | maxFrameBytes => exact h .maxFrameBytes
    | maxInFlight => exact h .maxInFlight
    | level => exact h .level
    | file => exact h .file
    | json => exact h .json

/-! ## Whole configurations -/

/-- The configuration that settings give on their own. -/
def ofSettings (env : Environment) (settings : Value) : Except ConfigError Configuration :=
  match ofValue? .ignored settings with
  | none => .error (.parse (.content "a setting has the wrong type or is given twice"))
  | some c => do
    c.validate
    expandPaths env c

theorem complete_eq (env : Environment) (settings : Value) :
    complete env settings = ofSettings env (overlay settings (Variables.settings env)) := rfl

/-- A configuration has for a setting what comes of what is given for it, once that is read, checked and expanded. -/
def Item.Loads (env : Environment) (slot : Option Value) (d : Configuration) (item : Item) : Prop :=
  ∃ c, item.Reads slot c ∧ item.Fit c ∧ item.Expands env c d

/-- A configuration with each setting of its own choice. -/
def assemble (choose : Item → Configuration) : Configuration where
  wire := { format := (choose .format).wire.format, maxFrameBytes := (choose .maxFrameBytes).wire.maxFrameBytes }
  dispatch := { maxInFlight := (choose .maxInFlight).dispatch.maxInFlight }
  packages := { roots := (choose .roots).packages.roots, packageDir := (choose .packageDir).packages.packageDir }
  log := { level := (choose .level).log.level, file := (choose .file).log.file, json := (choose .json).log.json }

theorem agree_assemble (choose : Item → Configuration) (item : Item) : item.Agree (assemble choose) (choose item) := by
  cases item <;> rfl

/-- A configuration is read, checked and expanded. -/
theorem ofSettings_eq_ok {env : Environment} {v : Value} {d : Configuration} (h : ofSettings env v = .ok d) :
    ∃ c, ofValue? .ignored v = some c ∧ c.validate = .ok () ∧ expandPaths env c = .ok d := by
  rw [ofSettings] at h
  split at h
  · cases h
  · next c hread =>
    cases hvalid : c.validate with
    | error e =>
      rw [hvalid] at h
      cases h
    | ok u =>
      rw [hvalid] at h
      exact ⟨c, hread, hvalid, h⟩

/-- **Settings give a configuration exactly if they give each setting of it.** -/
theorem ofSettings_eq_ok_iff {env : Environment} {fields : Fields} (ordered : Keyed.Ordered fields) {d : Configuration} :
    ofSettings env (.object fields) = .ok d ↔
      ∀ item : Item, ∃ slot, item.slot? (Keyed.get? fields item.sectionKey) = some slot ∧ item.Loads env slot d := by
  constructor
  · intro h item
    obtain ⟨c, hread, hvalid, hexpand⟩ := ofSettings_eq_ok h
    obtain ⟨slot, hslot, hreads⟩ := (ofValue?_iff ordered).mp hread item
    exact ⟨slot, hslot, c, hreads, validate_eq_ok_iff.mp hvalid item, expandPaths_eq_ok_iff.mp hexpand item⟩
  · intro h
    choose slot hslot c hreads hfit hexpands using h
    have hread : ofValue? .ignored (.object fields) = some (assemble c) :=
      (ofValue?_iff ordered).mpr fun item => ⟨slot item, hslot item, (hreads item).congr (agree_assemble c item).symm⟩
    have hvalid : (assemble c).validate = .ok () := validate_eq_ok_iff.mpr fun item => (hfit item).congr (agree_assemble c item).symm
    rw [ofSettings, hread]
    show ((assemble c).validate >>= fun _ => expandPaths env (assemble c)) = _
    rw [hvalid]
    exact expandPaths_eq_ok_iff.mpr fun item => (hexpands item).congr (agree_assemble c item).symm (.refl item d)

end EditorLink.Configuration
