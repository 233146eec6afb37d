import Mathlib
import EditorLink.Proofs.Configuration.Combination
import EditorLink.Proofs.Text.Bytes

/-!
# EditorLink.Proofs.Configuration.Precedence -- variables over files

A configuration comes from files and from variables. If each of the two loads without the other, then both together load and every
setting has the value that it should have, unless files and variables spell a setting of two words differently.
-/

namespace EditorLink.Configuration

open Files Variables

/-! ## Loading -/

/-- The configuration in one file, or in the files that are found. -/
def load (files : Tree) (env : Environment) : Option String → Except ConfigError Configuration
  | some path => loadFile files env path
  | none => loadFound files env

/-- What is in one file, or in the files that are found. -/
def settingsIn (files : Tree) : Option String → Except ConfigError Value
  | none => readFound files fileNames (.object [])
  | some path =>
    if !files.isFile path then .error (.parse (.notFound path))
    else
      match (Path.extension? path).bind FileFormat.ofExtension? with
      | none => .error (.parse .unsupported)
      | some format => readFile files format path

theorem load_eq (files : Tree) (env : Environment) (path : Option String) :
    load files env path = settingsIn files path >>= complete env := by
  cases path with
  | none => rfl
  | some path =>
    rw [load, loadFile, settingsIn]
    split
    · rfl
    · cases (Path.extension? path).bind FileFormat.ofExtension? <;> rfl

theorem settings_settingsIn {files : Tree} {path : Option String} {v : Value} (h : settingsIn files path = .ok v) : Settings v := by
  cases path with
  | none => exact settings_readFound settings_nothing h
  | some path =>
    rw [settingsIn] at h
    split at h
    · cases h
    · split at h
      · cases h
      · exact settings_readFile h

/-- The name of a variable marks it as a setting. -/
def isSetting (name : String) : Bool :=
  (Text.dropLead? lead (lowered name)).isSome

/-- The variables without settings. -/
def withoutSettings (env : Environment) : Environment :=
  env.filter fun v => !isSetting v.1

theorem settings_withoutSettings (env : Environment) : settings (withoutSettings env) = .object [] := by
  refine List.foldlRecOn (motive := (· = .object [])) (withoutSettings env) put rfl fun v hv entry hentry => ?_
  obtain ⟨-, hmark⟩ := List.mem_filter.mp hentry
  have hnone : path? entry.1 = none := by
    rw [isSetting, Bool.not_eq_true', Option.isSome_eq_false_iff, Option.isNone_iff_eq_none] at hmark
    rw [path?, hmark]
  rw [put, hnone]
  exact hv

theorem extends_withoutSettings (env : Environment) : Extends env (withoutSettings env) := by
  intro name value h
  rw [withoutSettings, Keyed.get?_filter env (fun name => !isSetting name)] at h
  split at h
  · exact h
  · cases h

/-! ## Expansion under more variables -/

/-- A setting that loads under some variables loads under more of them, as the same value if it is no path. -/
theorem Item.Loads.extends {env env' : Environment} (more : Extends env env') {item : Item} {slot : Option Value} {d : Configuration}
    (h : item.Loads env' slot d) : ∃ d', item.Loads env slot d' ∧ (item ≠ .roots → item ≠ .packageDir → item.Agree d' d) := by
  obtain ⟨c, hreads, hfit, hexpands⟩ := h
  cases item with
  | roots =>
    obtain ⟨roots, hroots⟩ := mapM_of_ok fun path hpath => expand_of_extends more (ok_of_mapM hexpands path hpath)
    exact ⟨{ c with packages := { c.packages with roots } }, ⟨c, hreads, hfit, hroots⟩, fun h => absurd rfl h⟩
  | packageDir =>
    have hdir : ∃ dir, c.packages.packageDir.mapM (expand env) = .ok dir := by
      have hsmall : c.packages.packageDir.mapM (expand env') = .ok d.packages.packageDir := hexpands
      cases hgiven : c.packages.packageDir with
      | none => exact ⟨none, rfl⟩
      | some path =>
        rw [hgiven] at hsmall
        cases hpath : expand env' path with
        | error e =>
          rw [show Option.mapM (expand env') (some path) = (expand env' path).map some from rfl, hpath] at hsmall
          cases hsmall
        | ok text =>
          obtain ⟨text', htext⟩ := expand_of_extends more ⟨text, hpath⟩
          exact ⟨some text', by rw [show Option.mapM (expand env) (some path) = (expand env path).map some from rfl, htext]; rfl⟩
    obtain ⟨dir, hdir⟩ := hdir
    exact ⟨{ c with packages := { c.packages with packageDir := dir } }, ⟨c, hreads, hfit, hdir⟩, fun _ h => absurd rfl h⟩
  | _ => exact ⟨d, ⟨c, hreads, hfit, hexpands⟩, fun _ _ => .refl _ d⟩

/-- The paths in a configuration. -/
def paths (c : Configuration) : List String :=
  c.packages.roots ++ c.packages.packageDir.toList

/-- References to no setting mean the same without the settings. -/
theorem expandPaths_withoutSettings {env : Environment} {c : Configuration}
    (plain : ∀ path ∈ c.paths, ∀ r ∈ Reference.find path.toList, isSetting r.name = false) :
    expandPaths (withoutSettings env) c = expandPaths env c := by
  have hsame : ∀ path ∈ c.paths, expand (withoutSettings env) path = expand env path := by
    intro path hpath
    refine expand_congr fun r hr => ?_
    rw [Reference.value?, Reference.value?, withoutSettings, Keyed.get?_filter env (fun name => !isSetting name),
      plain path hpath r hr]
    rfl
  have hroots : c.packages.roots.mapM (expand (withoutSettings env)) = c.packages.roots.mapM (expand env) :=
    mapM_congr fun path hpath => hsame path (List.mem_append_left _ hpath)
  have hdir : c.packages.packageDir.mapM (expand (withoutSettings env)) = c.packages.packageDir.mapM (expand env) := by
    cases hgiven : c.packages.packageDir with
    | none => rfl
    | some path =>
      have hpath : path ∈ c.paths := List.mem_append_right _ (by simp [hgiven])
      exact congrArg (Except.map some) (hsame path hpath)
  rw [expandPaths, expandPaths, hroots, hdir]

/-! ## Precedence -/

def givenTwice : ConfigError :=
  .parse (.content "a setting has the wrong type or is given twice")

theorem complete_object {env : Environment} {later : Fields} (h : settings env = .object later) (base : Fields) :
    complete env (.object base) = ofSettings env (.object (overlayFields base later)) := by
  rw [complete_eq, h, overlay_objects]

/-- Without variables for settings, files load as they are. -/
theorem complete_withoutSettings (env : Environment) (base : Fields) :
    complete (withoutSettings env) (.object base) = ofSettings (withoutSettings env) (.object base) := by
  rw [complete_object (settings_withoutSettings env), overlayFields]

/-- Nothing is loaded when files and variables spell a setting differently. -/
theorem complete_of_clash {env : Environment} {v : Value} (hv : Settings v) {item : Item} (clash : Clash v (settings env) item) :
    complete env v = .error givenTwice := by
  obtain ⟨base, rfl, hbase⟩ := hv
  obtain ⟨later, hlater, hsolid⟩ := solid_settings env
  rw [complete_object hlater]
  rw [hlater] at clash
  have hordered := ordered_overlayFields (Value.wellFormed_object_iff.mp hbase).1 later
  have hnone : ofValue? .ignored (.object (overlayFields base later)) = none := by
    rw [← Option.not_isSome_iff_eq_none]
    intro hsome
    obtain ⟨c, hc⟩ := Option.isSome_iff_exists.mp hsome
    obtain ⟨slot, hslot, -⟩ := (ofValue?_iff hordered).mp hc item
    cases (slot?_overlay_of_clash hbase hsolid clash).symm.trans hslot
  rw [ofSettings, hnone]
  rfl

section Precedence

variable {env : Environment} {base later : Fields} {cf cv : Configuration}

/-- What loads setting by setting loads as a whole, with what is true of each setting. -/
theorem ofSettings_of_items {fields : Fields} (ordered : Keyed.Ordered fields) {P : Item → Configuration → Prop}
    (respects : ∀ item c d, item.Agree c d → P item d → P item c)
    (h : ∀ item : Item, ∃ slot d, item.slot? (Keyed.get? fields item.sectionKey) = some slot ∧ item.Loads env slot d ∧ P item d) :
    ∃ c, ofSettings env (.object fields) = .ok c ∧ ∀ item, P item c := by
  choose slot d hslot hd hP using h
  refine ⟨assemble d, (ofSettings_eq_ok_iff ordered).mpr fun item => ⟨slot item, hslot item, ?_⟩,
    fun item => respects item _ _ (agree_assemble d item) (hP item)⟩
  obtain ⟨c, hreads, hfit, hexpands⟩ := hd item
  exact ⟨c, hreads, hfit, hexpands.congr (.refl item c) (agree_assemble d item).symm⟩

/-- What loads under some variables loads under more of them, with the same settings but for paths. -/
theorem ofSettings_of_extends {env' : Environment} (more : Extends env env') (ordered : Keyed.Ordered base)
    (h : ofSettings env' (.object base) = .ok cf) :
    ∃ c, ofSettings env (.object base) = .ok c ∧ ∀ item : Item, item ≠ .roots → item ≠ .packageDir → item.Agree c cf := by
  refine ofSettings_of_items ordered (fun item c d hagree hd hroots hdir => hagree.trans (hd hroots hdir)) fun item => ?_
  obtain ⟨slot, hslot, hloads⟩ := (ofSettings_eq_ok_iff ordered).mp h item
  obtain ⟨d, hd, hsame⟩ := hloads.extends more
  exact ⟨slot, d, hslot, hd, hsame⟩

/-- Without files, variables load as settings of their own. -/
theorem ofSettings_of_complete_nothing (hlater : settings env = .object later) (hsolid : (Value.object later).Solid)
    (h : complete env (.object []) = .ok cv) : ofSettings env (.object later) = .ok cv := by
  have hordered := ((Value.solid_object_iff later).mp hsolid).1
  have hget : ∀ key, Keyed.get? (overlayFields [] later) key = Keyed.get? later key := by
    intro key
    rw [get?_overlayFields [] hordered]
    cases Keyed.get? later key <;> rfl
  rw [complete_object hlater] at h
  refine (ofSettings_eq_ok_iff hordered).mpr fun item => ?_
  rw [← hget]
  exact (ofSettings_eq_ok_iff (ordered_overlayFields List.Pairwise.nil later)).mp h item

/-- A variable named after a setting gives it, if variables that name its whole section have objects for values. -/
theorem gives_of_variable (hlater : settings env = .object later) (hsolid : (Value.object later).Solid)
    (hloads : ofSettings env (.object later) = .ok cv) {item : Item} {entry : String × String} (hentry : entry ∈ env) {key : String}
    (hkey : key ∈ item.names) (hpath : path? entry.1 = some [item.sectionKey, key])
    (hobjects : ∀ other ∈ env, path? other.1 = some [item.sectionKey] → ∃ fields, valueOf other.2 = .object fields) :
    Gives (settings env) item := by
  obtain ⟨fields, hsection, hfield⟩ := hasField_settings hentry hpath hobjects
  obtain ⟨slot, hslot, -⟩ := (ofSettings_eq_ok_iff ((Value.solid_object_iff later).mp hsolid).1).mp hloads item
  have hget : (settings env).get? item.sectionKey = Keyed.get? later item.sectionKey :=
    congrArg (fun v : Value => v.get? item.sectionKey) hlater
  rw [← hget] at hslot
  cases slot with
  | some w => exact ⟨w, hslot⟩
  | none =>
    rw [hsection] at hslot
    rw [Record.slot?_eq_none_iff.mp hslot key hkey] at hfield
    cases hfield

/-- A configuration has for a setting what the later settings give; failing these, what the earlier ones give; and failing both, the
default. -/
structure Prefers (base later : Value) (cf cv c : Configuration) (item : Item) : Prop where
  given : Gives later item → item.Agree c cv
  kept : ¬ Gives later item → Gives base item → ¬ Replaced base later item → item.Agree c cf
  missing : ¬ Gives later item → ¬ Gives base item ∨ Replaced base later item → item.Agree c {}

/-- **Settings that both load, load together.** -/
theorem ofSettings_overlay (hbase : (Value.object base).WellFormed) (hlater : (Value.object later).Solid)
    (hfile : ofSettings env (.object base) = .ok cf) (hvars : ofSettings env (.object later) = .ok cv)
    (agree : ∀ item, ¬ Clash (.object base) (.object later) item) :
    ∃ c, ofSettings env (.object (overlayFields base later)) = .ok c ∧ ∀ item, Prefers (.object base) (.object later) cf cv c item := by
  have hordered := (Value.wellFormed_object_iff.mp hbase).1
  refine ofSettings_of_items (ordered_overlayFields hordered later) (fun item c d hagree hd => ?_) fun item => ?_
  · exact ⟨fun h => hagree.trans (hd.given h), fun h h' h'' => hagree.trans (hd.kept h h' h''), fun h h' => hagree.trans (hd.missing h h')⟩
  · obtain ⟨a, ha, hloadsFile⟩ := (ofSettings_eq_ok_iff hordered).mp hfile item
    obtain ⟨b, hb, hloadsVars⟩ := (ofSettings_eq_ok_iff ((Value.solid_object_iff later).mp hlater).1).mp hvars item
    have hread := hloadsVars
    obtain ⟨raw, hreads, -⟩ := hread
    obtain ⟨slot, hslot, hgiven, hreplaced, hkept⟩ := slot?_overlay hbase hlater ha hb hreads (agree item)
    by_cases hgives : Gives (.object later) item
    · refine ⟨slot, cv, hslot, hgiven hgives ▸ hloadsVars, fun _ => .refl item cv, fun h => absurd hgives h, fun h => absurd hgives h⟩
    · by_cases hfiles : Gives (.object base) item ∧ ¬ Replaced (.object base) (.object later) item
      · refine ⟨slot, cf, hslot, hkept hgives hfiles.2 ▸ hloadsFile, fun h => absurd h hgives, fun _ _ _ => .refl item cf, fun _ h => ?_⟩
        exact absurd h (not_or.mpr ⟨not_not.mpr hfiles.1, hfiles.2⟩)
      · -- nothing is left of what either side gives
        have hnone : slot = none := by
          by_cases hwhole : Replaced (.object base) (.object later) item
          · exact hreplaced hgives hwhole
          · cases a with
            | none => exact hkept hgives hwhole
            | some v => exact absurd ⟨⟨v, ha⟩, hwhole⟩ hfiles
        have hdefault : item.Loads env none {} := ⟨{}, item.reads_default, item.fit_default, item.expands_default env⟩
        refine ⟨slot, {}, hslot, hnone ▸ hdefault, fun h => absurd h hgives, fun _ h h' => absurd ⟨h, h'⟩ hfiles, fun _ _ => .refl item {}⟩

end Precedence

/-- **Variables take precedence over files**, if no setting is spelled differently by both. Say that files load without the variables that give
settings, and that these load without files. Then both together load, and each setting has the value of the variables if these give it,
else that of the files, else the default. Paths that files give are expanded with all variables in place, which makes a difference
only to references to variables that give settings. A setting of two words that files and variables spell differently makes loading
fail, whatever its values are. The settings that variables give are those to which a variable's name leads. -/
theorem variables_take_precedence_unless_spelled_differently (files : Tree) (env : Environment) (path : Option String) {cf cv : Configuration}
    (hfile : load files (withoutSettings env) path = .ok cf) (hvars : complete env (.object []) = .ok cv) :
    let vars := settings env
    ∃ v c₀, settingsIn files path = .ok v ∧ ofSettings env v = .ok c₀ ∧
      ((∃ item, Clash v vars item) → load files env path = .error givenTwice) ∧
      ((∀ item, ¬ Clash v vars item) → ∃ c, load files env path = .ok c ∧ ∀ item, Prefers v vars c₀ cv c item) ∧
      (∀ item : Item, item ≠ .roots → item ≠ .packageDir → item.Agree c₀ cf) ∧
      ((∀ raw, ofValue? .ignored v = some raw → ∀ p ∈ raw.paths, ∀ r ∈ Reference.find p.toList, isSetting r.name = false) → c₀ = cf) ∧
      (∀ item, Gives vars item → ∃ entry ∈ env, ∃ path, path? entry.1 = some path ∧ LeadsTo path item) ∧
      ∀ item : Item, ∀ entry ∈ env, ∀ key ∈ item.names, path? entry.1 = some [item.sectionKey, key] →
        (∀ other ∈ env, path? other.1 = some [item.sectionKey] → ∃ fields, valueOf other.2 = .object fields) → Gives vars item := by
  intro vars
  obtain ⟨later, hlater, hsolid⟩ := solid_settings env
  have hload : ∀ env, load files env path = settingsIn files path >>= complete env := fun env => load_eq files env path
  rw [hload] at hfile
  cases hsettings : settingsIn files path with
  | error e =>
    rw [hsettings] at hfile
    cases hfile
  | ok v =>
    obtain ⟨base, rfl, hbase⟩ := settings_settingsIn hsettings
    have hordered := (Value.wellFormed_object_iff.mp hbase).1
    -- each side on its own, as settings without anything put over them
    have hfile' : ofSettings (withoutSettings env) (.object base) = .ok cf := by
      rw [hsettings] at hfile
      exact (complete_withoutSettings env base).symm.trans hfile
    have hvars' : ofSettings env (.object later) = .ok cv := ofSettings_of_complete_nothing hlater hsolid hvars
    obtain ⟨c₀, hc₀, hsame⟩ := ofSettings_of_extends (extends_withoutSettings env) hordered hfile'
    refine ⟨.object base, c₀, rfl, hc₀, ?_, ?_, hsame, ?_, fun item => named_of_gives, ?_⟩
    · rintro ⟨item, hclash⟩
      rw [hload, hsettings]
      exact complete_of_clash ⟨base, rfl, hbase⟩ hclash
    · intro hagree
      have hvars : vars = .object later := hlater
      rw [hvars] at hagree ⊢
      rw [hload, hsettings]
      show ∃ c, complete env (.object base) = .ok c ∧ _
      rw [complete_object hlater]
      exact ofSettings_overlay hbase hsolid hc₀ hvars' hagree
    · intro hplain
      obtain ⟨raw, hread, -, hexpand⟩ := ofSettings_eq_ok hc₀
      obtain ⟨raw', hread', -, hexpand'⟩ := ofSettings_eq_ok hfile'
      obtain rfl : raw = raw' := Option.some.inj (hread.symm.trans hread')
      rw [expandPaths_withoutSettings (hplain raw hread), hexpand] at hexpand'
      exact Except.ok.inj hexpand'
    · exact fun item entry hentry key hkey hpath hobjects => gives_of_variable hlater hsolid hvars' hentry hkey hpath hobjects

/-- A file that gives a format and a limit. -/
def settingsText : String := "\x7b\"wire\": \x7b\"format\": \"json\", \"maxFrameBytes\": 2048\x7d\x7d"

def settingsFile : Tree where
  nodes := [(["c.json"], .file (Bytes.ofText settingsText))]

def fileSettings : Value :=
  .object [("wire", .object [("format", .string "json"), ("maxFrameBytes", .nat 2048)])]

theorem settingsIn_settingsFile : settingsIn settingsFile (some "c.json") = .ok fileSettings := by
  have hparts : Path.resolve settingsFile.cwd "c.json" = ["c.json"] := by cbv
  have hopen : Path.endsInSlash "c.json" = false := by cbv
  have hthere : settingsFile.at? ["c.json"] = some (.file (Bytes.ofText settingsText)) := rfl
  have habove : (Tree.ancestors ["c.json"]).any settingsFile.isFileAt = false := rfl
  have hfind : settingsFile.find "c.json" = .ok (.file (Bytes.ofText settingsText)) := by
    rw [Tree.find, if_neg (by decide)]
    simp only [hparts, habove, hthere, hopen, Bool.false_eq_true, if_false]
  have hread : settingsFile.read? "c.json" = some (Bytes.ofText settingsText) := by rw [Tree.read?, hfind]
  have hfile : settingsFile.isFile "c.json" = true := by
    rw [Tree.isFile, hread]
    rfl
  have hformat : (Path.extension? "c.json").bind FileFormat.ofExtension? = some .json := by cbv
  have hjson : FileFormat.json.read? settingsText = some [("wire", .object [("format", .string "json"), ("maxFrameBytes", .nat 2048)])] := by cbv
  rw [settingsIn, hfile]
  simp only [hformat, Bool.not_true, Bool.false_eq_true, if_false]
  rw [readFile, hread, Option.bind_some, Bytes.text?_ofText, Option.bind_some, hjson]
  rfl

theorem load_settingsFile (env : Environment) : load settingsFile env (some "c.json") = complete env fileSettings := by
  rw [load_eq, settingsIn_settingsFile]
  rfl

/-- A variable for the format goes over the file, whose limit stays. A variable for the limit does not get along with it, because the path
in its name is in lower case and the file spells the limit with a capital letter. -/
theorem limit_in_file_and_variable_is_given_twice :
    (∃ c, load settingsFile [("EXT_BRIDGE_WIRE__FORMAT", "msgpack")] (some "c.json") = .ok c ∧
      c.wire.format = .msgpack ∧ c.wire.maxFrameBytes = 2048) ∧
    (∃ cf cv, load settingsFile [] (some "c.json") = .ok cf ∧ cf.wire.maxFrameBytes = 2048 ∧
      complete [("EXT_BRIDGE_WIRE__MAX_FRAME_BYTES", "4096")] (.object []) = .ok cv ∧ cv.wire.maxFrameBytes = 4096) ∧
    load settingsFile [("EXT_BRIDGE_WIRE__MAX_FRAME_BYTES", "4096")] (some "c.json") = .error givenTwice := by
  have hformat : settings [("EXT_BRIDGE_WIRE__FORMAT", "msgpack")] = .object [("wire", .object [("format", .string "msgpack")])] := by cbv
  have hlimit : settings [("EXT_BRIDGE_WIRE__MAX_FRAME_BYTES", "4096")] =
      .object [("wire", .object [("max_frame_bytes", .nat 4096)])] := by cbv
  have hfile : load settingsFile [] (some "c.json") = .ok { wire := { format := .json, maxFrameBytes := 2048 } } := by
    rw [load_settingsFile]
    cbv
  have hformatAlone : complete [("EXT_BRIDGE_WIRE__FORMAT", "msgpack")] (.object []) = .ok { wire := { format := .msgpack } } := by
    rw [complete_eq, hformat]
    cbv
  have hlimitAlone : complete [("EXT_BRIDGE_WIRE__MAX_FRAME_BYTES", "4096")] (.object []) = .ok { wire := { maxFrameBytes := 4096 } } := by
    rw [complete_eq, hlimit]
    cbv
  have hnoFormat : withoutSettings [("EXT_BRIDGE_WIRE__FORMAT", "msgpack")] = [] := by cbv
  have hnoLimit : withoutSettings [("EXT_BRIDGE_WIRE__MAX_FRAME_BYTES", "4096")] = [] := by cbv
  refine ⟨?_, ⟨_, _, hfile, rfl, hlimitAlone, rfl⟩, ?_⟩
  · obtain ⟨v, c₀, hv, -, -, hagree, hsame, -⟩ := variables_take_precedence_unless_spelled_differently settingsFile
      [("EXT_BRIDGE_WIRE__FORMAT", "msgpack")] (some "c.json") (by rw [hnoFormat]; exact hfile) hformatAlone
    obtain rfl : fileSettings = v := Except.ok.inj (settingsIn_settingsFile.symm.trans hv)
    have hclash : ∀ item, ¬ Clash fileSettings (settings [("EXT_BRIDGE_WIRE__FORMAT", "msgpack")]) item := by
      rw [hformat]
      intro item
      cases item <;> decide
    obtain ⟨c, hload, hprefers⟩ := hagree hclash
    rw [hformat] at hprefers
    refine ⟨c, hload, (hprefers .format).given ⟨.string "msgpack", rfl⟩, ?_⟩
    have hkept := (hprefers .maxFrameBytes).kept (by rintro ⟨w, hw⟩; cases hw) ⟨.nat 2048, rfl⟩ ?_
    · exact Eq.trans hkept (hsame .maxFrameBytes (by decide) (by decide))
    · rintro ⟨b, w, hb, hw, items, hb' | hw'⟩
      · cases hb'
        cases hb
      · cases hw'
        cases hw
  · obtain ⟨v, c₀, hv, -, hclashes, -⟩ := variables_take_precedence_unless_spelled_differently settingsFile
      [("EXT_BRIDGE_WIRE__MAX_FRAME_BYTES", "4096")] (some "c.json") (by rw [hnoLimit]; exact hfile) hlimitAlone
    obtain rfl : fileSettings = v := Except.ok.inj (settingsIn_settingsFile.symm.trans hv)
    refine hclashes ⟨.maxFrameBytes, "maxFrameBytes", by simp [Item.names], "max_frame_bytes", by simp [Item.names], by decide, rfl, ?_⟩
    rw [hlimit]
    rfl

end EditorLink.Configuration
