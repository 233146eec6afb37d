import EditorLink.Extension.Dispatch
import EditorLink.Host.KeyPress
import EditorLink.Number.Shortest
import EditorLink.Text.Quoted

/-!
# EditorLink.Extension.Facade -- what extensions can ask of the editor

Every operation either notifies the host and goes on at once, or invokes it and waits for the reply. Operations that register something change
the workspace first and tell the host afterwards, so the host never knows a name that the workspace does not. An operation with a
result takes the rest of the program as a function of that result.
-/

namespace EditorLink.Extension

open Registry

/-- An operation with a result: the program that goes on with it. -/
abbrev Op (α : Type) := (α → Program) → Program

/-- What an operation that asks the host can end with. -/
abbrev Asked (α : Type) := Except Failure α

namespace Facade

/-! ## The host -/

def notify (method : String) (args : List Value) (next : Program) : Program :=
  .notify method args next

def invoke (method : String) (args : List Value) : Op (Asked Value) :=
  .invoke method args id

/-- Invokes the host and reads its result; a result that cannot be read is an invalid response for the given reason. -/
def query {α : Type} (method : String) (args : List Value) (read : Value → Except String α) : Op (Asked α) :=
  fun k => invoke method args fun
    | .error e => k (.error e)
    | .ok v =>
      match read v with
      | .ok a => k (.ok a)
      | .error reason => k (.error (.invalidResponse method reason))

/-- Invokes the host and reads a result that can always be read. -/
def queryAlways {α : Type} (method : String) (args : List Value) (read : Value → α) : Op (Asked α) :=
  query method args fun v => .ok (read v)

def alert (text : String) (next : Program) : Program :=
  notify "alert" [.string text] next

def openPath (path : String) (next : Program) : Program :=
  notify "open" [.string path] next

def loadMenu (path : String) (next : Program) : Program :=
  notify "loadMenu" [.string path] next

def packageDir : Op String :=
  fun k => .look fun w => k w.packageDir

/-- The facade as reports show it, with the directory of user packages. -/
def text (packageDir : String) : String :=
  "Api \x7b package_dir: " ++ Text.quoted packageDir ++ ", .. \x7d"

/-! ## Commands, contexts and settings -/

/-- A command that takes a name that was taken is reported. -/
def replacement (w : Workspace) (name : String) : List Notice :=
  if w.commands.contains name then [.replacedCommand name] else []

/-- Registers commands one by one and then announces all their names, `names` being those registered before these. -/
def registerFrom (names : List String) (next : Program) : List (String × (Input → Program)) → Program
  | [] =>
    .report (.registeringCommands names.length)
      (notify "registerCommands" [.texts names.reverse] next)
  | (name, code) :: rest =>
    .keep code fun id =>
      .access (Workspace.addCommand name id) fun w =>
        .reports (replacement w name) (registerFrom (name :: names) next rest)

def registerCommands (commands : List (String × (Input → Program))) (next : Program) : Program :=
  registerFrom [] next commands

def registerCommand (name : String) (code : Input → Program) (next : Program) : Program :=
  registerCommands [(name, code)] next

def registerContext (name : String) (code : Input → Program) (next : Program) : Program :=
  .keep code fun id =>
    .change (Workspace.addContext name id)
      (notify "registerContext" [.string name] next)

def unregisterContext (name : String) (next : Program) : Program :=
  .change (Workspace.dropContext name)
    (notify "unregisterContext" [.string name] next)

/-- Settings are declared here only; the host is not told. -/
def registerSetting (name : String) (s : Setting) (next : Program) : Program :=
  .change (Workspace.addSetting name s) next

/-! ## Listeners -/

/-- Registers the listener that a key names. A key that is new names a new listener with this code. -/
def on (type key : String) (code : Input → Program) (next : Program) : Program :=
  .look fun w =>
    match w.listenerKeys.get? key with
    | some id => .change (Workspace.addListener type id) next
    | none =>
      .keep code fun id =>
        .change (fun w => { w with listenerKeys := w.listenerKeys.insert key id })
          (.change (Workspace.addListener type id) next)

/-- Removes the first registration of the listener that a key names, and says whether there was one. -/
def removeListener (type key : String) : Op Bool :=
  fun k => .look fun w =>
    match w.listenerKeys.get? key with
    | some id => .access (Workspace.dropListener type id) fun w => k (w.listeners.has type id)
    | none => k false

/-! ## The editor as a whole -/

def dispatchCommand (key : Host.KeyPress) (next : Program) : Program :=
  notify "dispatchCommand" key.toArgs next

/-- Sets the font; what is not given is the host's default. -/
def setFont (family : Option String) (size : Option UInt32) (next : Program) : Program :=
  notify "setFont" [.string (family.getD ""), .nat (size.getD 0).toUInt64] next

/-! ## Entities -/

/-- The handle in a host's result; null names nothing. -/
def handleOf : Value → Except String (Option UInt64)
  | .null => .ok none
  | v =>
    match v.natural? with
    | some handle => .ok (some handle)
    | none => .error ("expected an entity handle, got " ++ Json.print v)

/-- Notes the entities that the host has named and goes on. -/
def known (entities : List Entity) (next : Program) : Program :=
  .change (fun w => entities.foldl (fun w e => w.addEntity e) w) next

/-- Asks the host for an entity, and notes it. -/
def entityQuery (kind : EntityKind) (method : String) (args : List Value) : Op (Asked (Option Entity)) :=
  fun k => query method args handleOf fun
    | .error e => k (.error e)
    | .ok none => k (.ok none)
    | .ok (some handle) => known [⟨kind, handle⟩] (k (.ok (some ⟨kind, handle⟩)))

def activeView : Op (Asked (Option Entity)) := entityQuery .textEditView "activeView" []

def activeTabView : Op (Asked (Option Entity)) := entityQuery .tabView "activeTabView" []

def activeTabViewGroup : Op (Asked (Option Entity)) := entityQuery .tabViewGroup "activeTabViewGroup" []

def activeWindow : Op (Asked (Option Entity)) := entityQuery .window "activeWindow" []

/-- The handles in a list, null ones left out; anything but a list holds none. -/
def handlesOf : Value → Except String (List UInt64)
  | .array items => (items.mapM handleOf).map fun handles => handles.filterMap id
  | _ => .ok []

def windows : Op (Asked (List Entity)) :=
  fun k => query "windows" [] handlesOf fun
    | .error e => k (.error e)
    | .ok handles =>
      let entities := handles.map fun h => (⟨.window, h⟩ : Entity)
      known entities (k (.ok entities))

/-- The entity of a kind and a handle, if the host has named it in this session. -/
def entity? (kind : EntityKind) (handle : UInt64) : Op (Option Entity) :=
  fun k => .look fun w => k (w.entities.find? (· = ⟨kind, handle⟩))

/-- Tells the host to do something with an entity. -/
def tell (e : Entity) (action : String) (args : List Value) (next : Program) : Program :=
  notify (e.kind.name ++ "." ++ action) (.nat e.handle :: args) next

/-- A text result; null is no text, and anything else is written as JSON. -/
def textOf : Value → String
  | .string s => s
  | .null => ""
  | v => Json.print v

/-- Asks the host for a text about an entity. -/
def askText (e : Entity) (what : String) : Op (Asked String) :=
  queryAlways (e.kind.name ++ "." ++ what) [.nat e.handle] textOf

/-- A float with a point and without an exponent. -/
def plainFloat (x : Double) : String :=
  let d := x.shortest
  let all := Nat.toDigits 10 d.digits
  let body := if x.isZero then ['0', '.', '0']
    else Double.positional (Double.trimZeros all) (d.exponent + all.length - 1)
  String.ofList (if x.isNegative then '-' :: body else body)

/-- A count in a host's result, or what is there instead. -/
def countOf : Value → Except String UInt64
  | .null => .error "invalid type: null, expected u64"
  | .bool b => .error ("invalid type: boolean \x60" ++ toString b ++ "\x60, expected u64")
  | .number (.natural n) => .ok n
  | .number (.negative k) =>
    .error ("invalid value: integer \x60-" ++ toString (k.val + 1) ++ "\x60, expected u64")
  | .number (.float x) => .error ("invalid type: floating point \x60" ++ plainFloat x ++ "\x60, expected u64")
  | .string s => .error ("invalid type: string " ++ Text.quoted s ++ ", expected u64")
  | .array _ => .error "invalid type: sequence, expected u64"
  | .object _ => .error "invalid type: map, expected u64"

/-- How many tabs a tab view has. -/
def tabCount (e : Entity) : Op (Asked UInt64) :=
  query "TabView.count" [.nat e.handle] countOf

def statusBar (e : Entity) : Op (Asked (Option Entity)) :=
  entityQuery .statusBar "Window.statusBar" [.nat e.handle]

/-! ## Dialogs -/

/-- Paths in a host's result: a list of them, a single one, or none. -/
def pathsOf : Value → List String
  | .array items => items.filterMap Value.text?
  | .string path => [path]
  | _ => []

def pathDialog (method standard : String) (caption : Option String) : Op (Asked (List String)) :=
  queryAlways method [.string (caption.getD standard)] pathsOf

def showFileAndDirectoryDialog := pathDialog "showFileAndDirectoryDialog" "Open"

def showFilesDialog := pathDialog "showFilesDialog" "Open Files"

def showDirectoryDialog := pathDialog "showDirectoryDialog" "Open Directory"

structure Font where
  family : String
  size : UInt32
  deriving DecidableEq, Repr

/-- A size in a host's result: rounded, and zero when it is none. -/
def sizeOf : Value → UInt32
  | .number (.natural n) => if n.toNat < 0x1_0000_0000 then n.toUInt32 else 0
  | .number n =>
    let size := n.toDouble.roundAway
    if 0 ≤ size ∧ size < 0x1_0000_0000 then UInt32.ofNat size.toNat else 0
  | _ => 0

/-- The font in a host's result; anything but a list is a cancelled dialog. -/
def fontOf : Value → Option Font
  | .array params =>
    some { family := (params[0]?.bind Value.text?).getD "", size := (params[1]?.map sizeOf).getD 0 }
  | _ => none

def showFontDialog : Op (Asked (Option Font)) :=
  queryAlways "showFontDialog" [] fontOf

/-- Font records, as settings and messages hold them. -/
def Font.ofValue? (v : Value) : Option Font := do
  match ← Record.slots? [["family"], ["size"]] v with
  | [family, size] =>
    let family ← Record.required? Value.text? family
    let size ← Record.required? Value.natural? size
    if size.toNat < 0x1_0000_0000 then pure ⟨family, size.toUInt32⟩ else none
  | _ => none

/-- Shows a text prompt and waits for it to close. Its code for text changes is registered exactly while it is shown. -/
def showDialog (title label initial : String) (callback : Option CodeId) : Op (Asked (Option String)) :=
  fun k => .access (Workspace.openDialog callback) fun w =>
    let dialog := w.dialogs.fresh
    .invoke "showInputDialog" [.nat dialog, .string title, .string label, .string initial]
      (Workspace.closeDialog dialog) fun answer =>
        .ensure (Workspace.closeDialog dialog) (k (answer.map Value.text?))

def inputDialog (title label initial : String) (onText : Option (Input → Program)) : Op (Asked (Option String)) :=
  fun k =>
    match onText with
    | some code => .keep code fun id => showDialog title label initial (some id) k
    | none => showDialog title label initial none k

/-! ## Settings as the host has them -/

/-- The host's value of a declared setting, coerced to its type. A setting that is not declared reads as null, and the host is
not asked. -/
def setting (name : String) : Op (Asked Value) :=
  fun k => .look fun w =>
    match w.settings.get? name with
    | none => .report (.undeclaredSetting name) (k (.ok .null))
    | some s => queryAlways "getConfig" [.string name] (fun raw => s.coerce (some raw)) k

/-- A setting as one particular type; `none` when its value is of another. -/
def settingAs {α : Type} (read : Value → Option α) (name : String) : Op (Asked (Option α)) :=
  fun k => setting name fun answer => k (answer.map read)

def settingBool := settingAs Value.flag?

def settingInt := settingAs Value.integer?

def settingFloat := settingAs Value.double?

def settingText := settingAs Value.text?

/-! ## The registries themselves -/

/-- Drops a command without telling the host; the result says whether there was one. -/
def forgetCommand (name : String) : Op Bool :=
  fun k => .access (Workspace.dropCommand name) fun w => k (w.commands.contains name)

/-- Drops a context without telling the host; the result says whether there was one. -/
def forgetContext (name : String) : Op Bool :=
  fun k => .access (Workspace.dropContext name) fun w => k (w.contexts.contains name)

/-- Something about the workspace as it is. -/
def inspect {α : Type} (f : Workspace → α) : Op α :=
  fun k => .look fun w => k (f w)

/-- Whether a listener matches a new event of these fields, and the fields afterwards. -/
def filterEvent (type : String) (fields : Fields) : Op (Bool × Fields) :=
  fun k => .newEvent fields fun event =>
    .any type event fun isMatch => .look fun w => k (isMatch, w.eventFields event)

/-- Shows a new event of these fields to all listeners; the result is the fields afterwards. -/
def emitEvent (type : String) (fields : Fields) : Op Fields :=
  fun k => .newEvent fields fun event =>
    .emit type event (.look fun w => k (w.eventFields event))

/-- A raw value as a declared setting has it; `none` when the setting is not declared. -/
def coerceSetting (name : String) (raw : Option Value) : Op (Option Value) :=
  inspect fun w => (w.settings.get? name).map fun s => s.coerce raw

end Facade
end EditorLink.Extension
