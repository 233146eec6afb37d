import EditorLink.Proofs.Extension.Loading
import EditorLink.Proofs.Extension.Rules

/-!
# EditorLink.Proofs.Extension.Candor -- code that owes the host nothing

Commands and contexts are registered in two places, in the workspace and at the host. Each facade operation changes the workspace first and
tells the host afterwards. In between the program has a **debt**: what it has registered and not told yet. Code that registers only by
the facade's operations is **candid**: it pays every debt before it waits, ends or calls code (`Owes`), and owes nothing between
two operations (`Candid.debt`). The loader is candid if the extensions are.
-/

namespace EditorLink

/-- The method and the arguments of a notification. -/
def Message.notification? : Message → Option (String × List Value)
  | notify method args => some (method, args)
  | _ => none

namespace Extension

open Registry

/-! ## What the host knows -/

/-- The names that the host knows. -/
structure HostView where
  commands : Finset String := ∅
  contexts : Finset String := ∅

/-- The names in the arguments of a registration: a list of them, or one. -/
def namesIn : List Value → List String
  | [.array items] => items.filterMap Value.text?
  | [.string name] => [name]
  | _ => []

@[simp] theorem namesIn_texts (names : List String) : namesIn [.texts names] = names := by
  simp [namesIn, Value.texts, List.filterMap_map, Function.comp_def, Value.text?]

@[simp] theorem namesIn_string (name : String) : namesIn [.string name] = [name] := rfl

/-- The methods that tell of registrations. -/
def registrationMethods : List String :=
  ["registerCommands", "registerContext", "unregisterContext"]

namespace HostView

/-- What the host knows after a notification. -/
def learn (v : HostView) (method : String) (args : List Value) : HostView :=
  if method = "registerCommands" then { v with commands := v.commands ∪ (namesIn args).toFinset }
  else if method = "registerContext" then { v with contexts := v.contexts ∪ (namesIn args).toFinset }
  else if method = "unregisterContext" then { v with contexts := v.contexts \ (namesIn args).toFinset }
  else v

/-- What the host knows after one more message. -/
def hear (v : HostView) (m : Message) : HostView :=
  match m.notification? with
  | some (method, args) => v.learn method args
  | none => v

/-- What the host knows after some messages, when it knew nothing before. -/
def after (messages : List Message) : HostView :=
  messages.foldl hear {}

/-- What the host knows after some notifications. -/
def informed (notifications : List (String × List Value)) : HostView :=
  notifications.foldl (fun v n => v.learn n.1 n.2) {}

/-- Only notifications tell the host anything. -/
theorem after_eq_informed (messages : List Message) : after messages = informed (messages.filterMap Message.notification?) := by
  rw [after, informed, List.foldl_filterMap]
  congr 1
  funext v m
  rw [hear]
  cases m.notification? <;> rfl

theorem learn_other {method : String} (other : method ∉ registrationMethods) (v : HostView) (args : List Value) :
    v.learn method args = v := by
  simp only [registrationMethods, List.mem_cons, List.not_mem_nil, or_false, not_or] at other
  rw [learn, if_neg other.1, if_neg other.2.1, if_neg other.2.2]

end HostView

/-- The names that the workspace knows. -/
def registered (w : Workspace) : HostView where
  commands := w.commands.keys.toFinset
  contexts := w.contexts.keys.toFinset

/-- The registries that the host is told of. -/
def registries (w : Workspace) : Keyed CodeId × Keyed CodeId :=
  (w.commands, w.contexts)

theorem registered_congr {w w' : Workspace} (h : registries w' = registries w) : registered w' = registered w := by
  obtain ⟨hcommands, hcontexts⟩ := Prod.mk.inj h
  rw [registered, registered, hcommands, hcontexts]

end Extension

namespace Keyed

variable {α : Type}

theorem keys_insert (list : Keyed α) (key : String) (value : α) :
    (insert key value list).keys.toFinset = Insert.insert key list.keys.toFinset := by
  induction list with
  | nil => simp [insert, keys]
  | cons entry rest ih =>
    obtain ⟨k, v⟩ := entry
    rw [insert]
    split
    · simp [keys]
    · split
      · next hkey => simp [keys, hkey]
      · have hrest : ((insert key value rest).map (·.1)).toFinset = Insert.insert key (rest.map (·.1)).toFinset := ih
        rw [keys, List.map_cons, List.toFinset_cons, hrest, keys, List.map_cons, List.toFinset_cons, Finset.insert_comm]

theorem keys_erase (list : Keyed α) (key : String) : (erase list key).keys.toFinset = list.keys.toFinset.erase key := by
  ext name
  simp only [keys, erase, List.mem_toFinset, Finset.mem_erase, List.mem_map, List.mem_filter, decide_eq_true_eq]
  constructor
  · rintro ⟨entry, ⟨hmem, hkey⟩, rfl⟩
    exact ⟨hkey, entry, hmem, rfl⟩
  · rintro ⟨hkey, entry, hmem, rfl⟩
    exact ⟨entry, ⟨hmem, hkey⟩, rfl⟩

end Keyed

namespace Extension

open Registry Session

/-! ## Debts -/

/-- What a program has registered and not told the host yet. -/
inductive Debt where
  /-- Commands, the latest first. -/
  | commands (names : List String)
  | context (name : String)
  | dropped (name : String)

namespace Debt

/-- Nothing is owed. -/
abbrev clear : Debt := commands []

/-- What the host knows once it is told. -/
def settle (v : HostView) : Debt → HostView
  | commands names => { v with commands := names.toFinset ∪ v.commands }
  | context name => { v with contexts := insert name v.contexts }
  | dropped name => { v with contexts := v.contexts.erase name }

@[simp] theorem settle_clear (v : HostView) : clear.settle v = v := by
  simp [settle]

end Debt

/-- A program has a debt and pays it before it waits, ends or calls code; code that it keeps begins without any. -/
inductive Owes : Debt → Program → Prop
  | finish (e : Ending) : Owes .clear (.finish e)
  | panic (text : String) : Owes .clear (.panic text)
  | record {d : Debt} {entry : Value} {next : Program} (h : Owes d next) : Owes d (.record entry next)
  | report {d : Debt} {notice : Notice} {next : Program} (h : Owes d next) : Owes d (.report notice next)
  | access {d : Debt} {change : Workspace → Workspace} {next : Workspace → Program} (quiet : Leaves registries change)
      (h : ∀ w, Owes d (next w)) : Owes d (.access change next)
  | ensure {d : Debt} {change : Workspace → Workspace} {next : Program} (quiet : Leaves registries change) (h : Owes d next) :
      Owes d (.ensure change next)
  | addCommand {names : List String} {name : String} {id : CodeId} {next : Workspace → Program}
      (h : ∀ w, Owes (.commands (name :: names)) (next w)) : Owes (.commands names) (.access (Workspace.addCommand name id) next)
  | addContext {name : String} {id : CodeId} {next : Workspace → Program} (h : ∀ w, Owes (.context name) (next w)) :
      Owes .clear (.access (Workspace.addContext name id) next)
  | dropContext {name : String} {next : Workspace → Program} (h : ∀ w, Owes (.dropped name) (next w)) :
      Owes .clear (.access (Workspace.dropContext name) next)
  | keep {d : Debt} {code : Input → Program} {next : CodeId → Program} (hcode : ∀ input, Owes .clear (code input))
      (h : ∀ id, Owes d (next id)) : Owes d (.keep code next)
  | run {code : CodeId} {input : Input} {next : Exit → Program} (h : ∀ exit, Owes .clear (next exit)) :
      Owes .clear (.run code input next)
  | notify {d : Debt} {method : String} {args : List Value} {next : Program} (other : method ∉ registrationMethods) (h : Owes d next) :
      Owes d (.notify method args next)
  | tellCommands {names : List String} {next : Program} (h : Owes .clear next) :
      Owes (.commands names) (.notify "registerCommands" [.texts names.reverse] next)
  | tellContext {name : String} {next : Program} (h : Owes .clear next) :
      Owes (.context name) (.notify "registerContext" [.string name] next)
  | tellDropped {name : String} {next : Program} (h : Owes .clear next) :
      Owes (.dropped name) (.notify "unregisterContext" [.string name] next)
  | invoke {method : String} {args : List Value} {release : Workspace → Workspace} {next : CallResult → Program}
      (quiet : Leaves registries release) (h : ∀ result, Owes .clear (next result)) : Owes .clear (.invoke method args release next)
  | await {gate : String} {next : Program} (h : Owes .clear next) : Owes .clear (.await gate next)

namespace Owes

variable {d : Debt}

theorem access_cases {change : Workspace → Workspace} {next : Workspace → Program} (h : Owes d (.access change next)) :
    (Leaves registries change ∧ ∀ w, Owes d (next w)) ∨
    (∃ names name id, d = .commands names ∧ change = Workspace.addCommand name id ∧ ∀ w, Owes (.commands (name :: names)) (next w)) ∨
    (∃ name id, d = .clear ∧ change = Workspace.addContext name id ∧ ∀ w, Owes (.context name) (next w)) ∨
    ∃ name, d = .clear ∧ change = Workspace.dropContext name ∧ ∀ w, Owes (.dropped name) (next w) := by
  cases h with
  | access quiet h => exact Or.inl ⟨quiet, h⟩
  | addCommand h => exact Or.inr (Or.inl ⟨_, _, _, rfl, rfl, h⟩)
  | addContext h => exact Or.inr (Or.inr (Or.inl ⟨_, _, rfl, rfl, h⟩))
  | dropContext h => exact Or.inr (Or.inr (Or.inr ⟨_, rfl, rfl, h⟩))

theorem notify_cases {method : String} {args : List Value} {next : Program} (h : Owes d (.notify method args next)) :
    (method ∉ registrationMethods ∧ Owes d next) ∨
    Owes .clear next ∧
      ((∃ names, d = .commands names ∧ method = "registerCommands" ∧ args = [.texts names.reverse]) ∨
      (∃ name, d = .context name ∧ method = "registerContext" ∧ args = [.string name]) ∨
      ∃ name, d = .dropped name ∧ method = "unregisterContext" ∧ args = [.string name]) := by
  cases h with
  | notify other h => exact Or.inl ⟨other, h⟩
  | tellCommands h => exact Or.inr ⟨h, Or.inl ⟨_, rfl, rfl, rfl⟩⟩
  | tellContext h => exact Or.inr ⟨h, Or.inr (Or.inl ⟨_, rfl, rfl, rfl⟩)⟩
  | tellDropped h => exact Or.inr ⟨h, Or.inr (Or.inr ⟨_, rfl, rfl, rfl⟩)⟩

theorem reports {next : Program} (h : Owes d next) (notices : List Notice) : Owes d (.reports notices next) := by
  induction notices with
  | nil => exact h
  | cons n rest ih => exact .report ih

theorem of_reports {next : Program} {notices : List Notice} (h : Owes d (.reports notices next)) : Owes d next := by
  induction notices with
  | nil => exact h
  | cons n rest ih =>
    cases h with
    | report h => exact ih h

/-- Commands that are registered one by one are owed until they are told together. -/
theorem registerFrom {commands : List (String × (Input → Program))} {next : Program} (hcode : ∀ c ∈ commands, ∀ input, Owes .clear (c.2 input))
    (h : Owes .clear next) (names : List String) : Owes (.commands names) (Facade.registerFrom names next commands) := by
  induction commands generalizing names with
  | nil => exact .report (.tellCommands h)
  | cons c rest ih =>
    have hrest := ih (fun c' hc' => hcode c' (List.mem_cons_of_mem c hc')) (c.1 :: names)
    exact .keep (hcode c List.mem_cons_self) fun id => .addCommand fun w => hrest.reports _

end Owes

/-! ## Candid code -/

/-- Code that registers commands and contexts only by the facade's operations, and tells the host of registrations only so. What else it
does is its own affair. -/
inductive Candid : Program → Prop
  | finish (e : Ending) : Candid (.finish e)
  | panic (text : String) : Candid (.panic text)
  | record {entry : Value} {next : Program} (h : Candid next) : Candid (.record entry next)
  | report {notice : Notice} {next : Program} (h : Candid next) : Candid (.report notice next)
  | access {change : Workspace → Workspace} {next : Workspace → Program} (quiet : Leaves registries change) (h : ∀ w, Candid (next w)) :
      Candid (.access change next)
  | ensure {change : Workspace → Workspace} {next : Program} (quiet : Leaves registries change) (h : Candid next) :
      Candid (.ensure change next)
  | keep {code : Input → Program} {next : CodeId → Program} (hcode : ∀ input, Candid (code input)) (h : ∀ id, Candid (next id)) :
      Candid (.keep code next)
  | run {code : CodeId} {input : Input} {next : Exit → Program} (h : ∀ exit, Candid (next exit)) : Candid (.run code input next)
  | notify {method : String} {args : List Value} {next : Program} (other : method ∉ registrationMethods) (h : Candid next) :
      Candid (.notify method args next)
  | invoke {method : String} {args : List Value} {release : Workspace → Workspace} {next : CallResult → Program}
      (quiet : Leaves registries release) (h : ∀ result, Candid (next result)) : Candid (.invoke method args release next)
  | await {gate : String} {next : Program} (h : Candid next) : Candid (.await gate next)
  | registerCommands {commands : List (String × (Input → Program))} {next : Program} (hcode : ∀ c ∈ commands, ∀ input, Candid (c.2 input))
      (h : Candid next) : Candid (Facade.registerCommands commands next)
  | registerContext {name : String} {code : Input → Program} {next : Program} (hcode : ∀ input, Candid (code input)) (h : Candid next) :
      Candid (Facade.registerContext name code next)
  | unregisterContext {name : String} {next : Program} (h : Candid next) : Candid (Facade.unregisterContext name next)

namespace Candid

theorem registerCommand {name : String} {code : Input → Program} {next : Program} (hcode : ∀ input, Candid (code input)) (h : Candid next) :
    Candid (Facade.registerCommand name code next) := by
  refine .registerCommands (fun c hc => ?_) h
  rw [List.mem_singleton.mp hc]
  exact hcode

/-- Between its calls candid code owes nothing. -/
theorem owes {p : Program} (h : Candid p) : Owes .clear p := by
  induction h with
  | finish e => exact .finish e
  | panic text => exact .panic text
  | record _ ih => exact .record ih
  | report _ ih => exact .report ih
  | access quiet _ ih => exact .access quiet ih
  | ensure quiet _ ih => exact .ensure quiet ih
  | keep _ _ ihcode ih => exact .keep ihcode ih
  | run _ ih => exact .run ih
  | notify other _ ih => exact .notify other ih
  | invoke quiet _ ih => exact .invoke quiet ih
  | await _ ih => exact .await ih
  | registerCommands _ _ ihcode ih => exact .registerFrom ihcode ih []
  | registerContext _ _ ihcode ih => exact .keep ihcode fun id => .addContext fun _ => .tellContext ih
  | unregisterContext _ ih => exact .dropContext fun _ => .tellDropped ih

/-- Code within limits that leave registrations out is candid. -/
theorem of_confined {limits : Limits} (quiet : ∀ change, limits.changes change → Leaves registries change)
    (other : ∀ method, limits.methods method → method ∉ registrationMethods) {p : Program} (h : p.Confined limits) : Candid p := by
  induction h with
  | finish e => exact .finish e
  | panic text => exact .panic text
  | record _ ih => exact .record ih
  | report _ ih => exact .report ih
  | access allowed _ ih => exact .access (quiet _ allowed) ih
  | ensure allowed _ ih => exact .ensure (quiet _ allowed) ih
  | keep _ _ ihcode ih => exact .keep ihcode ih
  | run _ ih => exact .run ih
  | notify allowed _ ih => exact .notify (other _ allowed) ih
  | invoke allowed _ ih => exact .invoke (quiet _ allowed) ih
  | await _ ih => exact .await ih

end Candid

/-! ## Between calls -/

section Between

variable {d : Debt} {name : String} {id : CodeId}

theorem not_leaves_addCommand : ¬ Leaves registries (Workspace.addCommand name id) := by
  intro h
  cases h {}

theorem not_leaves_addContext : ¬ Leaves registries (Workspace.addContext name id) := by
  intro h
  cases h {}

theorem not_leaves_dropContext : ¬ Leaves registries (Workspace.dropContext name) := by
  intro h
  have hdropped := congrArg Prod.snd (h { contexts := [(name, 0)] })
  simp [registries, Workspace.dropContext, Keyed.erase] at hdropped

theorem registries_addCommand (name : String) (id : CodeId) : registries (Workspace.addCommand name id {}) = ([(name, id)], []) := rfl

theorem registries_addContext (name : String) (id : CodeId) : registries (Workspace.addContext name id {}) = ([], [(name, id)]) := rfl

theorem registries_dropContext (name : String) : registries (Workspace.dropContext name {}) = ([], []) := rfl

/-- What is owed amid a registration of commands is what has been registered of them. -/
theorem debt_of_registerFrom {commands : List (String × (Input → Program))} {names : List String} {next : Program}
    (h : Owes d (Facade.registerFrom names next commands)) : d = .commands names := by
  induction commands generalizing names d with
  | nil =>
    rw [Facade.registerFrom] at h
    cases h with
    | report h =>
      rcases Owes.notify_cases h with ⟨other, -⟩ | ⟨-, ⟨owed, rfl, -, hargs⟩ | ⟨_, -, hmethod, -⟩ | ⟨_, -, hmethod, -⟩⟩
      · exact absurd (by decide) other
      · have hnames := congrArg namesIn hargs
        rw [namesIn_texts, namesIn_texts] at hnames
        rw [List.reverse_injective hnames]
      · exact absurd hmethod (by decide)
      · exact absurd hmethod (by decide)
  | cons c rest ih =>
    obtain ⟨name, code⟩ := c
    rw [Facade.registerFrom] at h
    cases h with
    | keep _ h =>
      rcases (h 0).access_cases with ⟨quiet, -⟩ | ⟨owed, other, id, rfl, hchange, hnext⟩ | ⟨other, id, -, hchange, -⟩ | ⟨other, -, hchange, -⟩
      · exact absurd quiet not_leaves_addCommand
      · have hname := congrArg registries (congrFun hchange {})
        rw [registries_addCommand, registries_addCommand] at hname
        cases hname
        cases ih (hnext {}).of_reports
        rfl
      · have hname := congrArg registries (congrFun hchange {})
        rw [registries_addCommand, registries_addContext] at hname
        cases hname
      · have hname := congrArg registries (congrFun hchange {})
        rw [registries_addCommand, registries_dropContext] at hname
        cases hname

theorem debt_of_addContext {next : Workspace → Program} (h : Owes d (.access (Workspace.addContext name id) next)) : d = .clear := by
  rcases h.access_cases with ⟨quiet, -⟩ | ⟨owed, other, id', rfl, hchange, -⟩ | ⟨other, id', rfl, -, -⟩ | ⟨other, rfl, -, -⟩
  · exact absurd quiet not_leaves_addContext
  · have hname := congrArg registries (congrFun hchange {})
    rw [registries_addContext, registries_addCommand] at hname
    cases hname
  · rfl
  · rfl

theorem debt_of_dropContext {next : Workspace → Program} (h : Owes d (.access (Workspace.dropContext name) next)) : d = .clear := by
  rcases h.access_cases with ⟨quiet, -⟩ | ⟨owed, other, id', rfl, hchange, -⟩ | ⟨other, id', rfl, -, -⟩ | ⟨other, rfl, -, -⟩
  · exact absurd quiet (not_leaves_dropContext)
  · have hname := congrArg registries (congrFun hchange {})
    rw [registries_dropContext, registries_addCommand] at hname
    cases hname
  · rfl
  · rfl

/-- **Candid code owes nothing where it stands between calls.** -/
theorem Candid.debt {p : Program} (candid : Candid p) (h : Owes d p) : d = .clear := by
  induction candid with
  | finish e =>
    cases h
    rfl
  | panic text =>
    cases h
    rfl
  | record _ ih =>
    cases h with
    | record h => exact ih h
  | report _ ih =>
    cases h with
    | report h => exact ih h
  | access quiet _ ih =>
    rcases h.access_cases with ⟨-, hnext⟩ | ⟨_, _, _, -, rfl, -⟩ | ⟨_, _, rfl, -, -⟩ | ⟨_, rfl, -, -⟩
    · exact ih {} (hnext {})
    · exact absurd quiet not_leaves_addCommand
    · rfl
    · rfl
  | ensure _ _ ih =>
    cases h with
    | ensure _ h => exact ih h
  | keep _ _ _ ih =>
    cases h with
    | keep _ h => exact ih 0 (h 0)
  | run _ _ =>
    cases h
    rfl
  | notify other _ ih =>
    rcases h.notify_cases with ⟨-, hnext⟩ | ⟨-, ⟨_, -, rfl, -⟩ | ⟨_, -, rfl, -⟩ | ⟨_, -, rfl, -⟩⟩
    · exact ih hnext
    · exact absurd (by decide) other
    · exact absurd (by decide) other
    · exact absurd (by decide) other
  | invoke _ _ _ =>
    cases h
    rfl
  | await _ _ =>
    cases h
    rfl
  | registerCommands _ _ _ _ => exact debt_of_registerFrom h
  | registerContext _ _ _ _ =>
    rw [Facade.registerContext] at h
    cases h with
    | keep _ h => exact debt_of_addContext (h 0)
  | unregisterContext _ _ => exact debt_of_dropContext h

end Between

/-! ## Candid sessions -/

/-- The limits of handlers, which register nothing. -/
def besideRegistries : Limits where
  changes := Leaves registries
  methods := (· ∉ registrationMethods)

theorem lenient_besideRegistries : besideRegistries.Lenient where
  look := fun _ => rfl
  newEvent := fun _ _ => rfl

theorem candid_of_confined {p : Program} (h : p.Confined besideRegistries) : Candid p :=
  .of_confined (fun _ h => h) (fun _ h => h) h

/-- Programs pay their debts. -/
def paying : Rule where
  rest := Owes .clear
  now := fun p => ∃ d, Owes d p
  releases := Leaves registries
  now_of_rest := fun h => ⟨_, h⟩
  nothing := .finish _
  notification := fun method args => (candid_of_confined (Handling.confined_notification lenient_besideRegistries method args)).owes
  request := fun method args => (candid_of_confined (Handling.confined_request lenient_besideRegistries method args)).owes
  record | ⟨_, .record h⟩ => ⟨_, h⟩
  report | ⟨_, .report h⟩ => ⟨_, h⟩
  access := by
    rintro change next ⟨d, h⟩ w
    rcases h.access_cases with ⟨-, hnext⟩ | ⟨_, _, _, -, -, hnext⟩ | ⟨_, _, -, -, hnext⟩ | ⟨_, -, -, hnext⟩
    · exact ⟨_, hnext w⟩
    · exact ⟨_, hnext w⟩
    · exact ⟨_, hnext w⟩
    · exact ⟨_, hnext w⟩
  ensure | ⟨_, .ensure quiet h⟩ => ⟨quiet, _, h⟩
  keep | ⟨_, .keep hcode h⟩ => ⟨hcode, fun id => ⟨_, h id⟩⟩
  run | ⟨_, .run h⟩ => h
  notify := by
    rintro method args next ⟨d, h⟩
    rcases h.notify_cases with ⟨-, hnext⟩ | ⟨hnext, -⟩
    · exact ⟨_, hnext⟩
    · exact ⟨_, hnext⟩
  invoke | ⟨_, .invoke quiet h⟩ => ⟨quiet, h⟩
  await | ⟨_, .await h⟩ => h

/-! ## Extensions and the loader -/

section Loader

open Registry Package Files Loading

theorem andThen_reports (notices : List Notice) (next : Program) (k : Exit → Program) :
    (Program.reports notices next).andThen k = .reports notices (next.andThen k) := by
  induction notices with
  | nil => rfl
  | cons n rest ih => exact congrArg (Program.report n) ih

theorem andThen_registerFrom (names : List String) (next : Program) (commands : List (String × (Input → Program))) (k : Exit → Program) :
    (Facade.registerFrom names next commands).andThen k = Facade.registerFrom names (next.andThen k) commands := by
  induction commands generalizing names with
  | nil => rfl
  | cons c rest ih => simp only [Facade.registerFrom, Program.andThen, andThen_reports, ih]

/-- Candid code that goes on candidly is candid. -/
theorem candid_andThen {p : Program} (h : Candid p) {k : Exit → Program} (hk : ∀ exit, Candid (k exit)) : Candid (p.andThen k) := by
  induction h with
  | finish e => exact hk _
  | panic text => exact hk _
  | record _ ih => exact .record ih
  | report _ ih => exact .report ih
  | access quiet _ ih => exact .access quiet ih
  | ensure quiet _ ih => exact .ensure quiet ih
  | keep hcode _ _ ih => exact .keep hcode ih
  | run _ ih => exact .run ih
  | notify other _ ih => exact .notify other ih
  | invoke quiet _ ih => exact .invoke quiet ih
  | await _ ih => exact .await ih
  | @registerCommands commands next hcode _ _ ih =>
    rw [Facade.registerCommands, andThen_registerFrom]
    exact .registerCommands hcode ih
  | registerContext hcode _ _ ih => exact .registerContext hcode ih
  | unregisterContext _ ih => exact .unregisterContext ih

/-- All extensions of a catalog are candid. -/
def CandidCatalog (catalog : Catalog) : Prop :=
  ∀ entry hooks, catalog.get? entry = some hooks → Candid hooks.activate ∧ Candid hooks.deactivate

variable {files : Tree} {catalog : Catalog}

theorem candid_declareSettings {next : Program} (h : Candid next) (settings : Keyed Setting) : Candid (declareSettings next settings) := by
  induction settings with
  | nil => exact h
  | cons entry rest ih => exact .access (fun _ => rfl) fun _ => ih

theorem candid_loadPackage (hcatalog : CandidCatalog catalog) (dir : String) {k : Except PackageError Loaded → Program}
    (hk : ∀ result, Candid (k result)) : Candid (loadPackage files catalog dir k) := by
  rw [loadPackage]
  cases Manifest.load files dir with
  | error e => exact hk _
  | ok m =>
    refine candid_declareSettings ?_ _
    have hactivate : Candid (activateEntry catalog m fun active => k (active.map fun active => ⟨m, dir, active⟩)) := by
      rw [activateEntry]
      cases hentry : catalog.get? m.entry with
      | none => exact .report (hk _)
      | some hooks => exact candid_andThen (hcatalog _ _ hentry).1 fun _ => hk _
    cases m.menu with
    | none => exact hactivate
    | some path => exact .notify (by decide) hactivate

theorem candid_loadDirs (hcatalog : CandidCatalog catalog) {k : Nat → Program} (hk : ∀ n, Candid (k n)) (dirs : List String) (count : Nat) :
    Candid (loadDirs files catalog k count dirs) := by
  induction dirs generalizing count with
  | nil => exact hk count
  | cons dir rest ih =>
    rw [loadDirs]
    refine candid_loadPackage hcatalog dir fun result => ?_
    cases result with
    | error e => exact .report (ih count)
    | ok p => exact .report (.access (fun _ => rfl) fun _ => ih (count + 1))

theorem candid_loadRoot (hcatalog : CandidCatalog catalog) (root : String) {k : Except PackageError Nat → Program}
    (hk : ∀ result, Candid (k result)) : Candid (loadRoot files catalog root k) := by
  rw [loadRoot]
  split
  · exact hk _
  · exact candid_loadDirs hcatalog (fun n => hk (.ok n)) _ 0

/-- **Loading is candid** if the extensions are. -/
theorem candid_loadRoots (hcatalog : CandidCatalog catalog) (roots : List String) {k : Nat → Program} (hk : ∀ n, Candid (k n)) :
    Candid (loadRoots files catalog roots k) := by
  have hfrom : ∀ count, Candid (loadRootsFrom files catalog k count roots) := by
    induction roots with
    | nil => exact hk
    | cons root rest ih =>
      intro count
      rw [loadRootsFrom]
      refine candid_loadRoot hcatalog root fun result => ?_
      cases result with
      | error e => exact .report (ih count)
      | ok n => exact .report (ih (count + n))
  exact hfrom 0

/-- **Letting go is candid** if the extensions are. -/
theorem candid_deactivateAll (hcatalog : CandidCatalog catalog) {next : Program} (h : Candid next) : Candid (deactivateAll catalog next) := by
  refine .access (fun _ => rfl) fun w => ?_
  induction w.packages.reverse with
  | nil => exact h
  | cons p rest ih =>
    rw [deactivateEach]
    split
    · exact ih
    · next hooks hhooks =>
      have hentry : catalog.get? p.manifest.entry = some hooks := by
        split at hhooks
        · exact hhooks
        · cases hhooks
      refine candid_andThen (hcatalog _ _ hentry).2 fun exit => ?_
      cases exit with
      | ended e => exact ih
      | panicked text => exact .report ih

end Loader

end Extension
end EditorLink
