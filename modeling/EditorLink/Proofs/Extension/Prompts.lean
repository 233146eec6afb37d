import EditorLink.Proofs.Extension.Rules
import EditorLink.Proofs.Session.Lasting

/-!
# EditorLink.Proofs.Extension.Prompts -- code that shows text prompts

A text prompt gets an id, asks the host under that id, waits for the reply, and is gone when the reply is dealt with: its three stages
(`TextPrompt.Stage`). Code that has to do with dialogs only by showing prompts is **prompting**. Where such code waits between prompts it is
`Calm`, which no stage of a prompt is, so that what a task waits for tells whether it shows a prompt.
-/

namespace EditorLink.Extension

open Registry Session

/-! ## The stages of a prompt -/

/-- A text prompt, with the code that hears of text changes and what goes on with the answer. -/
structure TextPrompt where
  title : String
  label : String
  initial : String
  callback : Option CodeId
  goesOn : Asked (Option String) → Program

namespace TextPrompt

variable {prompt : TextPrompt} {dialog : UInt64}

def program (prompt : TextPrompt) : Program :=
  Facade.showDialog prompt.title prompt.label prompt.initial prompt.callback prompt.goesOn

/-- What the host is told of a prompt with its id. -/
def arguments (prompt : TextPrompt) (dialog : UInt64) : List Value :=
  [.nat dialog, .string prompt.title, .string prompt.label, .string prompt.initial]

/-- The reply is there, and the prompt is not gone yet. -/
def answered (prompt : TextPrompt) (dialog : UInt64) (answer : CallResult) : Program :=
  .ensure (Workspace.closeDialog dialog) (prompt.goesOn (answer.map Value.text?))

/-- The prompt has its id, and the host is about to be asked. -/
def asking (prompt : TextPrompt) (dialog : UInt64) : Program :=
  .invoke "showInputDialog" (prompt.arguments dialog) (Workspace.closeDialog dialog) (prompt.answered dialog)

/-- What a task waits for that shows the prompt while others work. -/
inductive Rests (prompt : TextPrompt) (dialog : UInt64) : Wait → Prop
  | waits (call : UInt32) : Rests prompt dialog (.reply call (Workspace.closeDialog dialog) (prompt.answered dialog))
  | returns (answer : CallResult) : Rests prompt dialog (.turn (prompt.answered dialog answer))

/-- What a task waits for that shows the prompt. -/
inductive Stage (prompt : TextPrompt) (dialog : UInt64) : Wait → Prop
  | asks : Stage prompt dialog (.turn (prompt.asking dialog))
  | rests {wait : Wait} (h : prompt.Rests dialog wait) : Stage prompt dialog wait

/-- The reply to a prompt brings it to its last stage. -/
theorem Rests.resumes {t u : Task} (h : prompt.Rests dialog t.wait) (htu : t.Resumes u) : prompt.Rests dialog u.wait := by
  cases htu with
  | same => exact h
  | reply result waits =>
    rw [waits] at h
    cases h with
    | waits call => exact .returns result
  | gate waits =>
    rw [waits] at h
    cases h

theorem Stage.resumes {t u : Task} (h : prompt.Stage dialog t.wait) (htu : t.Resumes u) : prompt.Stage dialog u.wait := by
  generalize hwait : t.wait = wait at h
  cases h with
  | asks =>
    obtain rfl := htu.of_turn hwait
    exact hwait ▸ .asks
  | rests h => exact .rests (Rests.resumes (hwait ▸ h) htu)

/-- Whoever shows a prompt leaves nothing but its end behind. -/
theorem Rests.releaseOf {wait : Wait} (h : prompt.Rests dialog wait) : Session.releaseOf wait = Workspace.closeDialog dialog := by
  cases h <;> rfl

theorem Stage.rests_of_no_turn {wait : Wait} (h : prompt.Stage dialog wait) (other : ∀ p, wait ≠ .turn p) : prompt.Rests dialog wait := by
  cases h with
  | asks => exact absurd rfl (other _)
  | rests h => exact h

end TextPrompt

/-! ## Prompting code -/

/-- Code that has to do with dialogs only by showing prompts. What else it does is its own affair. -/
inductive Prompting : Program → Prop
  | finish (e : Ending) : Prompting (.finish e)
  | panic (text : String) : Prompting (.panic text)
  | record {entry : Value} {next : Program} (h : Prompting next) : Prompting (.record entry next)
  | report {notice : Notice} {next : Program} (h : Prompting next) : Prompting (.report notice next)
  | access {change : Workspace → Workspace} {next : Workspace → Program} (quiet : Leaves Workspace.dialogs change)
      (h : ∀ w, Prompting (next w)) : Prompting (.access change next)
  | ensure {change : Workspace → Workspace} {next : Program} (quiet : Leaves Workspace.dialogs change) (h : Prompting next) :
      Prompting (.ensure change next)
  | keep {code : Input → Program} {next : CodeId → Program} (hcode : ∀ input, Prompting (code input)) (h : ∀ id, Prompting (next id)) :
      Prompting (.keep code next)
  | run {code : CodeId} {input : Input} {next : Exit → Program} (h : ∀ exit, Prompting (next exit)) : Prompting (.run code input next)
  | notify {method : String} {args : List Value} {next : Program} (h : Prompting next) : Prompting (.notify method args next)
  | invoke {method : String} {args : List Value} {release : Workspace → Workspace} {next : CallResult → Program}
      (quiet : Leaves Workspace.dialogs release) (h : ∀ result, Prompting (next result)) : Prompting (.invoke method args release next)
  | await {gate : String} {next : Program} (h : Prompting next) : Prompting (.await gate next)
  | prompts (prompt : TextPrompt) (h : ∀ answer : CallResult, Prompting (prompt.goesOn (answer.map Value.text?))) :
      Prompting (.access (Workspace.openDialog prompt.callback) fun w => prompt.asking w.dialogs.fresh)

/-- What goes on after a prompt is prompting. -/
def TextPrompt.Tame (prompt : TextPrompt) : Prop :=
  ∀ answer : CallResult, Prompting (prompt.goesOn (answer.map Value.text?))

theorem not_leaves_openDialog (callback : Option CodeId) : ¬ Leaves Workspace.dialogs (Workspace.openDialog callback) := by
  intro h
  have hlast : (1 : UInt64) = 0 := congrArg Dialogs.last (h {})
  cases hlast

theorem not_leaves_closeDialog (dialog : UInt64) : ¬ Leaves Workspace.dialogs (Workspace.closeDialog dialog) := by
  intro h
  have hgone := congrArg Dialogs.callbacks (h { dialogs := { callbacks := [(dialog, 0)] } })
  simp [Workspace.closeDialog, Dialogs.closed] at hgone

namespace Prompting

theorem inputDialog {title label initial : String} {onText : Option (Input → Program)} {k : Asked (Option String) → Program}
    (hcode : ∀ code ∈ onText, ∀ input, Prompting (code input)) (hk : ∀ answer, Prompting (k answer)) :
    Prompting (Facade.inputDialog title label initial onText k) := by
  cases onText with
  | none => exact .prompts ⟨title, label, initial, none, k⟩ fun answer => hk _
  | some code => exact .keep (hcode code rfl) fun id => .prompts ⟨title, label, initial, some id, k⟩ fun answer => hk _

/-- Code within limits that leave dialogs out is prompting. -/
theorem of_confined {limits : Limits} (quiet : ∀ change, limits.changes change → Leaves Workspace.dialogs change) {p : Program}
    (h : p.Confined limits) : Prompting p := by
  induction h with
  | finish e => exact .finish e
  | panic text => exact .panic text
  | record _ ih => exact .record ih
  | report _ ih => exact .report ih
  | access allowed _ ih => exact .access (quiet _ allowed) ih
  | ensure allowed _ ih => exact .ensure (quiet _ allowed) ih
  | keep _ _ ihcode ih => exact .keep ihcode ih
  | run _ ih => exact .run ih
  | notify _ _ ih => exact .notify ih
  | invoke allowed _ ih => exact .invoke (quiet _ allowed) ih
  | await _ ih => exact .await ih

/-- The limits of handlers, which show no dialogs. -/
def besideDialogs : Limits where
  changes := Leaves Workspace.dialogs
  methods := fun _ => True

theorem lenient_besideDialogs : besideDialogs.Lenient where
  look := fun _ => rfl
  newEvent := fun _ _ => rfl

theorem notification (method : String) (args : List Value) : Prompting (Handling.notification method args) :=
  of_confined (fun _ h => h) (Handling.confined_notification lenient_besideDialogs method args)

theorem request (method : String) (args : List Value) : Prompting (Handling.request method args) :=
  of_confined (fun _ h => h) (Handling.confined_request lenient_besideDialogs method args)

/-! ### What prompting code may be -/

theorem access_cases {change : Workspace → Workspace} {next : Workspace → Program} (h : Prompting (.access change next)) :
    (Leaves Workspace.dialogs change ∧ ∀ w, Prompting (next w)) ∨
    ∃ prompt : TextPrompt, prompt.Tame ∧ .access change next = prompt.program := by
  cases h with
  | access quiet h => exact Or.inl ⟨quiet, h⟩
  | prompts prompt h => exact Or.inr ⟨prompt, h, rfl⟩

theorem tame {prompt : TextPrompt} (h : Prompting prompt.program) : prompt.Tame := by
  rcases access_cases h with ⟨quiet, -⟩ | ⟨other, htame, hsame⟩
  · exact absurd quiet (not_leaves_openDialog _)
  · -- two prompts with one program go on alike
    intro answer
    have hnext := congrFun (Program.access.inj hsame).2 {}
    have hanswered := congrFun (Program.invoke.inj hnext).2.2.2 answer
    rw [(Program.ensure.inj hanswered).2]
    exact htame answer

end Prompting

/-- Code that begins no prompt leaves the dialogs alone. -/
theorem Prompting.leaves {p : Program} (h : Prompting p) (other : ∀ prompt : TextPrompt, p ≠ prompt.program) {change : Workspace → Workspace}
    (hchange : p.change? = some change) : Leaves Workspace.dialogs change := by
  cases h with
  | access quiet _ => exact Option.some.inj hchange ▸ quiet
  | ensure quiet _ => exact Option.some.inj hchange ▸ quiet
  | prompts prompt _ => exact absurd rfl (other prompt)
  | _ => cases hchange

/-! ## Calm tasks -/

/-- What a task waits for brings it to prompting code, and there is nothing to do about dialogs if it goes away. -/
def Calm : Wait → Prop
  | .turn p => Prompting p
  | .reply _ release next => Leaves Workspace.dialogs release ∧ ∀ result, Prompting (next result)
  | .gate _ next => Prompting next

/-- Code that has called something goes on as prompting code. -/
def Calls (outer : List (Exit → Program)) : Prop :=
  ∀ next ∈ outer, ∀ exit, Prompting (next exit)

theorem Calm.resumes {t u : Task} (h : Calm t.wait) (htu : t.Resumes u) : Calm u.wait := by
  cases htu with
  | same => exact h
  | reply result waits =>
    rw [waits] at h
    exact h.2 result
  | gate waits =>
    rw [waits] at h
    exact h

theorem Calm.releaseOf {wait : Wait} (h : Calm wait) : Leaves Workspace.dialogs (Session.releaseOf wait) := by
  cases wait with
  | reply id release next => exact h.1
  | gate name next => exact fun _ => rfl
  | turn p =>
    cases p with
    | ensure change next =>
      cases h with
      | ensure quiet _ => exact quiet
    | _ => exact fun _ => rfl

/-- **Who shows a prompt is not calm.** -/
theorem Calm.no_stage {wait : Wait} (h : Calm wait) {prompt : TextPrompt} {dialog : UInt64} : ¬ prompt.Stage dialog wait := by
  intro hstage
  cases hstage with
  | asks =>
    cases h with
    | invoke quiet _ => exact not_leaves_closeDialog dialog quiet
  | rests hrests =>
    have hquiet := h.releaseOf
    rw [hrests.releaseOf] at hquiet
    exact not_leaves_closeDialog dialog hquiet

/-- A prompt that is yet to begin is in none of its stages. -/
theorem TextPrompt.no_stage_program {prompt other : TextPrompt} {dialog : UInt64} : ¬ prompt.Stage dialog (.turn other.program) := by
  intro hstage
  cases hstage with
  | rests h => cases h

/-! ## Steps -/

variable {s : Session} {p : Program} {outer outer' : List (Exit → Program)} {wait : Wait}

/-- **Prompting code does one thing**: it begins a prompt, or is calm afterwards. -/
theorem Prompting.becomes (h : Prompting p) (houter : Calls outer) (hcode : ∀ id input, Prompting (s.codeOf id input))
    (becomes : Becomes s p outer wait outer') : Calls outer' ∧ (Calm wait ∨ ∃ prompt : TextPrompt, p = prompt.program) := by
  cases becomes with
  | record =>
    cases h with
    | record h => exact ⟨houter, Or.inl h⟩
  | report =>
    cases h with
    | report h => exact ⟨houter, Or.inl h⟩
  | access =>
    rcases h.access_cases with ⟨-, hnext⟩ | ⟨prompt, -, hsame⟩
    · exact ⟨houter, Or.inl (hnext _)⟩
    · exact ⟨houter, Or.inr ⟨prompt, hsame⟩⟩
  | ensure =>
    cases h with
    | ensure _ h => exact ⟨houter, Or.inl h⟩
  | keep =>
    cases h with
    | keep _ h => exact ⟨houter, Or.inl (h _)⟩
  | call =>
    cases h with
    | run h =>
      refine ⟨fun next hnext => ?_, Or.inl (hcode _ _)⟩
      rcases List.mem_cons.mp hnext with rfl | hnext
      · exact h
      · exact houter next hnext
  | back _ => exact ⟨fun next hnext => houter next (List.mem_cons_of_mem _ hnext), Or.inl (houter _ List.mem_cons_self _)⟩
  | notify =>
    cases h with
    | notify h => exact ⟨houter, Or.inl h⟩
  | retries => exact ⟨houter, Or.inl h⟩
  | refused reason =>
    cases h with
    | invoke _ h => exact ⟨houter, Or.inl (h _)⟩
  | invoked call =>
    cases h with
    | invoke quiet h => exact ⟨houter, Or.inl ⟨quiet, h⟩⟩
  | passes =>
    cases h with
    | await h => exact ⟨houter, Or.inl h⟩
  | awaits =>
    cases h with
    | await h => exact ⟨houter, Or.inl h⟩

namespace TextPrompt

variable {prompt : TextPrompt} {dialog : UInt64}

/-- A prompt begins with the next id. -/
theorem becomes_program (becomes : Becomes s prompt.program outer wait outer') :
    outer' = outer ∧ wait = .turn (prompt.asking s.workspace.dialogs.fresh) := by
  cases becomes with
  | access => exact ⟨rfl, rfl⟩
  | @back _ exit _ _ ends => cases exit <;> cases ends

/-- Once the host is asked, or cannot be, the reply is what the prompt waits for. -/
theorem becomes_asking (becomes : Becomes s (prompt.asking dialog) outer wait outer') : outer' = outer ∧ prompt.Stage dialog wait := by
  cases becomes with
  | @back _ exit _ _ ends => cases exit <;> cases ends
  | retries => exact ⟨rfl, .asks⟩
  | refused reason => exact ⟨rfl, .rests (.returns _)⟩
  | invoked call => exact ⟨rfl, .rests (.waits call)⟩

/-- When its reply is dealt with, the prompt is gone. -/
theorem becomes_answered {answer : CallResult} (becomes : Becomes s (prompt.answered dialog answer) outer wait outer') :
    outer' = outer ∧ wait = .turn (prompt.goesOn (answer.map Value.text?)) := by
  cases becomes with
  | ensure => exact ⟨rfl, rfl⟩
  | @back _ exit _ _ ends => cases exit <;> cases ends

end TextPrompt
end EditorLink.Extension
