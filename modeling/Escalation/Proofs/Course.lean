import Escalation.Proofs.Composition

/-!
# The course of what threads share

What all threads share changes in few ways while a run goes on. A record is added, text is written
to the diagnostic stream, another hook is put in front, the settings are loaded where none are, or
the policy of the process is made from them; nothing else changes, whatever becomes of the thread.
So a relation that stands still, goes on, and respects records, text, hooks and the policy is
followed by all parts of runs if it is followed where the settings are asked for
(`Run.elementary_follows`). What is asked for is in place then, and loading
it gives a warning if the variables are unusable (`Run.settings_of_fresh`).

A relation that respects loading the settings and the warning by themselves is a course
(`Process.Course`), and what threads share follows it through all tasks, whether they return, raise
or break off (`Interpreter.follows_run`). So the call stack stays, and a failure that is made
captures it exactly if the settings say so (`Process.captured`, `Run.build_eq`).
-/

set_option autoImplicit false
set_option relaxedAutoImplicit false

namespace Escalation

/-! ### How parts end -/

/-- The machine after what was raised in it has been caught. -/
def Machine.caught (machine : Machine) : Machine :=
  { machine with thread := { machine.thread with unwinding := machine.thread.unwinding - 1 } }

namespace Run

section Ends

variable {α : Type}

/-- The machine that a part leaves, however it ends. -/
def left : EStateM.Result Interrupt Machine α → Machine
  | .ok _ after | .error _ after => after

/-- The same end, where another machine is left. -/
def leaving (machine : Machine) :
    EStateM.Result Interrupt Machine α → EStateM.Result Interrupt Machine α
  | .ok value _ => .ok value machine
  | .error interrupt _ => .error interrupt machine

/-- A part returned or raised, so cleanups follow. -/
def goesOn : EStateM.Result Interrupt Machine α → Bool
  | .ok _ _ | .error (.raised _) _ => true
  | .error _ _ => false

/-- The end of a part behind the end of its cleanup. -/
def closing (first : EStateM.Result Interrupt Machine α) :
    EStateM.Result Interrupt Machine Unit → EStateM.Result Interrupt Machine α
  | .ok _ last => leaving last first
  | .error interrupt last =>
    match first, interrupt with
    | .error _ _, .raised _ => .error .aborted last
    | _, _ => .error interrupt last

/-- The end of a part of which what it raises is handed over. -/
def intercepted :
    EStateM.Result Interrupt Machine α → EStateM.Result Interrupt Machine (Except Payload α)
  | .ok value after => .ok (.ok value) after
  | .error (.raised payload) after => .ok (.error payload) after.caught
  | .error interrupt after => .error interrupt after

theorem intercept_eq (body : Run α) (machine : Machine) :
    intercept body machine = intercepted (body machine) := by
  unfold intercept
  rcases body machine with _ | ⟨_ | _ | _ | _, _⟩ <;> rfl

/-- What breaks off is not intercepted. -/
theorem intercept_of_break {body : Run α} {machine after : Machine} {interrupt : Interrupt}
    (hbreak : ∀ payload, interrupt ≠ .raised payload) (h : body machine = .error interrupt after) :
    intercept body machine = .error interrupt after := by
  unfold intercept
  rw [h]
  cases interrupt with
  | raised payload => exact absurd rfl (hbreak payload)
  | aborted => rfl
  | exhausted => rfl
  | stopped => rfl

variable (first : EStateM.Result Interrupt Machine α)
  (second : EStateM.Result Interrupt Machine Unit) (machine other : Machine)

@[simp] theorem left_leaving : left (leaving machine first) = machine := by cases first <;> rfl

@[simp] theorem goesOn_leaving : goesOn (leaving machine first) = goesOn first := by
  rcases first with _ | ⟨_ | _ | _ | _, _⟩ <;> rfl

@[simp] theorem left_closing : left (closing first second) = left second := by
  rcases second with _ | ⟨_ | _ | _ | _, _⟩ <;> cases first <;> rfl

@[simp] theorem closing_leaving : closing (leaving other first) (leaving machine second) =
    leaving machine (closing first second) := by
  rcases second with _ | ⟨_ | _ | _ | _, _⟩ <;> cases first <;> rfl

theorem process_left_intercepted : (left (intercepted first)).process = (left first).process := by
  rcases first with _ | ⟨_ | _ | _ | _, _⟩ <;> rfl

/-- What is raised is caught. -/
theorem intercepted_ne_raised {payload : Payload} {last : Machine} :
    intercepted first ≠ .error (.raised payload) last := by
  rcases first with _ | ⟨_ | _ | _ | _, _⟩ <;> exact fun h ↦ nomatch h

/-- A cleanup runs where the part before it left off, unless that broke off. -/
theorem andFinally_eq (body : Run α) (cleanup : Run Unit) : andFinally body cleanup machine =
    if goesOn (body machine) then closing (body machine) (cleanup (left (body machine)))
    else body machine := by
  unfold andFinally
  rcases body machine with ⟨value, after⟩ | ⟨payload | _ | _ | _, after⟩
  · change _ = closing _ (cleanup after)
    dsimp only
    rcases cleanup after with _ | ⟨_ | _ | _ | _, _⟩ <;> rfl
  · change _ = closing _ (cleanup after)
    dsimp only
    rcases cleanup after with _ | ⟨_ | _ | _ | _, _⟩ <;> rfl
  all_goals rfl

end Ends

end Run

/-! ### Loading the settings -/

namespace Process

variable (process : Process)

/-- What the variables say about the settings. -/
def consulted : Except Settings.Problem Settings :=
  let look (key : String) : Id (Option String) := process.environment.lookup key
  (Settings.load process.throwing look).run

/-- The warnings that are due where the settings are loaded: one if the variables are unusable and
events inside the library are logged, and none otherwise. -/
def dueWarnings : List Record :=
  match process.consulted with
  | .ok _ => []
  | .error problem =>
    if process.tracing then
      [.logged .warn Run.settingsTarget
        ("ignoring invalid faultline configuration error=" ++ problem.message)]
    else []

/-- The process behind the loading of its settings. -/
def loaded : Process :=
  process.dueWarnings.foldl recorded (process.withSettings process.effectiveSettings)

variable {process}

theorem effectiveSettings_of_fresh (h : process.settings = none) : process.effectiveSettings =
    match process.consulted with
    | .ok settings => settings
    | .error _ => .standard process.throwing := by
  unfold effectiveSettings
  rw [h]
  rfl

end Process

/-- Where none are, the settings are loaded. -/
theorem Run.settings_of_fresh {machine : Machine} (h : machine.process.settings = none) :
    settings machine =
      .ok machine.process.effectiveSettings { machine with process := machine.process.loaded } := by
  have hread : process machine = .ok machine.process machine := rfl
  unfold settings
  rw [bind_of_ok hread, h, Process.effectiveSettings_of_fresh h]
  unfold Process.loaded Process.dueWarnings
  rw [Process.effectiveSettings_of_fresh h]
  change (match machine.process.consulted with
    | .ok settings => _
    | .error problem => _ : Run Settings) machine = _
  cases machine.process.consulted with
  | ok loaded => rfl
  | error problem =>
    let standard := Settings.standard machine.process.throwing
    let settled : Machine := { machine with process := machine.process.withSettings standard }
    let warning := "ignoring invalid faultline configuration error=" ++ problem.message
    change ((if machine.process.tracing then record (.logged .warn settingsTarget warning)
      else pure () : Run Unit) >>= fun _ ↦ pure standard) settled = _
    dsimp only
    split
    · exact bind_of_ok (record_eq _ settled)
    · rfl

namespace Run

variable {machine : Machine}

/-- The policy of the process is not made again. -/
theorem rootSettings_of_some {kept : Settings} (h : machine.process.root = some kept) :
    rootSettings machine = .ok kept machine := by
  have hread : process machine = .ok machine.process machine := rfl
  unfold rootSettings
  rw [bind_of_ok hread, h]
  rfl

/-- Where there is none, the policy of the process is made from the settings. -/
theorem rootSettings_of_none (h : machine.process.root = none) :
    rootSettings machine =
      (do let settings ← settings; modifyProcess Process.withRoot; return settings) machine := by
  have hread : process machine = .ok machine.process machine := rfl
  unfold rootSettings
  rw [bind_of_ok hread, h]

end Run

/-! ### Relations that are followed -/

/-- A relation between what threads share at one moment and at a later one. Standing still, one
step after another, a record, text on the diagnostic stream, another hook, loading the settings and
making the policy of the process respect it. -/
class Process.Course (leads : Process → Process → Prop) : Prop where
  refl (process : Process) : leads process process
  trans {process after last : Process} : leads process after → leads after last →
    leads process last
  recorded (process : Process) (entry : Record) : leads process (process.recorded entry)
  written (process : Process) (text : String) :
    leads process { process with diagnostics := process.diagnostics ++ text }
  hooked (process : Process) (hook : Hook) (hookSetup : HookSetup) :
    leads process { process with hook, hookSetup }
  loaded (process : Process) : process.settings = none →
    leads process (process.withSettings process.effectiveSettings)
  rooted (process : Process) : leads process process.withRoot

namespace Run

/-- What threads share goes this way while the part runs, however it ends. -/
def Follows (leads : Process → Process → Prop) {α : Type} (part : Run α) : Prop :=
  ∀ machine, leads machine.process (left (part machine)).process

section Follows

variable {leads : Process → Process → Prop} {α β : Type}

/-- A part and what comes after it. -/
theorem Follows.bind {part : Run α} {next : α → Run β}
    (htrans : ∀ {process after last}, leads process after → leads after last → leads process last)
    (hpart : Follows leads part) (hnext : ∀ value, Follows leads (next value)) :
    Follows leads (part >>= next) := by
  intro machine
  have hfirst := hpart machine
  rcases hend : part machine with ⟨value, after⟩ | ⟨interrupt, after⟩
  · rw [bind_of_ok hend]
    rw [hend] at hfirst
    exact htrans hfirst (hnext value after)
  · rw [bind_of_error hend]
    rw [hend] at hfirst
    exact hfirst

/-- A part and its cleanup. -/
theorem Follows.andFinally {body : Run α} {cleanup : Run Unit}
    (htrans : ∀ {process after last}, leads process after → leads after last → leads process last)
    (hbody : Follows leads body) (hcleanup : Follows leads cleanup) :
    Follows leads (Run.andFinally body cleanup) := by
  intro machine
  rw [andFinally_eq]
  split
  · rw [left_closing]
    exact htrans (hbody machine) (hcleanup _)
  · exact hbody machine

theorem Follows.intercept {body : Run α} (hbody : Follows leads body) :
    Follows leads (Run.intercept body) := by
  intro machine
  rw [intercept_eq, process_left_intercepted]
  exact hbody machine

/-- A relation that stands still, goes on, and respects records, text on the diagnostic stream,
hooks and the policy of the process is followed by all parts of runs if it is followed where the
settings are asked for. -/
theorem elementary_follows (hrefl : ∀ process, leads process process)
    (htrans : ∀ {process after last}, leads process after → leads after last → leads process last)
    (hrecorded : ∀ process entry, ¬entry.isWarning = true → leads process (process.recorded entry))
    (hwritten : ∀ process text,
      leads process { process with diagnostics := process.diagnostics ++ text })
    (hhooked : ∀ process hook hookSetup, leads process { process with hook, hookSetup })
    (hrooted : ∀ process, leads process process.withRoot) (hsettings : Follows leads settings) :
    Elementary fun _ part ↦ Follows leads part where
  pure _ machine := hrefl machine.process
  throw _ machine := hrefl machine.process
  bind := Follows.bind htrans
  andFinally := Follows.andFinally htrans
  intercept := Follows.intercept
  updateThread _ machine := hrefl machine.process
  observe _ hnext machine := hnext machine.process machine
  record entry hentry machine := hrecorded machine.process entry hentry
  writeDiagnostics text machine := hwritten machine.process text
  settings := hsettings
  rootSettings := by
    have hmaking : Follows leads (do
        let settings ← Run.settings
        modifyProcess Process.withRoot
        return settings) := by
      refine Follows.bind htrans hsettings fun _ ↦ Follows.bind htrans ?_ fun _ machine ↦ ?_
      · exact fun machine ↦ hrooted machine.process
      · exact hrefl machine.process
    intro machine
    cases hroot : machine.process.root with
    | some kept =>
      rw [rootSettings_of_some hroot]
      exact hrefl machine.process
    | none =>
      rw [rootSettings_of_none hroot]
      exact hmaking machine
  changeHook _ hookSetup machine := hhooked machine.process _ hookSetup

end Follows

section Course

variable {leads : Process → Process → Prop} [Process.Course leads]

theorem Follows.record (entry : Record) : Follows leads (record entry) :=
  fun machine ↦ Process.Course.recorded machine.process entry

theorem Follows.traceEvent (level : Level) (target text : String) :
    Follows leads (traceEvent level target text) := by
  intro machine
  change leads machine.process
    (left ((if machine.process.tracing then Run.record _ else Pure.pure () : Run Unit)
      machine)).process
  split
  · exact Process.Course.recorded machine.process _
  · exact Process.Course.refl machine.process

/-- Settings are loaded only where none are, and are those of the process. -/
theorem Follows.settings : Follows leads settings := by
  intro machine
  rcases hsettings : machine.process.settings with _ | loaded
  · rw [settings_of_fresh hsettings]
    have hrecorded (process : Process) (entries : List Record) :
        leads process (entries.foldl Process.recorded process) := by
      induction entries generalizing process with
      | nil => exact Process.Course.refl process
      | cons entry rest ih =>
        exact Process.Course.trans (Process.Course.recorded process entry) (ih _)
    exact Process.Course.trans (Process.Course.loaded machine.process hsettings) (hrecorded _ _)
  · rw [settings_of_loaded hsettings]
    exact Process.Course.refl machine.process

instance : Elementary fun _ part ↦ Follows leads part :=
  elementary_follows Process.Course.refl Process.Course.trans
    (fun process entry _ ↦ Process.Course.recorded process entry) Process.Course.written
    Process.Course.hooked Process.Course.rooted .settings

theorem Follows.build (draft : Draft) : Follows leads (build draft) :=
  @Holds.build (fun _ part ↦ Follows leads part) _ draft

theorem follows_install {exec : Exec} (hexec : ∀ task, Follows leads (exec task))
    (object : ObjectId) : Follows leads (install exec object) :=
  @holds_install (fun _ part ↦ Follows leads part) _ exec hexec object

end Course

end Run

/-! ### Making failures -/

namespace Process

/-- The process behind somebody's asking for its settings. -/
def asked (process : Process) : Process :=
  match process.settings with
  | some _ => process
  | none => process.loaded

/-- The process behind the making of a failure. -/
def drafted (process : Process) (draft : Draft) : Process :=
  if draft.origin.consultsSettings = true then process.asked else process

/-- The addresses that a failure captures if it is made now. -/
def captured (process : Process) : List UInt64 :=
  if process.effectiveSettings.capturing = true then process.walk else []

/-- The call stack stays. -/
instance : Course fun process after ↦ after.walk = process.walk where
  refl _ := rfl
  trans h hlast := hlast.trans h
  recorded process entry := by
    obtain ⟨records, diagnostics, hrecorded⟩ := process.exists_recorded entry
    rw [hrecorded]
  written _ _ := rfl
  hooked _ _ _ := rfl
  loaded _ _ := rfl
  rooted _ := rfl

end Process

/-- A draft that asks for no settings gives its addresses itself. -/
theorem Draft.build_of_given {draft : Draft} (h : ¬draft.origin.consultsSettings = true)
    (walk other : List UInt64) : draft.build walk = draft.build other := by
  unfold build
  cases horigin : draft.origin with
  | traced nature durability description addresses => rfl
  | classified nature durability description => exact absurd (horigin ▸ rfl) h
  | reported error => exact absurd (horigin ▸ rfl) h

namespace Run

variable (draft : Draft) (machine : Machine)

/-- Whoever asks for the settings gets those of the process. -/
theorem settings_eq_asked : settings machine = .ok machine.process.effectiveSettings
    { machine with process := machine.process.asked } := by
  unfold Process.asked
  cases hsettings : machine.process.settings with
  | none => exact settings_of_fresh hsettings
  | some loaded =>
    rw [settings_of_loaded hsettings]
    simp [Process.effectiveSettings, hsettings]

/-- A failure is made from the addresses that the process captures. -/
theorem build_eq : build draft machine = .ok (draft.build machine.process.captured)
    { machine with process := machine.process.drafted draft } := by
  have hwalk : machine.process.asked.walk = machine.process.walk := by
    have hfollows : Follows (fun process after ↦ after.walk = process.walk) settings := .settings
    have hfollows := hfollows machine
    rw [settings_eq_asked] at hfollows
    exact hfollows
  unfold build Process.drafted
  split
  · rw [bind_of_ok (settings_eq_asked machine)]
    unfold Process.captured
    rw [← hwalk]
    rfl
  · rename_i hgiven
    rw [draft.build_of_given hgiven machine.process.captured []]
    rfl

/-- Making a failure is silent. -/
theorem alike_drafted : machine.process.Alike (machine.process.drafted draft) := by
  unfold Process.drafted
  split
  · obtain ⟨process, hsettings, halike⟩ := settings_eq machine
    rw [settings_eq_asked] at hsettings
    cases hsettings
    exact halike
  · exact .refl _

end Run

/-- What threads share goes one way through all tasks, however they end. -/
theorem Interpreter.follows_run {leads : Process → Process → Prop} [Process.Course leads]
    (depth : ℕ) (task : Task) : Run.Follows leads (run depth task) :=
  @holds_run (fun _ part ↦ Run.Follows leads part) _ depth task

end Escalation
