import Escalation.Machine.State

/-!
# Output, settings and raising

What a run writes reaches the list of records in the order in which it happens: a record is preceded
by what was written to the diagnostic stream before it (`Run.record`). The settings are loaded when
they are asked for first, and kept (`Run.settings`); unusable ones are replaced as a whole by the
standard ones, which is logged. The policy of the process copies them when it is needed first
(`Run.rootSettings`).

Raising counts up the raises of the thread that are not caught yet, and is reported by the hook at
once (`Run.raise`). Catching counts down again and turns whatever was raised into a failure
(`Run.catching`). A cleanup runs on every way out of what it belongs to (`Run.andFinally`); what it
raises replaces a normal end, but a raise out of a cleanup during unwinding ends the run.
-/

set_option autoImplicit false
set_option relaxedAutoImplicit false

namespace Escalation.Run

/-! ### Output -/

/-- Turns what was written to the diagnostic stream since the last record into a record. -/
def flushDiagnostics : Run Unit :=
  modifyProcess fun process ↦
    if process.diagnostics.isEmpty then process
    else { process with
      records := process.records.push (.diagnostics process.diagnostics), diagnostics := "" }

/-- Appends a record. -/
def record (entry : Record) : Run Unit := do
  flushDiagnostics
  modifyProcess fun process ↦ { process with records := process.records.push entry }

/-- Writes to the diagnostic stream, which takes everything. -/
def writeDiagnostics (text : String) : Run Unit :=
  modifyProcess fun process ↦ { process with diagnostics := process.diagnostics ++ text }

/-- Logs an event inside the library, where such events are logged. -/
def traceEvent (level : Level) (target text : String) : Run Unit := do
  if (← process).tracing then record (.logged level target text)

/-- The part of the library that manages overrides. -/
def stackTarget : String := "faultline_callback::stack"

/-- The part of the library that decides at the end of the chain. -/
def rootTarget : String := "faultline_callback::root"

/-- The part of the library that loads settings. -/
def settingsTarget : String := "faultline_common::config"

/-- The target of forwarded lines. -/
def bridgeTarget : String := "faultline"

/-! ### Settings -/

/-- The settings, which are loaded at the first use and kept. -/
def settings : Run Settings := do
  let process ← process
  match process.settings with
  | some settings => return settings
  | none =>
    let look (key : String) : Id (Option String) := process.environment.lookup key
    match (Settings.load process.throwing look).run with
    | .ok settings =>
      modifyProcess fun process ↦ process.withSettings settings
      return settings
    | .error problem =>
      let settings := Settings.standard process.throwing
      modifyProcess fun process ↦ process.withSettings settings
      traceEvent .warn settingsTarget
        ("ignoring invalid faultline configuration error=" ++ problem.message)
      return settings

/-- The settings of the policy of the process. The policy is made when it is needed first, and keeps
a copy of the settings. -/
def rootSettings : Run Settings := do
  match (← process).root with
  | some settings => return settings
  | none =>
    let settings ← settings
    modifyProcess Process.withRoot
    return settings

/-- Makes a failure. The settings are asked only if they matter for it. -/
def build (draft : Draft) : Run Failure := do
  if draft.origin.consultsSettings then
    let settings ← settings
    let process ← process
    return draft.build (if settings.capturing then process.walk else [])
  else return draft.build []

/-! ### Raising and catching -/

/-- Does what a hook does about a raise. -/
def give : Notice → Run Unit
  | .written text => writeDiagnostics text
  | .noted message => record (.passedOn message)

/-- Shows what is raised to the hook of the process. -/
def reportRaise (payload : Payload) : Run Unit := do
  let process ← process
  let thread ← thread
  (process.hook.notices { thread := thread.name, payload }).forM give

/-- Raises a payload. -/
def raise {α : Type} (payload : Payload) : Run α := do
  modifyThread fun thread ↦ { thread with unwinding := thread.unwinding + 1 }
  reportRaise payload
  throw (.raised payload)

/-- Puts the hook of the library in front of the one that is there, for the first time it is asked
to; doing so again changes nothing. The hook of a process can not be changed during unwinding, and a
first time that failed is not made up for. -/
def installHook : Run Unit := do
  match (← process).hookSetup with
  | .done => return
  | .poisoned => raise (.message "Once instance has previously been poisoned")
  | .pending =>
    if ← isUnwinding then
      modifyProcess fun process ↦ { process with hookSetup := .poisoned }
      raise (.message "cannot modify the panic hook from a panicking thread")
    else
      modifyProcess fun process ↦
        { process with hook := .reporting process.hook, hookSetup := .done }

/-- Runs a part and hands over what it raises as it was raised. -/
def intercept {α : Type} (body : Run α) : Run (Except Payload α) := fun machine ↦
  match body machine with
  | .ok value machine => .ok (.ok value) machine
  | .error (.raised payload) machine =>
    .ok (.error payload)
      { machine with
        thread := { machine.thread with unwinding := machine.thread.unwinding - 1 } }
  | .error interrupt machine => .error interrupt machine

/-- The place of a failure that did not start out as one. -/
def unknownSite : Site := { file := "(unknown)", line := 0 }

/-- What was raised, as a failure. A message becomes the description of an unclassified one. -/
def absorb : Payload → Run Failure
  | .failure failure => return failure
  | .message text => build { site := unknownSite, origin := .unclassified text }
  | .opaqueValue => build { site := unknownSite, origin := .unclassified "" }

/-- Runs a part and turns what it raises into a failure. -/
def catching {α : Type} (body : Run α) : Run (Except Failure α) := do
  match ← intercept body with
  | .ok value => return .ok value
  | .error payload => return .error (← absorb payload)

/-- Runs a part and then a cleanup, whether the part returns or raises. A raise of the cleanup takes
the place of a normal end; during unwinding it ends the run. -/
def andFinally {α : Type} (body : Run α) (cleanup : Run Unit) : Run α := fun machine ↦
  match body machine with
  | .ok value machine =>
    match cleanup machine with
    | .ok _ machine => .ok value machine
    | .error interrupt machine => .error interrupt machine
  | .error (.raised payload) machine =>
    match cleanup machine with
    | .ok _ machine => .error (.raised payload) machine
    | .error (.raised _) machine => .error .aborted machine
    | .error interrupt machine => .error interrupt machine
  | .error interrupt machine => .error interrupt machine

/-- Runs a part with another event, or none, being handled. -/
def withHandling {α : Type} (handling : Option Handling) (body : Run α) : Run α := do
  let before := (← thread).handling
  modifyThread fun thread ↦ { thread with handling }
  andFinally body (modifyThread fun thread ↦ { thread with handling := before })

/-! ### How catching and cleaning up end -/

section Ends

variable {α : Type} {body : Run α} {machine after : Machine} {value : α} {payload : Payload}

/-- Intercepting a part that returns changes nothing. -/
theorem intercept_of_ok (h : body machine = .ok value after) :
    intercept body machine = .ok (.ok value) after := by
  simp [intercept, h]

/-- Intercepting a part that raises hands over the payload as it is, and the raise no longer
counts. -/
theorem intercept_of_raised (h : body machine = .error (.raised payload) after) :
    intercept body machine = .ok (.error payload)
      { after with thread := { after.thread with unwinding := after.thread.unwinding - 1 } } := by
  simp [intercept, h]

/-- A cleanup that returns leaves a normal end as it is. -/
theorem andFinally_of_ok {cleanup : Run Unit} {last : Machine} (h : body machine = .ok value after)
    (hcleanup : cleanup after = .ok () last) :
    andFinally body cleanup machine = .ok value last := by
  simp [andFinally, h, hcleanup]

/-- A cleanup that returns leaves a raise as it is. -/
theorem andFinally_of_raised {cleanup : Run Unit} {last : Machine}
    (h : body machine = .error (.raised payload) after)
    (hcleanup : cleanup after = .ok () last) :
    andFinally body cleanup machine = .error (.raised payload) last := by
  simp [andFinally, h, hcleanup]

/-- Settings that are loaded are not loaded again. -/
theorem settings_of_loaded {loaded : Settings} (h : machine.process.settings = some loaded) :
    settings machine = .ok loaded machine := by
  cases machine with
  | mk process thread =>
    cases process
    cases h
    rfl

end Ends

end Escalation.Run
