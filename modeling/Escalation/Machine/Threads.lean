import Escalation.Machine.Delivery

/-!
# Threads

A thread runs its program to the end and then gives up what it still has (`Run.runThread`). Unless
it was started uncaught, every operation at the top of the program runs behind a catch, and a record
says what it raised (`Run.runSteps`). At the end the guards of the outermost list are released, then
the shared overrides are given up in the order of their names.

Last the storage of the thread is torn down (`Run.tearDown`). Overrides whose guards were lost are
let go then, outermost first, when the stack is gone already. A late guard is released after that,
which does nothing; a line sent at that moment still reaches the policy of the process.
-/

set_option autoImplicit false
set_option relaxedAutoImplicit false

namespace Escalation.Run

/-- What a caught part raised. -/
def raisedBy {α : Type} : Except Failure α → Option Failure
  | .ok _ => none
  | .error failure => some failure

/-- Performs operations one after another, each behind a catch, and counts them from `index`. -/
def runSteps (exec : Exec) (index : Nat) : List Op → Run Unit
  | [] => return
  | op :: rest => do
    let outcome ← catching (exec (.perform op))
    record (.done index (← height) (raisedBy outcome))
    runSteps exec (index + 1) rest

/-- Gives up the shared overrides of the thread in the order of their names. -/
def dropShared (exec : Exec) : Run Unit := do
  let shared := (← thread).shared
  modifyThread fun thread ↦ { thread with shared := {} }
  relinquishAll exec shared.values

/-- Runs the program of a thread whose operations are caught one by one. -/
def runCaught (exec : Exec) (ops : List Op) : Run Unit := do
  openFrame
  runSteps exec 0 ops
  let outcome ← catching (exec .closeFrame)
  dropShared exec
  record (.ended (← height) (raisedBy outcome))

/-- The line sent where a late guard is released. -/
def lateLine : Line :=
  { site := { file := "late.rs", line := 1 }, depth := 1, text := "late line\n" }

/-- Tears down the storage of the thread. -/
def tearDown (exec : Exec) (late : Option Guard) : Run Unit := do
  let (removed, stack) := (← thread).stack.clear
  modifyThread fun thread ↦ { thread with stack, tornDown := true }
  relinquishAll exec removed
  match late with
  | none => return
  | some guard =>
    record (.lateStart (← height) (← current))
    exec (.deliver (.line lateLine) (← current))
    exec (.release guard)
    record .lateReleased

/-- Installs the override of the late guard of a thread, if it has one. -/
def installLate (exec : Exec) (plan : ThreadPlan) : Run (Option Guard) := do
  if plan.lateGuard then return some (← install exec (← newObject .transparent))
  else return none

/-- Runs a program on a thread of its own, waits for it, and says what it raised that nothing
caught. Nothing can be raised while the storage is torn down. -/
def runThread (exec : Exec) (plan : ThreadPlan) (ops : List Op) : Run (Option Payload) := do
  let starter ← thread
  modifyThread fun _ ↦ { name := plan.name }
  let late ← installLate exec plan
  let outcome ← intercept (if plan.uncaught then runList exec ops else runCaught exec ops)
  match ← intercept (tearDown exec late) with
  | .error _ => throw .aborted
  | .ok _ =>
    modifyThread fun _ ↦ starter
    match outcome with
    | .ok _ => return none
    | .error payload => return some payload

end Escalation.Run
