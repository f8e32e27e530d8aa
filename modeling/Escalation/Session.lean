import Escalation.Machine.Perform

/-!
# Sessions

A session runs one program on a thread of its own and gives the list of its records
(`Session.run`). It says how the build and the environment are: whether failures are raised at all,
which variables are set, and what is reported besides.

The interpreter performs a task by its parts, each of which may ask it for further tasks nested one
deeper (`Interpreter.run`). The depth of nesting is limited, so every session ends; the limit is far
beyond what a program without endless recursion reaches. Endless recursion uses up the call stack of
a process, which is aborted then (`Interrupt.ofProcess`).
-/

set_option autoImplicit false
set_option relaxedAutoImplicit false

namespace Escalation

namespace Interpreter

/-- Performs a task, where `exec` performs the tasks nested in it. -/
def step (exec : Exec) : Task → Run Unit
  | .perform op => Run.perform exec op
  | .deliver event link => Run.deliver exec event link
  | .closeFrame => Run.closeFrame exec
  | .release guard => Run.release exec guard

/-- Performs a task with at most `depth` levels of nesting. -/
def run : (depth : Nat) → Task → Run Unit
  | 0, _ => throw .exhausted
  | depth + 1, task => step (run depth) task

@[simp] theorem run_zero (task : Task) (machine : Machine) :
    run 0 task machine = .error .exhausted machine := rfl

@[simp] theorem run_succ (depth : Nat) (task : Task) :
    run (depth + 1) task = step (run depth) task := rfl

/-- The depth of nesting of a session. -/
def depthLimit : Nat := 1000000

end Interpreter

/-- How a process ends that is interrupted: one whose call stack is used up is aborted. -/
def Interrupt.ofProcess : Interrupt → Interrupt
  | .exhausted => .aborted
  | interrupt => interrupt

/-- The variables that are set where a session sets none itself. -/
def usualEnvironment : List (String × String) := [(Settings.captureVariable, "0")]

/-- A call stack, innermost first. No answer depends on the addresses themselves, only on there
being more of them than a trace holds, none of them zero. -/
def nominalWalk : List UInt64 :=
  (List.range 24).map fun frame ↦ 0x400000 + 0x40 * UInt64.ofNat frame

/-- A program and how it is run. -/
structure Session where
  /-- The program. -/
  ops : List Op
  /-- How its thread is started. -/
  plan : ThreadPlan := {}
  /-- The build raises failures. -/
  throwing : Bool := true
  /-- Events inside the library are logged. -/
  tracing : Bool := false
  /-- The library reports what is raised. -/
  hooked : Bool := false
  /-- Captured addresses are not to be shown. -/
  addressesHidden : Bool := false
  /-- The place of the statements of source code, in a file that the program does not mention. -/
  statementSite : Site := Statement.siteApartFrom []
  /-- The variables that are set. -/
  environment : List (String × String) := usualEnvironment

namespace Session

/-- The state in which a session begins. -/
def start (session : Session) : Machine :=
  { process :=
      { Process.initial with
        throwing := session.throwing, environment := session.environment,
        tracing := session.tracing, addressesHidden := session.addressesHidden,
        hook := if session.hooked then .noting else .quiet,
        statementSite := session.statementSite, walk := nominalWalk } }

/-- All that a session does, from the start of its thread to the last output. -/
def body (session : Session) : Run Unit := do
  if session.hooked then Run.installHook
  match ← Run.runThread (Interpreter.run Interpreter.depthLimit) session.plan session.ops with
  | none => return
  | some payload => Run.record (.uncaught (← Run.absorb payload))

/-- The records of a session, and why it stopped short if it did. -/
def run (session : Session) : List Record × Option Interrupt :=
  match (do session.body; Run.flushDiagnostics : Run Unit) session.start with
  | .ok _ machine => (machine.process.records.toList, none)
  | .error interrupt machine => (machine.process.records.toList, some interrupt.ofProcess)

end Session

end Escalation
