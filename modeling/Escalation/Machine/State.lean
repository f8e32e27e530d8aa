import Escalation.Machine.Hook
import Escalation.Machine.Record
import Escalation.Program.Statement
import Escalation.Table

/-!
# The state of a run

A run has a process and, at each moment, one running thread (`Machine`). The process holds what all
threads share: the environment, the settings once they are loaded and the copy of them that its
policy decides by, the records so far and what was written to the diagnostic stream since the last
of them. A thread holds a stack of overrides, the
failures in its slots, the guards of the lists that are open, and the overrides it knows.

Overrides are objects with several owners: the stack, every handler of theirs that is running, and
the names they are shared under. `Object.owners` counts the owners; an object without owners has
been destroyed, and no owner can appear again.

A run stops short when something is raised (`Interrupt`). It is over for good when something is
raised out of a cleanup during unwinding, when the depth of nesting that it was given is used up, or
when whoever watches it stops it.
-/

set_option autoImplicit false
set_option relaxedAutoImplicit false

namespace Escalation

/-- What an override does with events. -/
inductive Override
  /-- Leaves every event to the link below. -/
  | transparent
  /-- Runs a program for each event. -/
  | script (script : Script)
  /-- Annotates failures and nests lines. -/
  | context (remark : Remark)
  /-- Forwards lines to the log of the program. -/
  | bridge (level : Level)
  /-- Lets a policy of the thread decide. -/
  | policy (index : Nat)

/-- The identity of an override object of a thread. -/
abbrev ObjectId := Nat

/-- An override object. -/
structure Object where
  /-- What it does. -/
  override : Override
  /-- The number of its owners; without any it has been destroyed. -/
  owners : Nat

/-- An event that a script is handling. -/
structure Handling where
  /-- The event, as changed so far. -/
  event : Event
  /-- The link handed on with it. -/
  next : Link

/-- A guard under the name it is kept under. -/
structure Held where
  /-- The name. -/
  name : String
  /-- The guard. -/
  guard : Guard

/-- The guards of an open list, the latest first. -/
abbrev Frame := List Held

/-- A thread. -/
structure Thread where
  /-- The name of the thread. -/
  name : Option String := none
  /-- The overrides installed. -/
  stack : Stack ObjectId := {}
  /-- The storage of the thread is gone, its stack of overrides with it. -/
  tornDown : Bool := false
  /-- The number of raises that have not been caught yet. -/
  unwinding : Nat := 0
  /-- The event being handled. -/
  handling : Option Handling := none
  /-- The guards of the open lists, innermost list first. -/
  frames : List Frame := []
  /-- The failures in slots. -/
  slots : Table Failure := {}
  /-- The override objects made so far. -/
  objects : Array Object := #[]
  /-- The overrides shared under names. -/
  shared : Table ObjectId := {}
  /-- The policies made so far. -/
  policies : Array Policy := #[]
  /-- The policies under their names. -/
  policyNames : Table Nat := {}

instance : Inhabited Thread := ⟨{}⟩

/-- What all threads share. -/
structure Process where
  /-- The build raises failures. -/
  throwing : Bool := true
  /-- The variables of the environment. -/
  environment : List (String × String) := []
  /-- The settings, once they are loaded. -/
  settings : Option Settings := none
  /-- The settings of the policy of the process, once it is made. -/
  root : Option Settings := none
  /-- The policy of the process is made from the settings that are loaded. -/
  root_eq : root = none ∨ root = settings := by exact .inl rfl
  /-- Events inside the library are logged. -/
  tracing : Bool := false
  /-- What is done about raises. -/
  hook : Hook := .quiet
  /-- How far the hook of the library is put in front. -/
  hookSetup : HookSetup := .pending
  /-- Captured addresses are not to be shown. -/
  addressesHidden : Bool := false
  /-- The place of the statements of source code. -/
  statementSite : Site := Statement.siteApartFrom []
  /-- The addresses of the call stack, innermost first. -/
  walk : List UInt64 := []
  /-- The records so far. -/
  records : Array Record := #[]
  /-- What was written to the diagnostic stream since the last record. -/
  diagnostics : String := ""

instance : Inhabited Process := ⟨{}⟩

namespace Process

/-- A process that has done nothing yet. -/
def initial : Process := {}

/-- The library reports what is raised. -/
def hooked (process : Process) : Bool := process.hook.isReporting

/-- The process with these settings loaded. Its policy is made from them later, so there is none
yet. -/
def withSettings (process : Process) (settings : Settings) : Process :=
  { process with settings := some settings, root := none, root_eq := .inl rfl }

/-- The process with its policy made from the settings that are loaded. -/
def withRoot (process : Process) : Process :=
  { process with root := process.settings, root_eq := .inr rfl }

/-- The policy of the process has the settings that are loaded. -/
theorem settings_of_root {process : Process} {kept : Settings} (h : process.root = some kept) :
    process.settings = some kept := by
  simpa [h, eq_comm] using process.root_eq

end Process

/-- The state of a run. -/
structure Machine where
  /-- What all threads share. -/
  process : Process := {}
  /-- The running thread. -/
  thread : Thread := {}

instance : Inhabited Machine := ⟨{}⟩

/-- Why a run stops short. -/
inductive Interrupt
  /-- Something was raised. -/
  | raised (payload : Payload)
  /-- Something was raised out of a cleanup during unwinding. -/
  | aborted
  /-- The depth of nesting is used up. -/
  | exhausted
  /-- Whoever watches the run stopped it. -/
  | stopped

/-- A part of a run. -/
abbrev Run := EStateM Interrupt Machine

namespace Run

/-- The running thread. -/
def thread : Run Thread := return (← get).thread

/-- What all threads share. -/
def process : Run Process := return (← get).process

/-- Changes the running thread. -/
def modifyThread (change : Thread → Thread) : Run Unit :=
  modify fun machine ↦ { machine with thread := change machine.thread }

/-- Changes what all threads share. -/
def modifyProcess (change : Process → Process) : Run Unit :=
  modify fun machine ↦ { machine with process := change machine.process }

/-- Changes the running thread, and gives what else comes of the change. -/
def updateThread {α : Type} (change : Thread → α × Thread) : Run α :=
  modifyGet fun machine ↦
    let (outcome, thread) := change machine.thread
    (outcome, { machine with thread })

/-- Changes the stack of the running thread, and gives what else comes of the change. -/
def updateStack {α : Type} (change : Stack ObjectId → α × Stack ObjectId) : Run α :=
  updateThread fun thread ↦
    let (outcome, stack) := change thread.stack
    (outcome, { thread with stack })

/-- The number of installed overrides. -/
def height : Run Nat := return (← thread).stack.height

/-- The link to the top of the stack. -/
def current : Run Link := return (← thread).stack.current

/-- Something raised has not been caught yet. -/
def isUnwinding : Run Bool := return (← thread).unwinding != 0

/-- Puts a failure into a slot. -/
def store (slot : String) (failure : Failure) : Run Unit :=
  modifyThread fun thread ↦ { thread with slots := thread.slots.insert slot failure }

end Run

end Escalation
