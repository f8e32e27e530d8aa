import Escalation.Event
import Escalation.Override.Stack
import Escalation.Policy.Sink
import Escalation.Program.Draft

/-!
# Programs

A program is a list of operations (`Op`). Its operations make, change and show failures, deliver
events to a link of the chain, install and release overrides, raise and catch, and start threads.
An override is described by a `Recipe`; a scripted one has handlers and a destructor that are
programs themselves (`Script`), so programs and overrides are defined together. A destructor, and
what a scope does on leaving, may catch what it raises or let it pass (`Cleanup`).

Operations name what they work on: failures and guards by the slot that holds them, policies and
shared overrides by their name. An operation may name nothing that exists, or be unusable as it
stands (`Op.malformed`); it then is refused (`Refusal`), has no effect, and the program goes on.
-/

set_option autoImplicit false
set_option relaxedAutoImplicit false

namespace Escalation

/-- Why an operation is refused. -/
inductive Refusal
  /-- A field of the operation is unusable. -/
  | badField (field : String)
  /-- There is no such failure. -/
  | noSuchFailure
  /-- There is no such guard. -/
  | noSuchGuard
  /-- There is no such policy. -/
  | noSuchPolicy
  /-- There is no override shared under the name. -/
  | noSuchShared
  /-- There is no statement of the name. -/
  | noSuchStatement
  /-- There is no operation of the name. -/
  | noSuchOperation
  /-- No event is being handled. -/
  | notHandling
  /-- Captured addresses are not to be shown. -/
  | addressesHidden
  deriving DecidableEq, Repr

/-- The text shown for a refusal. -/
def Refusal.message : Refusal → String
  | .badField field => "bad field " ++ field
  | .noSuchFailure => "no such exception"
  | .noSuchGuard => "no such guard"
  | .noSuchPolicy => "no such policy"
  | .noSuchShared => "no such callback"
  | .noSuchStatement => "no such site"
  | .noSuchOperation => "no such operation"
  | .notHandling => "not in a handler"
  | .addressesHidden => "not with captured traces"

/-- What is raised. -/
inductive Payload
  /-- A failure. -/
  | failure (failure : Failure)
  /-- A bare message. -/
  | message (text : String)
  /-- Something that carries no text. -/
  | opaqueValue
  deriving DecidableEq

/-- The severity of a forwarded line in the log of the program. -/
inductive Level
  | error | warn | info | debug | trace
  deriving DecidableEq, Repr

namespace Level

/-- The name of a level as log records show it. -/
def capitals : Level → String
  | .error => "ERROR"
  | .warn => "WARN"
  | .info => "INFO"
  | .debug => "DEBUG"
  | .trace => "TRACE"

/-- The name of a level. -/
def name : Level → String
  | .error => "Error"
  | .warn => "Warn"
  | .info => "Info"
  | .debug => "Debug"
  | .trace => "Trace"

/-- Every level, the most severe first. -/
def all : List Level := [.error, .warn, .info, .debug, .trace]

/-- The level of a name in any ASCII case. -/
def ofName? (name : String) : Option Level :=
  all.find? fun level ↦ level.capitals == name.map Char.toUpper

end Level

/-- Which failure an operation means. -/
inductive Source
  /-- A copy of the one in a slot. -/
  | slot (name : String)
  /-- A copy of the one that is being handled. -/
  | handled
  /-- A new one. -/
  | made (draft : Draft)

/-- Which failure an operation changes in place. -/
inductive Target
  /-- The one in a slot. -/
  | slot (name : String)
  /-- The one that is being handled. -/
  | handled

/-- Which text of a failure a line takes. -/
inductive TextPart
  /-- The text shown for the failure. -/
  | display
  /-- Its description alone. -/
  | description

/-- What a program says about a diagnostic line. Where it says nothing, a line that is being handled
is taken over, and else the line is empty. -/
structure LineRecipe where
  /-- The file of the place. -/
  file : Option String := none
  /-- The line of the place. -/
  line : Option UInt32 := none
  /-- The level of nesting. -/
  depth : Option UInt32 := none
  /-- The text. -/
  text : Option String := none
  /-- A text of a failure, in place of the text. -/
  textOf : Option (TextPart × Source) := none
  /-- What stands in front of the text. -/
  before : String := ""
  /-- What stands behind the text. -/
  behind : String := ""

/-- Where an operation delivers an event. -/
inductive Destination
  /-- The top of the chain. -/
  | current
  /-- The policy of the process. -/
  | root
  /-- The link handed on with the event that is being handled. -/
  | next
  /-- The override at a depth. -/
  | override (depth : Nat)

/-- What a program says about a policy. -/
structure PolicyRecipe where
  /-- Whether failures are raised; otherwise as the build has it. -/
  throwing : Option Bool := none
  /-- Whether addresses are captured. -/
  capturing : Bool := true
  /-- The mark for nested lines. -/
  indent : Char := '_'
  /-- Raising is switched off whatever else is said. -/
  logOnly : Bool := false
  /-- The writer of the policy; otherwise the diagnostic stream. -/
  writer : Option WriterPlan := none

/-- What part of a failure is shown structurally. -/
inductive Part
  /-- All of it. -/
  | whole
  /-- The chain of remarks. -/
  | context
  deriving DecidableEq, Repr

/-- A reporting statement as it stands in source code. -/
inductive Statement
  /-- Reports a failure of a nature unless a condition holds. The condition is quoted in the
  description, before the message if there is one. -/
  | expect (nature : Nature) (holds : Bool) (condition : String) (message : Option String)
  /-- Reports a fatal failure. -/
  | fatal (nature : Nature) (durability : Durability) (description : String)
  /-- Sends a diagnostic line. -/
  | line (text : String)
  /-- Annotates everything reported until its guard is released. -/
  | context (description : String)
  /-- Makes a failure. -/
  | failure (nature : Nature) (durability : Durability) (description : String)
  deriving DecidableEq, Repr

/-- How a thread is started. -/
structure ThreadPlan where
  /-- The name of the thread. -/
  name : Option String := none
  /-- Nothing is caught: what the thread raises ends it. -/
  uncaught : Bool := false
  /-- An override is installed first whose guard is released when the storage of the thread is
  gone. -/
  lateGuard : Bool := false
  deriving Repr

/-- What a cleanup belongs to. -/
inductive Place
  /-- It is the destructor of an override. -/
  | destructor
  /-- A scope does it on leaving. -/
  | deferred
  deriving DecidableEq, Repr

mutual

/-- A list of operations that runs when something ends, outside of any handler. -/
structure Cleanup where
  /-- The list. -/
  ops : List Op
  /-- What the list raises is caught there. -/
  contained : Bool := true

/-- The program of a scripted override. A handler that is missing leaves the event to the link
below. -/
structure Script where
  /-- The name shown in records. -/
  name : String
  /-- What is done with a recoverable failure. -/
  onRecoverable : Option (List Op) := none
  /-- What is done with a fatal failure. -/
  onFatal : Option (List Op) := none
  /-- What is done with a line. -/
  onLine : Option (List Op) := none
  /-- What is done when the last reference to the override goes away. -/
  destructor : Option Cleanup := none

/-- The description of an override. -/
inductive Recipe
  /-- Leaves every event to the link below. -/
  | transparent
  /-- Runs a program for each event. -/
  | script (script : Script)
  /-- Annotates failures and nests lines. -/
  | context (remark : Remark)
  /-- Forwards lines to the log of the program. -/
  | bridge (level : Level)
  /-- Lets the policy of a name decide. -/
  | policy (name : String)
  /-- The override shared under a name. -/
  | shared (name : String)

/-- An operation. -/
inductive Op
  /-- Makes a failure. -/
  | make (slot : String) (draft : Draft)
  /-- Copies a failure. -/
  | copy (source : Source) (slot : String)
  /-- Empties a slot. -/
  | discard (slot : String)
  /-- Annotates a failure in place, `times` times from successive lines. -/
  | annotate (target : Target) (site : Site) (description : String) (times : Nat)
  /-- Shows a failure. -/
  | describe (source : Source)
  /-- Shows up to twenty remarks of a failure behind the first `skip`. -/
  | listContext (source : Source) (skip : Nat)
  /-- Shows a failure structurally. -/
  | inspect (source : Source) (part : Part) (layout : Text.Layout)
  /-- Compares the chains of two failures, each behind some remarks. -/
  | compare (first second : Source) (skipFirst skipSecond : Nat)
  /-- Delivers a failure. -/
  | report (severity : Severity) (source : Source) (destination : Destination)
  /-- Delivers a line. -/
  | log (line : LineRecipe) (destination : Destination)
  /-- Delivers an event of the kind that is being handled to the next link. -/
  | delegate (source : Source) (line : LineRecipe)
  /-- Raises a failure. -/
  | throw (source : Source)
  /-- Raises something that is no failure. -/
  | panic (payload : Payload)
  /-- Executes a statement of source code. -/
  | state (statement : Statement) (slot : String) (keep : Bool)
  /-- Installs an override; `keep` gives its guard to the outermost list of the thread. -/
  | push (recipe : Recipe) (guard : String) (keep : Bool)
  /-- Installs an annotating override. -/
  | pushContext (remark : Remark) (guard : String) (keep : Bool)
  /-- Releases a guard. -/
  | release (guard : String)
  /-- Loses a guard without releasing it. -/
  | forget (guard : String)
  /-- Shows a guard. -/
  | inspectGuard (guard : String)
  /-- Shows the height of the stack and its top. -/
  | inspectStack
  /-- Shares an override under a name. -/
  | share (recipe : Recipe) (name : String)
  /-- Gives up a shared override. -/
  | unshare (name : String)
  /-- Shows an override. -/
  | inspectOverride (recipe : Recipe)
  /-- Runs a list, and a cleanup when the list is left. -/
  | scope (body : List Op) (deferred : Option Cleanup)
  /-- The same behind a catch. -/
  | guarded (body : List Op) (deferred : Option Cleanup) (slot : String)
  /-- Runs a list with an override installed. -/
  | within (recipe : Recipe) (body : List Op)
  /-- Runs a program on a thread of its own and waits for it. -/
  | thread (plan : ThreadPlan) (ops : List Op) (slot : String)
  /-- Makes a policy. -/
  | makePolicy (name : String) (recipe : PolicyRecipe)
  /-- Hands an event to a policy directly. -/
  | handle (policy : String) (kind : EventKind) (source : Source) (line : LineRecipe)
  /-- Shows what the writer of a policy has taken. -/
  | inspectWriter (policy : String)
  /-- Shows the policy of the process. -/
  | inspectRoot
  /-- Sets up the log of the program, which is set up already. -/
  | setUpLog
  /-- Captures addresses into a row of some cells. -/
  | capture (capacity : Nat)
  /-- Has the library report what is raised. -/
  | hook
  /-- An operation that is unusable as it stands. -/
  | malformed (name : String) (refusal : Refusal)

end

instance : Inhabited Cleanup := ⟨{ ops := [] }⟩

instance : Inhabited Script := ⟨{ name := "" }⟩

instance : Inhabited Recipe := ⟨.transparent⟩

instance : Inhabited Op := ⟨.inspectStack⟩

/-- The name of an operation in records. -/
def Op.name : Op → String
  | .make .. => "new"
  | .copy .. => "clone"
  | .discard _ => "drop"
  | .annotate .. => "wrap"
  | .describe _ => "show"
  | .listContext .. => "frames"
  | .inspect .. => "debug"
  | .compare .. => "eq"
  | .report .recoverable .. => "recoverable"
  | .report .fatal .. => "fatal"
  | .log .. => "log"
  | .delegate .. => "next"
  | .throw _ => "throw"
  | .panic _ => "panic"
  | .state .. => "macro"
  | .push .. => "push"
  | .pushContext .. => "push_context"
  | .release _ => "release"
  | .forget _ => "forget"
  | .inspectGuard _ => "guard"
  | .inspectStack => "state"
  | .share .. => "name"
  | .unshare _ => "unname"
  | .inspectOverride _ => "info"
  | .scope .. => "scope"
  | .guarded .. => "catch"
  | .within .. => "with"
  | .thread .. => "thread"
  | .makePolicy .. => "policy"
  | .handle .. => "handle"
  | .inspectWriter _ => "written"
  | .inspectRoot => "root"
  | .setUpLog => "init_logging"
  | .capture _ => "capture"
  | .hook => "hook"
  | .malformed name _ => name

end Escalation
