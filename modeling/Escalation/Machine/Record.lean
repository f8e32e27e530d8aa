import Escalation.Override.Link
import Escalation.Policy.Basic
import Escalation.Program.Op

/-!
# Records

A run leaves a list of records, in the order in which things happen (`Record`). An operation that
completes leaves its answer (`Answer`), one that is refused leaves the reason, and one out of which
something is raised leaves nothing of its own. In between stand the records of what happened to
events, overrides and threads, and of what was written to the diagnostic stream and to the log.
-/

set_option autoImplicit false
set_option relaxedAutoImplicit false

namespace Escalation

/-- What an operation answers. -/
inductive Answer
  /-- It returned. -/
  | returned
  /-- The list of a scope ran to its end. -/
  | completed
  /-- A thread ended without raising. -/
  | joined
  /-- Yes or no. -/
  | flag (value : Bool)
  /-- A failure. -/
  | failure (failure : Failure)
  /-- A failure with its texts. -/
  | described (failure : Failure)
  /-- The number of remarks of a failure. -/
  | contextDepth (depth : Nat)
  /-- The texts of remarks, and whether there are more. -/
  | remarks (lines : List String) (more : Bool)
  /-- A structural text. -/
  | text (text : String)
  /-- Whether two chains are equal. -/
  | equality (equal : Bool)
  /-- A depth of the stack. -/
  | depth (depth : Nat)
  /-- A guard: its depth and its structural text. -/
  | guard (depth : Nat) (structureText : String)
  /-- The height of the stack and its top. -/
  | stack (height : Nat) (current : Link)
  /-- Whether something was replaced. -/
  | replaced (value : Bool)
  /-- An annotating override: its description and its structural text. -/
  | context (description structureText : String)
  /-- A forwarding override: its level and its structural text. -/
  | bridge (level : Level) (structureText : String)
  /-- The list behind a catch ran to its end; it has this many operations. -/
  | ok (length : Nat)
  /-- Something was raised and caught. -/
  | raised (failure : Failure)
  /-- The height of the stack inside an installation, and behind it. -/
  | heights (inside behind : Nat)
  /-- A policy: its settings and its structural text. -/
  | policy (settings : Settings) (structureText : String)
  /-- What a writer has taken, and its calls and flushes. -/
  | written (data : List UInt8) (writes flushes : Nat)
  /-- The number of cells filled, and of cells that are not zero. -/
  | captured (count nonzero : Nat)

/-- Something that happened during a run. -/
inductive Record
  /-- An operation completed. -/
  | performed (op : String) (answer : Answer)
  /-- An operation was refused. -/
  | refused (op : String) (refusal : Refusal)
  /-- Operation number `index` of a thread is over, with what it raised. -/
  | done (index height : Nat) (raised : Option Failure)
  /-- A scripted override received an event. -/
  | received (name : String) (event : Event) (next : Link)
  /-- The last reference to a scripted override with a destructor went away. -/
  | dropped (name : String) (height : Nat)
  /-- Something was raised out of a list and caught there. -/
  | contained (place : Place) (raised : Failure)
  /-- The list that a scope runs on leaving begins. -/
  | deferred (unwinding : Bool)
  /-- What was written to the diagnostic stream since the record before. -/
  | diagnostics (text : String)
  /-- A record of the log. -/
  | logged (level : Level) (target text : String)
  /-- A hook noted something that was raised. -/
  | passedOn (message : Option String)
  /-- The late guard of a thread is about to be released. -/
  | lateStart (height : Nat) (current : Link)
  /-- The late guard of a thread has been released. -/
  | lateReleased
  /-- A thread has released its guards, and what that raised. -/
  | ended (height : Nat) (raised : Option Failure)
  /-- A program raised something that nothing caught. -/
  | uncaught (failure : Failure)

end Escalation
