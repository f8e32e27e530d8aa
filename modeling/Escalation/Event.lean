import Escalation.Failure.Display

/-!
# What is reported

A program reports two things: failures, of which each is recoverable or fatal, and diagnostic lines
(`Event`). A line carries its place and its level of nesting.

A layer that is annotated by a context leaves its mark on both (`Event.annotate`): a failure gets
the remark in front of its chain, and a line moves one level further in, up to the deepest level
there is. `Event.passThrough` is the effect of several layers, the innermost first.
-/

set_option autoImplicit false
set_option relaxedAutoImplicit false

namespace Escalation

/-- Whether the reporting code could go on after a failure. -/
inductive Severity
  /-- The caller may be able to recover. -/
  | recoverable
  /-- Nobody can recover. -/
  | fatal
  deriving DecidableEq, Repr

/-- A diagnostic line. -/
structure Line where
  /-- Where the line was sent. -/
  site : Site
  /-- Its level of nesting. -/
  depth : UInt32
  /-- Its text, line ends included. -/
  text : String
  deriving DecidableEq, Repr, Inhabited

/-- What a program reports. -/
inductive Event
  /-- A failure occurred. -/
  | failure (severity : Severity) (failure : Failure)
  /-- A diagnostic line should be written. -/
  | line (line : Line)
  deriving DecidableEq

/-- What kind of event is meant. -/
inductive EventKind
  /-- A failure of a severity. -/
  | failure (severity : Severity)
  /-- A diagnostic line. -/
  | line
  deriving DecidableEq, Repr

/-- The level of nesting below a level; the deepest one is below itself. -/
def deeper (depth : UInt32) : UInt32 := if depth = 0xffffffff then depth else depth + 1

/-- The line one level further in. -/
def Line.nest (line : Line) : Line := { line with depth := deeper line.depth }

/-- The line that stands for a failure where it is logged: it was sent from the place of the failure
and holds the failure's text. -/
def Failure.asLine (failure : Failure) : Line :=
  { site := failure.site, depth := 0, text := failure.text ++ "\n" }

/-- The effect of one annotated layer on an event. -/
def Event.annotate (remark : Remark) : Event → Event
  | .failure severity reported => .failure severity (reported.annotate remark)
  | .line sent => .line sent.nest

/-- The effect of annotated layers on an event that passes through them one after another. -/
def Event.passThrough (remarks : List Remark) (event : Event) : Event :=
  remarks.foldl (fun passed remark ↦ passed.annotate remark) event

/-- The kind of an event. -/
def Event.kind : Event → EventKind
  | .failure severity _ => .failure severity
  | .line _ => .line

@[simp] theorem Event.kind_annotate (remark : Remark) (event : Event) :
    (event.annotate remark).kind = event.kind := by
  cases event <;> rfl

end Escalation
