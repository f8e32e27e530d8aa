import Escalation.Policy.Sink
import Escalation.Settings
import Escalation.Text.Indent

/-!
# Policies

A policy is the last link of a chain of handlers: settings, and a sink for the lines that it writes
(`Policy`). The sink is the diagnostic stream of the process unless a writer was supplied. A line is
written behind the policy's own mark, once for each level of nesting (`Policy.lineText`).
-/

set_option autoImplicit false
set_option relaxedAutoImplicit false

namespace Escalation

open Text

/-- Where a policy writes its lines. -/
inductive Sink
  /-- The diagnostic stream of the process. -/
  | diagnostics
  /-- A writer of its own. -/
  | writer (writer : ScriptedWriter)

/-- The last link of a chain of handlers. -/
structure Policy where
  /-- What governs the treatment of failures. -/
  settings : Settings
  /-- Where lines are written. -/
  sink : Sink

namespace Policy

/-- A line as policies with these settings write it. -/
def lineText (settings : Settings) (depth : UInt32) (text : String) : String :=
  indent depth.toNat settings.indent text

/-- The policy with another writer in place of its own, if it has one. -/
def mapWriter (change : ScriptedWriter → ScriptedWriter) : Policy → Policy
  | { settings, sink := .writer writer } => { settings, sink := .writer (change writer) }
  | policy => policy

/-- The structural text of a policy. -/
def structureText (policy : Policy) : String :=
  Layout.inline.record "RootPolicy"
    [("config", policy.settings.structureText .inline),
      ("sink", match policy.sink with
        | .diagnostics => quoted "stderr"
        | .writer _ => quoted "writer")]

end Policy

end Escalation
