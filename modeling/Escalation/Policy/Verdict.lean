import Escalation.Event
import Escalation.Settings

/-!
# What a policy does with a failure

At the end of every chain of handlers stands a policy. It raises a failure or logs it, as its
settings and the state of the thread decide (`Settings.verdict`). Without raising, every failure is
logged. A recoverable failure is not raised while the thread is already unwinding; a fatal one is
raised even then.
-/

set_option autoImplicit false
set_option relaxedAutoImplicit false

namespace Escalation

/-- What becomes of a failure at the end of the chain. -/
inductive Verdict
  /-- The failure is raised. -/
  | raise
  /-- The failure is logged because nothing may be raised. -/
  | log
  /-- The failure is logged because the thread is already unwinding. -/
  | logWhileUnwinding
  deriving DecidableEq, Repr

/-- What a policy with these settings does with a failure. -/
def Settings.verdict (settings : Settings) (severity : Severity) (unwinding : Bool) : Verdict :=
  if settings.throwing then
    match severity with
    | .recoverable => if unwinding then .logWhileUnwinding else .raise
    | .fatal => .raise
  else .log

/-- A failure is raised exactly where raising is available and, if it is recoverable, the thread is
not unwinding. -/
theorem Settings.verdict_eq_raise_iff {settings : Settings} {severity : Severity}
    {unwinding : Bool} : settings.verdict severity unwinding = .raise ↔
      settings.throwing = true ∧ (severity = .recoverable → unwinding = false) := by
  unfold verdict
  cases settings.throwing <;> cases severity <;> cases unwinding <;> simp

end Escalation
