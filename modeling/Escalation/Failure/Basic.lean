import Escalation.Failure.Class
import Escalation.Failure.Remark
import Escalation.Failure.Trace

/-!
# Failures

A failure is a value: where it arose, how it is classified, what is said about it, the return
addresses at that moment, and a chain of remarks. Everything but the chain is fixed when the
failure is made. The chain narrates the layers that the failure passed through, the most recently
attached remark first; `annotate` puts one more in front and changes nothing else
(`context_annotate` and its companions).

The chain may be of any length. It is gone over by walks (`contexts`), and a copy of a failure holds a
copy of the chain (`copy`).
-/

set_option autoImplicit false
set_option relaxedAutoImplicit false

namespace Escalation

/-- A classified failure. -/
structure Failure where
  /-- Where the failure arose. -/
  site : Site
  /-- What kind of condition caused it. -/
  nature : Nature
  /-- Whether trying again could plausibly succeed. -/
  durability : Durability
  /-- What is said about it; empty where nothing is. -/
  description : String
  /-- The return addresses at the moment it was made. -/
  trace : Trace
  /-- The remarks, the most recently attached one first. -/
  context : List Remark := []
  deriving DecidableEq, Inhabited

namespace Failure

/-- The failure with one more remark in front of its chain. -/
def annotate (remark : Remark) (failure : Failure) : Failure :=
  { failure with context := remark :: failure.context }

/-- The failure annotated by each of a list of remarks in turn, so that the last one ends up in
front. -/
def annotateAll (remarks : List Remark) (failure : Failure) : Failure :=
  remarks.foldl (fun annotated remark ↦ annotated.annotate remark) failure

/-- The failure annotated `times` times with one description from successive lines of a file,
beginning with `site`. The line after the greatest one is zero. -/
def annotateRepeatedly (site : Site) (description : String) :
    (times : Nat) → Failure → Failure
  | 0, failure => failure
  | times + 1, failure =>
    annotateRepeatedly { site with line := site.line + 1 } description times
      (failure.annotate { site, description })

/-- A walk along the chain. -/
def contexts (failure : Failure) : Walk := { ahead := failure.context }

/-- The number of remarks. -/
def contextDepth (failure : Failure) : Nat := failure.contexts.count

/-- The chain from its remark number `skip` on; empty if it has none. -/
def contextFrom (failure : Failure) (skip : Nat) : List Remark :=
  (failure.contexts.advance skip).ahead

/-- A copy of a failure, its chain included. -/
def copy (failure : Failure) : Failure :=
  { site := { file := failure.site.file, line := failure.site.line }
    nature := failure.nature
    durability := failure.durability
    description := failure.description
    trace := { cells := failure.trace.cells, used := failure.trace.used
               used_le := failure.trace.used_le }
    context := Remark.copyChain failure.context }

/-! ### What annotating changes -/

section Annotate

variable (remark : Remark) (failure : Failure)

@[simp] theorem context_annotate :
    (failure.annotate remark).context = remark :: failure.context := rfl

@[simp] theorem site_annotate : (failure.annotate remark).site = failure.site := rfl

@[simp] theorem nature_annotate : (failure.annotate remark).nature = failure.nature := rfl

@[simp] theorem durability_annotate :
    (failure.annotate remark).durability = failure.durability := rfl

@[simp] theorem description_annotate :
    (failure.annotate remark).description = failure.description := rfl

@[simp] theorem trace_annotate : (failure.annotate remark).trace = failure.trace := rfl

end Annotate

end Failure

end Escalation
