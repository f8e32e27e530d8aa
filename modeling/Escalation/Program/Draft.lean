import Escalation.Failure.Basic
import Escalation.Failure.SystemError

/-!
# Drafts of failures

A program says which failure it wants by a draft: a place, an origin and the remarks to attach
(`Draft`). A failure of most origins captures the walk of the call stack if capturing is switched
on; only a failure with addresses given by hand takes those and asks no setting
(`Origin.consultsSettings`). `Draft.build` makes the failure from the walk, or from nothing where
none is captured.

An error of the operating system becomes a failure of that nature, temporary if its condition passes
by itself.
-/

set_option autoImplicit false
set_option relaxedAutoImplicit false

namespace Escalation

/-- How a failure comes about. -/
inductive Origin
  /-- Classified by hand, with addresses given by hand. -/
  | traced (nature : Nature) (durability : Durability) (description : String)
    (addresses : List UInt64)
  /-- Classified by hand. -/
  | classified (nature : Nature) (durability : Durability) (description : String)
  /-- Reported by the operating system. -/
  | reported (error : SystemError)

namespace Origin

/-- A broken requirement, which is permanent. -/
def precondition (description : String) : Origin :=
  .classified .preconditionViolation .permanent description

/-- A bug, which is permanent. -/
def bug (description : String) : Origin := .classified .internalBug .permanent description

/-- A permanent error of the operating system. -/
def osError (description : String) : Origin := .classified .osError .permanent description

/-- A permanent failure of the network. -/
def networkFailure (description : String) : Origin :=
  .classified .networkFailure .permanent description

/-- A permanent failure of which nothing is known. -/
def unclassified (description : String) : Origin :=
  .classified .unclassified .permanent description

/-- Whether making the failure asks if addresses are to be captured. -/
def consultsSettings : Origin → Bool
  | .traced .. => false
  | .classified .. | .reported _ => true

/-- The failure that arises at a place, where the call stack is `walk` if it is captured and empty
otherwise. -/
def build (site : Site) (walk : List UInt64) : Origin → Failure
  | .traced nature durability description addresses =>
    { site, nature, durability, description, trace := .ofGiven addresses }
  | .classified nature durability description =>
    { site, nature, durability, description, trace := .ofAddresses walk }
  | .reported error =>
    { site, nature := .osError,
      durability := if error.isPassing then .temporary else .permanent,
      description := error.text, trace := .ofAddresses walk }

end Origin

/-- What a program says about a failure that it wants made. -/
structure Draft where
  /-- Where the failure arises. -/
  site : Site
  /-- How it comes about. -/
  origin : Origin
  /-- The remarks to attach, one after another. -/
  remarks : List Remark := []

namespace Draft

/-- The failure of a draft, where the call stack is `walk` if it is captured. -/
def build (draft : Draft) (walk : List UInt64) : Failure :=
  (draft.origin.build draft.site walk).annotateAll draft.remarks

end Draft

end Escalation
