/-!
# How a failure is classified

A failure has a nature, which says what kind of condition caused it, and a durability, which says
whether trying again could plausibly succeed. Both are closed sets of words. Every word has a name,
used wherever a failure is stored, and a text, used wherever it is shown to a reader. The names are
distinct (`Nature.ofName?_name`, `Durability.ofName?_name`); the texts of the natures are not
prefix-free: `error` begins `error from OS`.
-/

set_option autoImplicit false
set_option relaxedAutoImplicit false

namespace Escalation

/-- What kind of condition caused a failure. -/
inductive Nature
  /-- The caller broke a documented requirement. -/
  | preconditionViolation
  /-- The code found itself inconsistent. -/
  | internalBug
  /-- The operating system reported an error. -/
  | osError
  /-- A remote peer or the network failed. -/
  | networkFailure
  /-- Nothing more specific is known. -/
  | unclassified
  deriving DecidableEq, Repr, Inhabited

namespace Nature

/-- Every nature, in the order of declaration. -/
def all : List Nature :=
  [.preconditionViolation, .internalBug, .osError, .networkFailure, .unclassified]

/-- The name under which a nature is stored. -/
def name : Nature → String
  | .preconditionViolation => "PreconditionViolation"
  | .internalBug => "InternalBug"
  | .osError => "OsError"
  | .networkFailure => "NetworkFailure"
  | .unclassified => "Unclassified"

/-- The text shown for a nature. -/
def text : Nature → String
  | .preconditionViolation => "requirement not met"
  | .internalBug => "bug in code"
  | .osError => "error from OS"
  | .networkFailure => "network failure"
  | .unclassified => "error"

/-- The nature of a name. -/
def ofName? (name : String) : Option Nature :=
  all.find? fun nature ↦ nature.name == name

/-- A nature is found under its own name. -/
@[simp] theorem ofName?_name (nature : Nature) : ofName? nature.name = some nature := by
  cases nature <;> decide

end Nature

/-- Whether trying the failed operation again could plausibly succeed. -/
inductive Durability
  /-- The same operation may succeed later. -/
  | temporary
  /-- Trying again is futile without a change of state. -/
  | permanent
  deriving DecidableEq, Repr, Inhabited

namespace Durability

/-- Every durability, in the order of declaration. -/
def all : List Durability := [.temporary, .permanent]

/-- The name under which a durability is stored. -/
def name : Durability → String
  | .temporary => "Temporary"
  | .permanent => "Permanent"

/-- The text shown for a durability. -/
def text : Durability → String
  | .temporary => "temporary"
  | .permanent => "permanent"

/-- The durability of a name. -/
def ofName? (name : String) : Option Durability :=
  all.find? fun durability ↦ durability.name == name

/-- A durability is found under its own name. -/
@[simp] theorem ofName?_name (durability : Durability) :
    ofName? durability.name = some durability := by
  cases durability <;> decide

end Durability

end Escalation
