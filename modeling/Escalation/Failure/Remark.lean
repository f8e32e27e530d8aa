/-!
# Chains of remarks

A remark is what one layer says about the failures that pass through it. The remarks of a failure
form a chain, the most recently attached one first: a chain is empty, or it is a remark and the
chain behind it.

Whatever is done with a chain goes over it remark by remark, in a loop, so that a chain of any length
can be copied, compared and shown. A loop is driven by a walk, which holds what is still ahead and
gives one remark at a time (`Walk.next?`, `Walk.foldl`).
-/

set_option autoImplicit false
set_option relaxedAutoImplicit false

namespace Escalation

/-- A place in a source text. -/
structure Site where
  /-- The file. -/
  file : String
  /-- The line, counted from one; zero where no line is known. -/
  line : UInt32
  deriving DecidableEq, Repr, Inhabited

/-- What one layer says about the failures that pass through it. -/
structure Remark where
  /-- Where the layer attached it. -/
  site : Site
  /-- What the layer was doing. -/
  description : String
  deriving DecidableEq, Repr, Inhabited

/-- What two remarks are compared by. -/
def Remark.key (remark : Remark) : String × UInt32 × String :=
  (remark.site.file, remark.site.line, remark.description)

/-- A walk along a chain of remarks. -/
structure Walk where
  /-- The chain that is still ahead. -/
  ahead : List Remark

namespace Walk

/-- The next remark, and the walk behind it. -/
def next? (walk : Walk) : Option (Remark × Walk) :=
  match walk.ahead with
  | [] => none
  | remark :: rest => some (remark, { ahead := rest })

/-- A step leaves less ahead. -/
theorem length_of_next? {walk rest : Walk} {remark : Remark}
    (h : walk.next? = some (remark, rest)) : rest.ahead.length < walk.ahead.length := by
  unfold next? at h
  split at h
  · cases h
  · next hahead =>
    cases h
    simp [hahead]

/-- Walks to the end and takes up one remark after the other. -/
def foldl {α : Type} (take : α → Remark → α) (start : α) (walk : Walk) : α :=
  match _step : walk.next? with
  | none => start
  | some (remark, rest) => rest.foldl take (take start remark)
termination_by walk.ahead.length
decreasing_by exact length_of_next? _step

/-- The remarks that are ahead, in a row. -/
def collect (walk : Walk) : Array Remark := walk.foldl Array.push #[]

/-- The number of remarks that are ahead. -/
def count (walk : Walk) : Nat := walk.foldl (fun passed _ ↦ passed + 1) 0

/-- The walk some steps on; one that is at its end stays there. -/
def advance (walk : Walk) : (steps : Nat) → Walk
  | 0 => walk
  | steps + 1 =>
    match walk.next? with
    | none => walk
    | some (_, rest) => rest.advance steps

/-- Two walks give the same remarks, side by side, and end together. -/
def agrees (walk other : Walk) : Bool :=
  match _step : walk.next? with
  | none => other.next?.isNone
  | some (remark, rest) =>
    match other.next? with
    | none => false
    | some (remark', rest') => if remark.key = remark'.key then rest.agrees rest' else false
termination_by walk.ahead.length
decreasing_by exact length_of_next? _step

end Walk

namespace Remark

/-- A copy of a remark, part by part. -/
def copy (remark : Remark) : Remark :=
  { site := { file := remark.site.file, line := remark.site.line }
    description := remark.description }

/-- A copy of a chain. The remarks behind the first one are collected, and the chain is built again
from the outermost of them inward. -/
def copyChain : List Remark → List Remark
  | [] => []
  | head :: behind =>
    let outer := ({ ahead := behind } : Walk).collect
    head.copy :: outer.foldr (fun remark rebuilt ↦ remark.copy :: rebuilt) []

/-- Two chains are equal: both are empty, or neither is and the walks along them agree. -/
def sameChain : (chain other : List Remark) → Bool
  | [], [] => true
  | head :: behind, head' :: behind' =>
    ({ ahead := head :: behind } : Walk).agrees { ahead := head' :: behind' }
  | _, _ => false

end Remark

end Escalation
