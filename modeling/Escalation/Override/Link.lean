import Escalation.Override.Stack

/-!
# Links of the chain

An event is delivered to a link: to the override at some depth, or to the root, the policy of the
process that stands below all overrides (`Link`). A link names a depth and not an installation: it
means whatever override is at that depth when an event is delivered to it, and the root if none is
(`Stack.resolve`). The link handed on with an event is the one just below.
-/

set_option autoImplicit false
set_option relaxedAutoImplicit false

namespace Escalation

/-- Where an event can be delivered. -/
inductive Link
  /-- The policy of the process. -/
  | root
  /-- The override at a depth. -/
  | override (depth : Nat)
  deriving DecidableEq, Repr, Inhabited

namespace Link

/-- The link just below a depth. -/
def below : (depth : Nat) → Link
  | 0 => .root
  | depth + 1 => .override depth

/-- The text shown for a link. -/
def text : Link → String
  | .root => "Root"
  | .override depth => "Override(" ++ toString depth ++ ")"

@[simp] theorem below_zero : below 0 = .root := rfl

@[simp] theorem below_succ (depth : Nat) : below (depth + 1) = .override depth := rfl

end Link

namespace Stack

variable {α : Type}

/-- The link to the top of the stack. -/
def current (stack : Stack α) : Link := Link.below stack.height

/-- The override that a link means at the moment, and the link below it. -/
def resolve (stack : Stack α) : Link → Option (α × Link)
  | .root => none
  | .override depth =>
    stack.entries[depth]?.map fun installed ↦ (installed.override, Link.below depth)

@[simp] theorem resolve_root (stack : Stack α) : stack.resolve .root = none := rfl

/-- A link at or beyond the height of the stack means the root. -/
theorem resolve_override_of_le {stack : Stack α} {depth : Nat} (h : stack.height ≤ depth) :
    stack.resolve (.override depth) = none := by
  simp only [resolve, Option.map_eq_none_iff]
  exact Array.getElem?_eq_none h

end Stack

end Escalation
