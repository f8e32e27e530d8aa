/-!
# The stack of overrides

Every thread has a stack of installed overrides; the depth of an override is its distance from the
outermost one, which has depth zero. Installing an override appends it and gives a guard, which
remembers the depth and a number that tells this installation from all others of the thread, its
generation (`Stack.install`).

Releasing a guard cuts the stack down to the guard's depth, provided the override at that depth is
still the guard's own (`Stack.release`). All overrides above it go with it, and the release was out
of order if there were any. A guard whose override is gone is stale, and releasing it changes
nothing, even if another override sits at its depth by now (`release_of_not_owns`).

Generations are words of 64 bits and start again at zero after the greatest one.
-/

set_option autoImplicit false
set_option relaxedAutoImplicit false

namespace Escalation

/-- An installed override and the number of its installation. -/
structure Installed (α : Type) where
  /-- The number of the installation. -/
  generation : UInt64
  /-- What was installed. -/
  override : α
  deriving DecidableEq, Repr

/-- The right to release one installation. -/
structure Guard where
  /-- Where the override sits. -/
  depth : Nat
  /-- The number of the installation. -/
  generation : UInt64
  deriving DecidableEq, Repr

/-- The overrides of a thread, outermost first, and the number of the next installation. -/
structure Stack (α : Type) where
  /-- The installed overrides, outermost first. -/
  entries : Array (Installed α) := #[]
  /-- The number of the next installation. -/
  nextGeneration : UInt64 := 0
  deriving Repr

/-- What the release of a guard removed. -/
inductive Release (α : Type)
  /-- Nothing: the override was gone already. -/
  | stale
  /-- The override of the guard alone. -/
  | inOrder (removed : List α)
  /-- The override of the guard and those above it, outermost first. -/
  | outOfOrder (removed : List α)
  deriving DecidableEq, Repr

namespace Stack

variable {α : Type}

instance : Inhabited (Stack α) := ⟨{}⟩

/-- The number of installed overrides. -/
def height (stack : Stack α) : Nat := stack.entries.size

/-- The stack with one more override on top, and the guard of the installation. -/
def install (stack : Stack α) (override : α) : Guard × Stack α :=
  let generation := stack.nextGeneration
  ({ depth := stack.height, generation },
    { entries := stack.entries.push { generation, override }, nextGeneration := generation + 1 })

/-- The stack as it is where an installation failed: its number is used up. -/
def skipGeneration (stack : Stack α) : Stack α :=
  { stack with nextGeneration := stack.nextGeneration + 1 }

/-- The override at the depth of a guard is the one that the guard was given for. -/
def owns (stack : Stack α) (guard : Guard) : Bool :=
  stack.entries[guard.depth]?.any fun installed ↦ installed.generation == guard.generation

/-- The stack without the override of a guard and all above it, and what that removed. -/
def release (stack : Stack α) (guard : Guard) : Release α × Stack α :=
  if stack.owns guard then
    let removed := (stack.entries.extract guard.depth).toList.map Installed.override
    let released := if stack.height = guard.depth + 1 then .inOrder removed else .outOfOrder removed
    (released, { stack with entries := stack.entries.shrink guard.depth })
  else (.stale, stack)

/-- All overrides, outermost first, and the stack without them. -/
def clear (stack : Stack α) : List α × Stack α :=
  (stack.entries.toList.map Installed.override, { stack with entries := #[] })

/-! ### What the operations do to the entries -/

section Lemmas

variable (stack : Stack α) (override : α) (guard : Guard)

@[simp] theorem depth_install : (stack.install override).1.depth = stack.height := rfl

@[simp] theorem generation_install :
    (stack.install override).1.generation = stack.nextGeneration := rfl

@[simp] theorem entries_install : (stack.install override).2.entries =
    stack.entries.push { generation := stack.nextGeneration, override } := rfl

@[simp] theorem height_install : (stack.install override).2.height = stack.height + 1 := by
  simp [height]

/-- A guard owns its installation. -/
theorem owns_install : (stack.install override).2.owns (stack.install override).1 = true := by
  simp [owns, height]

/-- Releasing a guard whose override is gone changes nothing. -/
theorem release_of_not_owns (h : stack.owns guard = false) :
    stack.release guard = (.stale, stack) := by
  simp [release, h]

/-- Releasing a guard that owns its override cuts the stack below it. -/
theorem entries_release_of_owns (h : stack.owns guard = true) :
    (stack.release guard).2.entries = stack.entries.take guard.depth := by
  simp [release, h, Array.shrink_eq_take]

end Lemmas

end Stack

end Escalation
