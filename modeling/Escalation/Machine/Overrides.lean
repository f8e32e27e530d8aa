import Escalation.Machine.Raising

/-!
# Installing, releasing and destroying overrides

A part of a run that may run programs takes the interpreter of tasks as an argument (`Exec`), so the
parts can be read, and reasoned about, one at a time: an operation to perform, an event to deliver,
an open list to leave, a guard to release.

An override object belongs to its owners (`Run.acquire`, `Run.relinquish`), and the last one to let
go destroys it, which runs its destructor if it has one. Releasing a guard cuts the stack first and
lets go of what was removed afterwards, outermost first, so a destructor sees the shortened stack
(`Run.release`, `Run.settle`). If one of them raises, the others are still let go, while unwinding.
A release out of order is raised once all this is done, unless the thread is unwinding already.

A list of operations runs in a frame of its own, which holds the guards that the list installed
(`Run.runList`). On every way out the guards that are left are released, the latest first
(`Run.closeFrame`). A cleanup is such a list, too, and may catch what it raises, the release of its
guards included (`Run.runCleanup`).
-/

set_option autoImplicit false
set_option relaxedAutoImplicit false

namespace Escalation

/-- What the interpreter is asked to do. -/
inductive Task
  /-- Performs an operation. -/
  | perform (op : Op)
  /-- Delivers an event to a link. -/
  | deliver (event : Event) (link : Link)
  /-- Releases the guards of the innermost open list and closes it. -/
  | closeFrame
  /-- Releases a guard. -/
  | release (guard : Guard)

/-- An interpreter of tasks. -/
abbrev Exec := Task → Run Unit

namespace Run

/-! ### Ownership of override objects -/

/-- Makes an override object with a single owner. -/
def newObject (override : Override) : Run ObjectId :=
  updateThread fun thread ↦
    (thread.objects.size,
      { thread with objects := thread.objects.push { override, owners := 1 } })

/-- Adds an owner to an override object, and gives what the object does. -/
def acquire (object : ObjectId) : Run (Option Override) :=
  updateThread fun thread ↦
    match thread.objects[object]? with
    | none => (none, thread)
    | some held =>
      (some held.override,
        { thread with
          objects := thread.objects.setIfInBounds object { held with owners := held.owners + 1 } })

/-- Takes an owner away from an override object, and gives what the object does if that was the last
one. -/
def disown (object : ObjectId) : Run (Option Override) :=
  updateThread fun thread ↦
    match thread.objects[object]? with
    | none => (none, thread)
    | some held =>
      (if held.owners = 1 then some held.override else none,
        { thread with
          objects := thread.objects.setIfInBounds object { held with owners := held.owners - 1 } })

/-- Opens a frame for a list of operations. -/
def openFrame : Run Unit :=
  modifyThread fun thread ↦ { thread with frames := [] :: thread.frames }

/-- Runs a list of operations in a frame of its own. -/
def runList (exec : Exec) (ops : List Op) : Run Unit := do
  openFrame
  andFinally (ops.forM fun op ↦ exec (.perform op)) (exec .closeFrame)

/-- Runs a cleanup. What a contained one raises goes no further than a record. -/
def runCleanup (exec : Exec) (place : Place) (cleanup : Cleanup) : Run Unit := do
  let list := withHandling none (runList exec cleanup.ops)
  if cleanup.contained then
    match ← catching list with
    | .ok _ => return
    | .error failure => record (.contained place failure)
  else list

/-- Runs the destructor of an override. -/
def destroy (exec : Exec) : Override → Run Unit
  | .script { name, destructor := some cleanup, .. } => do
    record (.dropped name (← height))
    runCleanup exec .destructor cleanup
  | _ => return

/-- Takes an owner away from an override object, and destroys the object if that was the last
one. -/
def relinquish (exec : Exec) (object : ObjectId) : Run Unit := do
  match ← disown object with
  | none => return
  | some override => destroy exec override

/-- Takes an owner away from each of several objects, one after another. If that raises, the rest
follow while unwinding. -/
def relinquishAll (exec : Exec) : List ObjectId → Run Unit
  | [] => return
  | object :: rest => andFinally (relinquish exec object) (relinquishAll exec rest)

/-! ### Installing and releasing -/

/-- The message raised where the storage of a thread is used after it is gone. -/
def tornDownMessage : String :=
  "cannot access a Thread Local Storage value during or after destruction: AccessError"

/-- Installs an override object that the caller owns; the stack owns it from then on. Where the
storage of the thread is gone, the object is let go first and the failure is raised after that, so
a destructor that runs then does not run while unwinding. -/
def install (exec : Exec) (object : ObjectId) : Run Guard := do
  if (← thread).tornDown then
    updateStack fun stack ↦ ((), stack.skipGeneration)
    relinquish exec object
    raise (.message tornDownMessage)
  else
    let guard ← updateStack fun stack ↦ stack.install object
    traceEvent .trace stackTarget
      ("exception callback installed depth=" ++ toString guard.depth ++
        " generation=" ++ toString guard.generation.toNat)
    return guard

/-- The message of a release out of order. -/
def outOfOrderMessage (depth : Nat) : String :=
  "exception callback at depth " ++ toString depth ++
    " released out of order; overrides must be released in reverse order of installation"

/-- Lets go of what the release of a guard removed, and raises if the release was out of order. -/
def settle (exec : Exec) (guard : Guard) : Release ObjectId → Run Unit
  | .stale =>
    traceEvent .trace stackTarget
      ("stale exception callback guard dropped depth=" ++ toString guard.depth)
  | .inOrder removed => do
    relinquishAll exec removed
    traceEvent .trace stackTarget
      ("exception callback released depth=" ++ toString guard.depth)
  | .outOfOrder removed => do
    relinquishAll exec removed
    if !(← isUnwinding) then raise (.message (outOfOrderMessage guard.depth))

/-- Releases a guard. Nothing happens once the storage of the thread is gone. -/
def release (exec : Exec) (guard : Guard) : Run Unit := do
  if (← thread).tornDown then return
  settle exec guard (← updateStack fun stack ↦ stack.release guard)

/-! ### The guards of open lists -/

/-- Keeps a guard in the innermost open list, or in the outermost one of the thread. -/
def keepGuard (name : String) (guard : Guard) (outermost : Bool) : Run Unit :=
  modifyThread fun thread ↦
    let held : Held := { name, guard }
    let frames :=
      if outermost then
        match thread.frames.reverse with
        | [] => []
        | last :: others => ((held :: last) :: others).reverse
      else
        match thread.frames with
        | [] => []
        | first :: others => (held :: first) :: others
    { thread with frames }

/-- Takes the latest guard of a name out of a frame. -/
def takeFrom? (name : String) : Frame → Option (Guard × Frame)
  | [] => none
  | held :: rest =>
    if held.name = name then some (held.guard, rest)
    else (takeFrom? name rest).map fun found ↦ (found.1, held :: found.2)

/-- Takes the latest guard of a name out of the innermost frame that has one. -/
def takeFromFrames? (name : String) : List Frame → Option (Guard × List Frame)
  | [] => none
  | frame :: rest =>
    match takeFrom? name frame with
    | some (guard, frame) => some (guard, frame :: rest)
    | none => (takeFromFrames? name rest).map fun found ↦ (found.1, frame :: found.2)

/-- Takes a guard out of the open lists by its name. -/
def takeGuard? (name : String) : Run (Option Guard) := do
  match takeFromFrames? name (← thread).frames with
  | none => return none
  | some (guard, frames) =>
    modifyThread fun thread ↦ { thread with frames }
    return some guard

/-- A guard of the open lists by its name. -/
def findGuard? (name : String) : Run (Option Guard) :=
  return (takeFromFrames? name (← thread).frames).map Prod.fst

/-- Releases the latest guard of the innermost open list and goes on with the others; a list without
guards is closed. If a release raises, the others follow while unwinding. -/
def closeFrame (exec : Exec) : Run Unit := do
  match (← thread).frames with
  | [] => return
  | [] :: others => modifyThread fun thread ↦ { thread with frames := others }
  | (held :: rest) :: others =>
    modifyThread fun thread ↦ { thread with frames := rest :: others }
    andFinally (exec (.release held.guard)) (exec .closeFrame)

end Run

end Escalation
