import Escalation.Session
import Escalation.Proofs.Aside

/-!
# Disciplines of programs

What every run of a program has in common is proved once, by going through what the interpreter
does, and not once for each property. A discipline (`Discipline`) says which operations a program
may have and gives a contract for each task: what a dispatch or a whole list of operations keeps,
what a single operation keeps, what closing an open list does, and what releasing a guard does. An
interpreter that keeps all of them is governed by the discipline (`Discipline.Governs`).

A discipline has to hang together, and a list of operations that runs in a frame of its own has to
keep it (`Discipline.Bracketing`). It is operative (`Discipline.Operative`) if the other steps that
matter to overrides keep it, too, such as installing and sharing, and lawful (`Discipline.Lawful`)
if releasing a guard does. From these steps alone it follows that a task performed by an interpreter
that is governed keeps its contract (`Discipline.Governs.permits_step`).
Starting a thread is a matter of its own, as the tasks of that thread are performed on another
stack: a discipline spans threads (`Discipline.SpansThreads`) if waiting for a thread keeps it.

Operations contain others: the lists that they run and the programs of the overrides that they
describe (`Op.inner`). A condition on a program is one that holds for every operation in it, however
deep (`Op.Everywhere`).
-/

set_option autoImplicit false
set_option relaxedAutoImplicit false

namespace Escalation

/-! ### The operations inside an operation -/

/-- The operations of a cleanup, if there is one. -/
def Cleanup.opsOf (cleanup : Option Cleanup) : List Op := (cleanup.map Cleanup.ops).getD []

/-- The operations of all handlers of a script and of its destructor. -/
def Script.ops (script : Script) : List Op :=
  script.onRecoverable.getD [] ++ script.onFatal.getD [] ++ script.onLine.getD [] ++
    Cleanup.opsOf script.destructor

/-- The operations of the override that a recipe describes. -/
def Recipe.ops : Recipe → List Op
  | .script program => program.ops
  | _ => []

/-- The operations of an override. -/
def Override.ops : Override → List Op
  | .script program => program.ops
  | _ => []

/-- The operations directly inside an operation. -/
def Op.inner : Op → List Op
  | .push recipe _ _ | .share recipe _ => recipe.ops
  | .scope body deferred | .guarded body deferred _ => body ++ Cleanup.opsOf deferred
  | .within recipe body => recipe.ops ++ body
  | .thread _ ops _ => ops
  | _ => []

/-- A condition holds for an operation and for every operation inside it. -/
inductive Op.Everywhere (condition : Op → Prop) : Op → Prop
  | intro {op : Op} : condition op → (∀ inner ∈ op.inner, Op.Everywhere condition inner) →
    Op.Everywhere condition op

theorem Script.mem_ops_of_handler {script : Script} {kind : EventKind} {ops : List Op}
    (h : script.handler kind = some ops) {op : Op} (hop : op ∈ ops) : op ∈ script.ops := by
  unfold Script.ops
  cases kind with
  | failure severity =>
    cases severity with
    | recoverable => simp [show script.onRecoverable = some ops from h, hop]
    | fatal => simp [show script.onFatal = some ops from h, hop]
  | line => simp [show script.onLine = some ops from h, hop]

/-- How the guard of an operation that installs an override for the rest of a list is kept: in the
outermost list of the thread or not. -/
def Op.lends? : Op → Option Bool
  | .push _ _ keep | .pushContext _ _ keep | .state (.context _) _ keep => some keep
  | _ => none

/-- An operation that starts a thread. -/
def Op.startsThread : Op → Bool
  | .thread .. => true
  | _ => false

/-- A task that starts a thread. -/
def Task.startsThread : Task → Bool
  | .perform op => op.startsThread
  | _ => false

theorem Task.eq_perform_of_startsThread {task : Task} (h : task.startsThread = true) :
    ∃ plan ops slot, task = .perform (.thread plan ops slot) := by
  cases task with
  | perform op =>
    cases op with
    | thread plan ops slot => exact ⟨plan, ops, slot, rfl⟩
    | _ => cases h
  | _ => cases h

/-! ### Disciplines -/

/-- Nothing stops the tasks that an interpreter performs. -/
def Unstopped (exec : Exec) : Prop := ∀ task, Run.Keeps .anything False (exec task)

/-- What programs may do, and what their tasks keep. -/
structure Discipline where
  /-- A program may have this operation. -/
  allows : Op → Prop
  /-- An override object has only operations that are allowed. -/
  knows : Machine → ObjectId → Prop
  /-- What a dispatch keeps, and a list of operations that is run to its end. -/
  kept : Contract
  /-- What a single operation keeps. -/
  grown : Contract
  /-- What closing the innermost open list keeps. -/
  closing : Contract
  /-- What releasing a guard keeps. -/
  releasing : Guard → Contract
  /-- What holds if the run is stopped. -/
  stop : Prop

namespace Discipline

/-- The contract of a task. -/
def contract (discipline : Discipline) : Task → Contract
  | .perform op =>
    { before := fun machine ↦ discipline.allows op ∧ discipline.grown.before machine
      change := discipline.grown.change }
  | .deliver _ _ => discipline.kept
  | .closeFrame => discipline.closing
  | .release guard => discipline.releasing guard

/-- What a part keeps that is given override objects. -/
def given (discipline : Discipline) (contract : Contract) (objects : List ObjectId) : Contract :=
  { before := fun machine ↦ contract.before machine ∧
      ∀ object ∈ objects, discipline.knows machine object
    change := contract.change }

/-- Every task that an interpreter performs keeps its contract. -/
def Governs (discipline : Discipline) (exec : Exec) : Prop :=
  ∀ task, Run.Keeps (discipline.contract task) discipline.stop (exec task)

/-- A discipline hangs together, and a list of operations in a frame of its own keeps it. -/
class Bracketing (discipline : Discipline) : Prop where
  composable_kept : discipline.kept.Composable
  composable_grown : discipline.grown.Composable
  /-- What is inside an allowed operation is allowed. -/
  allows_inner {op inner : Op} : discipline.allows op → inner ∈ op.inner → discipline.allows inner
  /-- A list can be run wherever a single operation can be performed. -/
  before_kept {machine : Machine} : discipline.grown.before machine →
    discipline.kept.before machine
  /-- What a whole list may change, a single operation may change. -/
  change_grown {machine after : Machine} : discipline.grown.before machine →
    discipline.kept.change machine after → discipline.grown.change machine after
  allows_of_knows {machine : Machine} {object : ObjectId} {held : Object} :
    discipline.knows machine object → machine.thread.objects[object]? = some held →
      ∀ op ∈ held.override.ops, discipline.allows op
  knows_of_resolve {machine : Machine} {link next : Link} {object : ObjectId} :
    discipline.kept.before machine → machine.thread.stack.resolve link = some (object, next) →
      discipline.knows machine object
  knows_of_shared {machine : Machine} {name : String} {object : ObjectId} :
    discipline.kept.before machine → machine.thread.shared.find? name = some object →
      discipline.knows machine object
  knows_of_change {machine after : Machine} {object : ObjectId} :
    discipline.kept.before machine → discipline.kept.change machine after →
      discipline.knows machine object → discipline.knows after object
  /-- A list of operations in a frame of its own. -/
  bracket {exec : Exec} {body tidy : Run Unit} : discipline.Governs exec →
    Run.Keeps discipline.grown discipline.stop body →
      Run.Keeps discipline.kept discipline.stop tidy →
        Run.Keeps discipline.kept discipline.stop (do
          Run.openFrame
          Run.andFinally body (Run.andFinally tidy (exec .closeFrame)))

/-- The steps that matter to overrides keep a discipline, the release of a guard apart. -/
class Operative (discipline : Discipline) : Prop extends discipline.Bracketing where
  /-- A new object does what is allowed if its override does. -/
  newObject {machine after : Machine} {override : Override} {object : ObjectId} :
    discipline.kept.before machine → (∀ op ∈ override.ops, discipline.allows op) →
      Run.newObject override machine = .ok object after →
        discipline.kept.change machine after ∧ discipline.knows after object
  share {machine : Machine} {name : String} {object : ObjectId} :
    discipline.kept.before machine → discipline.knows machine object →
      discipline.kept.change machine { machine with
        thread := { machine.thread with shared := machine.thread.shared.insert name object } }
  unshare {machine : Machine} {name : String} : discipline.kept.before machine →
    discipline.kept.change machine { machine with
      thread := { machine.thread with shared := machine.thread.shared.erase name } }
  /-- A list of operations with an override installed around it. -/
  within {exec : Exec} {object : ObjectId} {body : List Op} : discipline.Governs exec →
    Run.Keeps discipline.kept discipline.stop (Run.runList exec body) →
      Run.Keeps (discipline.given discipline.kept [object]) discipline.stop
        (Run.runWithin exec object body)
  /-- An installation for the rest of a list. -/
  push {exec : Exec} {op : Op} {keep : Bool} {object : ObjectId} {name : String} :
    discipline.Governs exec → discipline.allows op → op.lends? = some keep →
      Run.Keeps (discipline.given discipline.grown [object]) discipline.stop
        (Run.pushObject exec object name keep)
  takeGuard {name : String} :
    discipline.allows (.release name) ∨ discipline.allows (.forget name) →
      Run.Keeps discipline.grown discipline.stop (Run.takeGuard? name)
  releaseHeld {exec : Exec} {name : String} {guard : Guard} : discipline.Governs exec →
    discipline.allows (.release name) →
      Run.Keeps discipline.grown discipline.stop (exec (.release guard))
  closeFrame {exec : Exec} : discipline.Governs exec →
    Run.Keeps discipline.closing discipline.stop (Run.closeFrame exec)

/-- The steps that matter to overrides keep a discipline. -/
class Lawful (discipline : Discipline) : Prop extends discipline.Operative where
  release {exec : Exec} {guard : Guard} : discipline.Governs exec →
    Run.Keeps (discipline.releasing guard) discipline.stop (Run.release exec guard)

/-- Starting a thread and waiting for it keeps a discipline, as long as nothing stops the thread. -/
class SpansThreads (discipline : Discipline) : Prop where
  runThread {exec : Exec} {plan : ThreadPlan} {ops : List Op} {slot : String} :
    Unstopped exec → discipline.allows (.thread plan ops slot) →
      Run.Keeps discipline.grown discipline.stop (Run.runThread exec plan ops)

instance (discipline : Discipline) [discipline.Bracketing] : discipline.kept.Composable :=
  Bracketing.composable_kept

instance (discipline : Discipline) [discipline.Bracketing] : discipline.grown.Composable :=
  Bracketing.composable_grown

/-- Objects that are known stay so, whatever a list does. -/
instance (discipline : Discipline) [discipline.Bracketing] (objects : List ObjectId) :
    (discipline.given discipline.kept objects).Composable :=
  have hkept : discipline.kept.Composable := inferInstance
  { change_of_sameOverrides := fun h hsame ↦ hkept.change_of_sameOverrides h.1 hsame
    before_of_change := fun h hchange ↦ ⟨hkept.before_of_change h.1 hchange,
      fun object hobject ↦ Bracketing.knows_of_change h.1 hchange (h.2 object hobject)⟩
    trans := fun h hchange hlast ↦ hkept.trans h.1 hchange hlast }

end Discipline

end Escalation
