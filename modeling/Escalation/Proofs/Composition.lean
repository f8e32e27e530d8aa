import Escalation.Proofs.Output
import Escalation.Session

/-!
# Properties of all parts of runs

Every task is made of few things: steps on the thread, records, text on the diagnostic stream, the
settings and the copy of them that the policy of the process has, a look at the rest of what threads
share, raising, and putting the hook in front, put together one after another, behind catches and
with cleanups. A property of parts that these have
and that passes from parts to what is made of them is compositional (`Run.Compositional`), and all
tasks have it with any depth of nesting (`Interpreter.holds_run`). Nothing is said in a property
about which override, operation or event a part has to do with, so a new one of these needs no new
argument.

Raising shows what is raised to the hook. A property for which looking at the hook is a step like
any other is elementary (`Run.Elementary`), and has raising from its other steps.
-/

set_option autoImplicit false
set_option relaxedAutoImplicit false

namespace Escalation

/-! ### Compositional properties -/

namespace Run

/-- No other part of the library logs under the name of the one that loads settings. -/
@[simp] theorem targets_ne_settingsTarget : stackTarget ≠ settingsTarget ∧
    rootTarget ≠ settingsTarget ∧ bridgeTarget ≠ settingsTarget := by decide

end Run

/-- The warning that unusable settings were replaced. -/
@[simp] def Record.isWarning : Record → Bool
  | .logged _ target _ => target == Run.settingsTarget
  | _ => false

/-- What threads share apart from the settings, the variables that they are loaded from and what
came out so far. -/
def Process.given (process : Process) : Process :=
  { initial with
    throwing := process.throwing, tracing := process.tracing, hook := process.hook
    hookSetup := process.hookSetup, addressesHidden := process.addressesHidden
    statementSite := process.statementSite, walk := process.walk }

/-- What threads share and no run changes, apart from the variables. -/
def Process.basis (process : Process) : Process :=
  { process.given with hook := .quiet, hookSetup := .pending }

namespace Run

/-- A part has a property. -/
def Holds (property : ∀ α : Type, Run α → Prop) {α : Type} (part : Run α) : Prop := property α part

/-- A property that the steps of runs have and that passes to what is made of parts with it. -/
class Compositional (property : ∀ α : Type, Run α → Prop) : Prop where
  pure {α : Type} (value : α) : Holds property (Pure.pure value : Run α)
  throw {α : Type} (interrupt : Interrupt) : (∀ payload, interrupt ≠ .raised payload) →
    Holds property (throw interrupt : Run α)
  raise {α : Type} (payload : Payload) : Holds property (raise payload : Run α)
  bind {α β : Type} {part : Run α} {next : α → Run β} : Holds property part →
    (∀ value, Holds property (next value)) → Holds property (part >>= next)
  andFinally {α : Type} {body : Run α} {cleanup : Run Unit} : Holds property body →
    Holds property cleanup → Holds property (Run.andFinally body cleanup)
  intercept {α : Type} {body : Run α} : Holds property body → Holds property (Run.intercept body)
  updateThread {α : Type} (change : Thread → α × Thread) : Holds property (updateThread change)
  observe {α : Type} {next : Process → Run α} : (∀ process, next process = next process.basis) →
    (∀ process, Holds property (next process)) → Holds property (process >>= next)
  record (entry : Record) : ¬entry.isWarning = true → Holds property (record entry)
  writeDiagnostics (text : String) : Holds property (writeDiagnostics text)
  settings : Holds property settings
  rootSettings : Holds property rootSettings
  installHook : Holds property installHook

/-- A property that raising has because its steps have it, a look at the hook and a change of it
among them. -/
class Elementary (property : ∀ α : Type, Run α → Prop) : Prop where
  pure {α : Type} (value : α) : Holds property (Pure.pure value : Run α)
  throw {α : Type} (interrupt : Interrupt) : Holds property (throw interrupt : Run α)
  bind {α β : Type} {part : Run α} {next : α → Run β} : Holds property part →
    (∀ value, Holds property (next value)) → Holds property (part >>= next)
  andFinally {α : Type} {body : Run α} {cleanup : Run Unit} : Holds property body →
    Holds property cleanup → Holds property (Run.andFinally body cleanup)
  intercept {α : Type} {body : Run α} : Holds property body → Holds property (Run.intercept body)
  updateThread {α : Type} (change : Thread → α × Thread) : Holds property (updateThread change)
  observe {α : Type} {next : Process → Run α} : (∀ process, next process = next process.given) →
    (∀ process, Holds property (next process)) → Holds property (process >>= next)
  record (entry : Record) : ¬entry.isWarning = true → Holds property (record entry)
  writeDiagnostics (text : String) : Holds property (writeDiagnostics text)
  settings : Holds property settings
  rootSettings : Holds property rootSettings
  changeHook (change : Hook → Hook) (hookSetup : HookSetup) :
    Holds property (modifyProcess fun process ↦
      { process with hook := change process.hook, hookSetup })

namespace Elementary

variable {property : ∀ α : Type, Run α → Prop} [Elementary property]

theorem reportRaise (payload : Payload) : Holds property (reportRaise payload) := by
  refine Elementary.observe (fun _ ↦ rfl) fun process ↦ ?_
  refine Elementary.bind (updateThread fun thread ↦ (thread, thread)) fun thread ↦ ?_
  induction process.hook.notices { thread := thread.name, payload } with
  | nil => exact Elementary.pure _
  | cons notice rest ih =>
    refine Elementary.bind ?_ fun _ ↦ ih
    cases notice with
    | written text => exact Elementary.writeDiagnostics text
    | noted message => exact Elementary.record _ (by simp)

theorem raise {α : Type} (payload : Payload) : Holds property (raise payload : Run α) := by
  refine Elementary.bind (updateThread fun thread ↦
    ((), { thread with unwinding := thread.unwinding + 1 })) fun _ ↦ ?_
  exact Elementary.bind (reportRaise payload) fun _ ↦ Elementary.throw _

theorem installHook : Holds property installHook := by
  refine Elementary.observe (fun _ ↦ rfl) fun process ↦ ?_
  split
  · exact Elementary.pure _
  · exact raise _
  · refine Elementary.bind (Elementary.bind (updateThread fun thread ↦ (thread, thread))
      fun _ ↦ Elementary.pure _) fun unwinding ↦ ?_
    split
    · exact Elementary.bind (Elementary.changeHook id .poisoned) fun _ ↦ raise _
    · exact Elementary.changeHook .reporting .done

end Elementary

/-- What an elementary property asks for is what a compositional one asks for. -/
instance {property : ∀ α : Type, Run α → Prop} [Elementary property] : Compositional property where
  pure := Elementary.pure
  throw interrupt _ := Elementary.throw interrupt
  raise := Elementary.raise
  bind := Elementary.bind
  andFinally := Elementary.andFinally
  intercept := Elementary.intercept
  updateThread := Elementary.updateThread
  observe hsame := Elementary.observe fun process ↦ by rw [hsame, hsame process.given]; rfl
  record := Elementary.record
  writeDiagnostics := Elementary.writeDiagnostics
  settings := Elementary.settings
  rootSettings := Elementary.rootSettings
  installHook := Elementary.installHook

namespace Holds

variable {property : ∀ α : Type, Run α → Prop} [Compositional property] {α β : Type}

@[simp] theorem pure (value : α) : Holds property (Pure.pure value : Run α) :=
  Compositional.pure value

@[simp] theorem throw {interrupt : Interrupt} (h : ∀ payload, interrupt ≠ .raised payload) :
    Holds property (throw interrupt : Run α) := Compositional.throw interrupt h

@[simp] theorem raise (payload : Payload) : Holds property (raise payload : Run α) :=
  Compositional.raise payload

@[simp] theorem updateThread (change : Thread → α × Thread) :
    Holds property (updateThread change) := Compositional.updateThread change

@[simp] theorem thread : Holds property thread :=
  Compositional.updateThread fun thread ↦ (thread, thread)

@[simp] theorem modifyThread (change : Thread → Thread) : Holds property (modifyThread change) :=
  Compositional.updateThread fun thread ↦ ((), change thread)

@[simp] theorem bind {part : Run α} {next : α → Run β} (hpart : Holds property part)
    (hnext : ∀ value, Holds property (next value)) : Holds property (part >>= next) :=
  Compositional.bind hpart hnext

@[simp] theorem map {part : Run α} (change : α → β) (hpart : Holds property part) :
    Holds property (change <$> part) := by
  rw [map_eq_pure_bind]
  exact hpart.bind fun _ ↦ .pure _

@[simp] theorem forM {γ : Type} {items : List γ} {part : γ → Run Unit}
    (h : ∀ item, Holds property (part item)) : Holds property (ForM.forM items part) := by
  induction items with
  | nil => exact .pure _
  | cons item rest ih =>
    rw [List.forM_cons]
    exact (h item).bind fun _ ↦ ih

@[simp] theorem intercept {body : Run α} (hbody : Holds property body) :
    Holds property (Run.intercept body) := Compositional.intercept hbody

@[simp] theorem andFinally {body : Run α} {cleanup : Run Unit} (hbody : Holds property body)
    (hcleanup : Holds property cleanup) : Holds property (Run.andFinally body cleanup) :=
  Compositional.andFinally hbody hcleanup

/-- A look at what threads share and no run changes. -/
theorem observe {next : Process → Run α} (hsame : ∀ process, next process = next process.basis)
    (hnext : ∀ process, Holds property (next process)) : Holds property (process >>= next) :=
  Compositional.observe hsame hnext

/-! ### Output and settings -/

@[simp] theorem record (entry : Record) (hentry : ¬entry.isWarning = true) :
    Holds property (record entry) := Compositional.record entry hentry

@[simp] theorem writeDiagnostics (text : String) : Holds property (writeDiagnostics text) :=
  Compositional.writeDiagnostics text

@[simp] theorem settings : Holds property settings := Compositional.settings

@[simp] theorem rootSettings : Holds property rootSettings := Compositional.rootSettings

/-- Events inside the library are no warnings, those of loading the settings apart. -/
@[simp] theorem traceEvent {target : String} (htarget : target ≠ settingsTarget) (level : Level)
    (text : String) : Holds property (traceEvent level target text) := by
  refine .observe (fun _ ↦ rfl) fun process ↦ ?_
  split
  · exact .record _ (by simp [htarget])
  · exact .pure _

@[simp] theorem build (draft : Draft) : Holds property (build draft) := by
  unfold Run.build
  split
  · exact settings.bind fun settings ↦ .observe (fun _ ↦ rfl) fun _ ↦ .pure _
  · exact .pure _

@[simp] theorem installHook : Holds property installHook := Compositional.installHook

@[simp] theorem absorb (payload : Payload) : Holds property (absorb payload) := by
  cases payload <;> simp [Run.absorb]

/-! ### Lists, catches and refusals -/

@[simp] theorem newObject (override : Override) : Holds property (newObject override) := by
  simp [Run.newObject]

@[simp] theorem acquire (object : ObjectId) : Holds property (acquire object) := by
  simp [Run.acquire]

@[simp] theorem disown (object : ObjectId) : Holds property (disown object) := by
  simp [Run.disown]

@[simp] theorem height : Holds property height := by simp [Run.height]

@[simp] theorem current : Holds property current := by simp [Run.current]

@[simp] theorem isUnwinding : Holds property isUnwinding := by simp [Run.isUnwinding]

@[simp] theorem store (slot : String) (failure : Failure) :
    Holds property (store slot failure) := by
  simp [Run.store]

@[simp] theorem catching {body : Run α} (hbody : Holds property body) :
    Holds property (Run.catching body) := by
  refine hbody.intercept.bind fun outcome ↦ ?_
  cases outcome <;> simp

@[simp] theorem withHandling {handling : Option Handling} {body : Run α}
    (hbody : Holds property body) : Holds property (Run.withHandling handling body) := by
  refine Holds.thread.bind fun thread ↦ ?_
  exact (Holds.modifyThread _).bind fun _ ↦ hbody.andFinally (.modifyThread _)

/-- An operation goes on with a value unless it is refused. -/
@[simp] theorem run_bind {part : Attempt α} {next : α → Attempt β} (hpart : Holds property part.run)
    (hnext : ∀ value, Holds property (next value).run) : Holds property (part >>= next).run := by
  rw [ExceptT.run_bind]
  refine hpart.bind fun outcome ↦ ?_
  cases outcome <;> simp [hnext]

@[simp] theorem run_pure (value : α) : Holds property (Pure.pure value : Attempt α).run :=
  .pure (Except.ok value)

@[simp] theorem run_liftM {part : Run α} (hpart : Holds property part) :
    Holds property (liftM part : Attempt α).run := hpart.map Except.ok

/-- A look at what threads share, where an operation goes on unless it is refused. -/
theorem run_observe {next : Process → Attempt α}
    (hsame : ∀ process, next process = next process.basis)
    (hnext : ∀ process, Holds property (next process).run) :
    Holds property (liftM process >>= next : Attempt α).run := by
  have hrun : (liftM Run.process >>= next : Attempt α).run =
      (Run.process >>= fun process ↦ (next process).run) := by
    rw [ExceptT.run_bind]
    change (Except.ok <$> Run.process) >>= _ = _
    rw [map_eq_pure_bind, bind_assoc]
    rfl
  rw [hrun]
  exact .observe (fun process ↦ congrArg ExceptT.run (hsame process)) hnext

@[simp] theorem run_refuse (refusal : Refusal) : Holds property (refuse refusal : Attempt α).run :=
  .pure (Except.error refusal)

@[simp] theorem run_require (refusal : Refusal) (value : Option α) :
    Holds property (require refusal value).run := by
  cases value <;> simp [Run.require]

@[simp] theorem attempt {op : Op} {action : Attempt Answer} (haction : Holds property action.run) :
    Holds property (Run.attempt op action) := by
  refine Holds.bind haction fun outcome ↦ ?_
  cases outcome <;> simp

/-! ### Finding what an operation names -/

@[simp] theorem handledFailure? : Holds property handledFailure? := by
  refine Holds.thread.bind fun thread ↦ ?_
  split <;> simp

@[simp] theorem handledLine? : Holds property handledLine? := by
  refine Holds.thread.bind fun thread ↦ ?_
  split <;> simp

@[simp] theorem findFailure (source : Source) : Holds property (findFailure source).run := by
  cases source <;> simp [Run.findFailure]

@[simp] theorem buildLine (recipe : LineRecipe) : Holds property (buildLine recipe).run := by
  refine (run_liftM handledLine?).run_bind fun handled ↦ ?_
  dsimp only
  split <;> simp

@[simp] theorem findLink (destination : Destination) :
    Holds property (findLink destination).run := by
  cases destination <;> simp [Run.findLink]

@[simp] theorem findPolicy (name : String) : Holds property (findPolicy name).run := by
  simp [Run.findPolicy]

@[simp] theorem findEvent (kind : EventKind) (source : Source) (line : LineRecipe) :
    Holds property (findEvent kind source line).run := by
  cases kind <;> simp [Run.findEvent]

@[simp] theorem obtain (recipe : Recipe) : Holds property (obtain recipe).run := by
  cases recipe with
  | policy name => exact (findPolicy name).run_bind fun _ ↦ .run_liftM (.newObject _)
  | shared name =>
    refine (run_liftM thread).run_bind fun thread ↦ (run_require _ _).run_bind fun object ↦ ?_
    exact (run_liftM (.acquire object)).run_bind fun _ ↦ .run_pure _
  | _ => simp [Run.obtain]

@[simp] theorem takeGuard? (name : String) : Holds property (takeGuard? name) := by
  refine Holds.thread.bind fun thread ↦ ?_
  split <;> simp

@[simp] theorem findGuard? (name : String) : Holds property (findGuard? name) := by
  simp [Run.findGuard?]

@[simp] theorem keepGuard (name : String) (guard : Guard) (outermost : Bool) :
    Holds property (keepGuard name guard outermost) := by
  simp [Run.keepGuard]

/-! ### Operations without tasks -/

@[simp] theorem annotate (target : Target) (site : Site) (description : String) (times : ℕ) :
    Holds property (annotate target site description times).run := by
  cases target with
  | slot name =>
    refine (run_liftM thread).run_bind fun thread ↦ (run_require _ _).run_bind fun held ↦ ?_
    exact (run_liftM (.store _ _)).run_bind fun _ ↦ .run_pure _
  | handled =>
    refine (run_liftM thread).run_bind fun thread ↦ ?_
    split <;> simp

@[simp] theorem inspect (source : Source) (part : Part) (layout : Text.Layout) :
    Holds property (inspect source part layout).run := by
  refine run_observe (fun _ ↦ rfl) fun process ↦ ?_
  split
  · simp
  · refine (findFailure source).run_bind fun failure ↦ ?_
    cases part <;> simp

@[simp] theorem inspectOverride (recipe : Recipe) :
    Holds property (inspectOverride recipe).run := by
  cases recipe <;> simp [Run.inspectOverride]

@[simp] theorem makePolicy (name : String) (recipe : PolicyRecipe) :
    Holds property (makePolicy name recipe) :=
  .observe (fun _ ↦ rfl) fun _ ↦ by simp

@[simp] theorem inspectWriter (index : ℕ) : Holds property (inspectWriter index) := by
  refine Holds.thread.bind fun thread ↦ ?_
  split <;> simp

@[simp] theorem captureInto (capacity : ℕ) : Holds property (captureInto capacity) :=
  .observe (fun _ ↦ rfl) fun _ ↦ .pure _

/-! ### Lines -/

@[simp] theorem modifyWriter (index : ℕ) (change : ScriptedWriter → ScriptedWriter) :
    Holds property (modifyWriter index change) := by
  simp [Run.modifyWriter]

@[simp] theorem offer (index : ℕ) (bytes : List UInt8) : Holds property (offer index bytes) := by
  refine Holds.thread.bind fun thread ↦ ?_
  split <;> simp

@[simp] theorem flush (index : ℕ) : Holds property (flush index) := by simp [Run.flush]

@[simp] theorem writeFully {write : List UInt8 → Run WriteAnswer} {flush : Run Unit}
    (hwrite : ∀ bytes, Holds property (write bytes)) (hflush : Holds property flush)
    (bytes : List UInt8) : Holds property (writeFully write flush bytes) := by
  induction bytes using writeFully.induct with
  | case1 => rwa [writeFully_nil]
  | case2 byte rest ih =>
    rw [writeFully_cons]
    refine (hwrite _).bind fun answer ↦ ?_
    split <;> simp [ih]

@[simp] theorem forward (level : Level) (sent : Line) : Holds property (forward level sent) := by
  simp [Run.forward]

end Holds

/-! ### What is built from tasks -/

section Tasks

variable {property : ∀ α : Type, Run α → Prop} [Compositional property] {exec : Exec}
  (hexec : ∀ task, Holds property (exec task))
include hexec

theorem holds_runList (ops : List Op) : Holds property (runList exec ops) := by
  refine (Holds.modifyThread _).bind fun _ ↦ ?_
  exact (Holds.forM fun op ↦ hexec (.perform op)).andFinally (hexec .closeFrame)

theorem holds_runCleanup (place : Place) (cleanup : Cleanup) :
    Holds property (runCleanup exec place cleanup) := by
  have hlist := holds_runList hexec cleanup.ops
  unfold runCleanup
  dsimp only
  split
  · refine hlist.withHandling.catching.bind fun outcome ↦ ?_
    cases outcome <;> simp
  · exact hlist.withHandling

theorem holds_destroy (override : Override) : Holds property (destroy exec override) := by
  unfold destroy
  split
  · refine Holds.height.bind fun _ ↦ (Holds.record _ (by simp)).bind fun _ ↦ ?_
    exact holds_runCleanup hexec .destructor _
  · simp

theorem holds_relinquish (object : ObjectId) : Holds property (relinquish exec object) := by
  refine (Holds.disown object).bind fun found ↦ ?_
  cases found <;> simp [holds_destroy hexec]

theorem holds_relinquishAll (objects : List ObjectId) :
    Holds property (relinquishAll exec objects) := by
  induction objects with
  | nil => exact .pure _
  | cons object rest ih => exact (holds_relinquish hexec object).andFinally ih

theorem holds_install (object : ObjectId) : Holds property (install exec object) := by
  refine Holds.thread.bind fun thread ↦ ?_
  split
  · simp [updateStack, holds_relinquish hexec]
  · refine (Holds.updateThread _).bind fun guard ↦ ?_
    exact (Holds.traceEvent (by simp) _ _).bind fun _ ↦ .pure _

theorem holds_release (guard : Guard) : Holds property (Run.release exec guard) := by
  refine Holds.thread.bind fun thread ↦ ?_
  split
  · simp
  · refine (Holds.updateThread _).bind fun released ↦ ?_
    cases released with
    | stale => simp [settle]
    | inOrder removed => simp [settle, holds_relinquishAll hexec]
    | outOfOrder removed =>
      refine (holds_relinquishAll hexec removed).bind fun _ ↦ ?_
      refine Holds.isUnwinding.bind fun unwinding ↦ ?_
      split <;> simp

theorem holds_closeFrame : Holds property (Run.closeFrame exec) := by
  refine Holds.thread.bind fun thread ↦ ?_
  split <;> simp [hexec]

/-! ### Dispatches -/

theorem holds_conclude (settings : Settings) {write : Line → Run Unit}
    (hwrite : ∀ sent, Holds property (write sent)) (event : Event) :
    Holds property (conclude exec settings write event) := by
  cases event with
  | line sent => exact hwrite sent
  | failure severity reported =>
    refine Holds.isUnwinding.bind fun unwinding ↦ ?_
    split <;> simp [logFailure, hexec]

theorem holds_concludeBy (index : ℕ) (event : Event) :
    Holds property (concludeBy exec index event) := by
  refine Holds.thread.bind fun thread ↦ ?_
  split
  · simp
  · refine holds_conclude hexec _ (fun sent ↦ ?_) event
    dsimp only
    split <;> simp

theorem holds_concludeAtRoot (event : Event) : Holds property (concludeAtRoot exec event) :=
  Holds.rootSettings.bind fun settings ↦ holds_conclude hexec settings (by simp) event

theorem holds_handleBy (override : Override) (event : Event) (next : Link) :
    Holds property (handleBy exec override event next) := by
  cases override with
  | bridge level => cases event <;> simp [handleBy, hexec]
  | script script =>
    refine (Holds.record _ (by simp)).bind fun _ ↦ ?_
    split <;> simp [hexec, holds_runList hexec]
  | _ => simp [handleBy, hexec, holds_concludeBy hexec]

theorem holds_deliver (event : Event) (link : Link) :
    Holds property (Run.deliver exec event link) := by
  refine Holds.thread.bind fun thread ↦ ?_
  rcases thread.stack.resolve link with _ | ⟨object, next⟩
  · exact holds_concludeAtRoot hexec event
  · refine (Holds.acquire object).bind fun found ↦ ?_
    cases found <;> simp [holds_handleBy hexec, holds_relinquish hexec]

/-! ### Operations -/

theorem holds_pushObject (object : ObjectId) (name : String) (keep : Bool) :
    Holds property (pushObject exec object name keep) := by
  simp [pushObject, holds_install hexec]

theorem holds_share (object : ObjectId) (name : String) :
    Holds property (share exec object name) := by
  refine Holds.thread.bind fun thread ↦ (Holds.modifyThread _).bind fun _ ↦ ?_
  cases thread.shared.find? name <;> simp [holds_relinquish hexec]

theorem holds_unshare (name : String) : Holds property (unshare exec name) := by
  refine Holds.thread.bind fun thread ↦ (Holds.modifyThread _).bind fun _ ↦ ?_
  cases thread.shared.find? name <;> simp [holds_relinquish hexec]

theorem holds_runScope (body : List Op) (deferred : Option Cleanup) :
    Holds property (runScope exec body deferred) := by
  have hdeferred : Holds property (runDeferred exec deferred) := by
    cases deferred with
    | none => exact .pure _
    | some cleanup =>
      refine Holds.isUnwinding.bind fun _ ↦ (Holds.record _ (by simp)).bind fun _ ↦ ?_
      exact holds_runCleanup hexec .deferred cleanup
  refine (Holds.modifyThread _).bind fun _ ↦ ?_
  exact (Holds.forM fun op ↦ hexec (.perform op)).andFinally
    (hdeferred.andFinally (hexec .closeFrame))

theorem holds_runWithin (object : ObjectId) (body : List Op) :
    Holds property (runWithin exec object body) := by
  refine (holds_install hexec object).bind fun guard ↦ Holds.bind ?_ fun _ ↦ by simp
  exact ((holds_runList hexec body).bind fun _ ↦ .height).andFinally (hexec (.release guard))

theorem holds_execute (statement : Statement) (slot : String) (keep : Bool) :
    Holds property (execute exec statement slot keep) := by
  have hdeliver (event : Event) :
      Holds property (do exec (.deliver event (← current)); return .returned : Run Answer) := by
    simp [hexec]
  refine .observe (fun _ ↦ rfl) fun process ↦ ?_
  cases statement with
  | expect nature holds condition message =>
    dsimp only
    split
    · exact (Holds.build _).bind fun _ ↦ hdeliver _
    · simp
  | fatal nature durability description => exact (Holds.build _).bind fun _ ↦ hdeliver _
  | line text => exact hdeliver _
  | context description => simp [holds_pushObject hexec]
  | failure nature durability description => simp

/-! ### Threads -/

theorem holds_runCaught (ops : List Op) : Holds property (runCaught exec ops) := by
  have hsteps (index : ℕ) : Holds property (runSteps exec index ops) := by
    induction ops generalizing index with
    | nil => exact .pure _
    | cons op rest ih =>
      refine (hexec (.perform op)).catching.bind fun outcome ↦ Holds.height.bind fun _ ↦ ?_
      exact (Holds.record _ (by simp)).bind fun _ ↦ ih (index + 1)
  have hshared : Holds property (dropShared exec) := by
    simp [dropShared, holds_relinquishAll hexec]
  refine (Holds.modifyThread _).bind fun _ ↦ (hsteps 0).bind fun _ ↦ ?_
  exact (hexec .closeFrame).catching.bind fun outcome ↦ hshared.bind fun _ ↦ by simp

theorem holds_tearDown (late : Option Guard) : Holds property (tearDown exec late) := by
  refine Holds.thread.bind fun thread ↦ (Holds.modifyThread _).bind fun _ ↦ ?_
  refine (holds_relinquishAll hexec _).bind fun _ ↦ ?_
  cases late with
  | none => exact .pure _
  | some guard =>
    refine Holds.height.bind fun _ ↦ Holds.current.bind fun _ ↦ ?_
    refine (Holds.record _ (by simp)).bind fun _ ↦ ?_
    refine Holds.current.bind fun link ↦ (hexec (.deliver _ link)).bind fun _ ↦ ?_
    exact (hexec (.release guard)).bind fun _ ↦ .record _ (by simp)

theorem holds_installLate (plan : ThreadPlan) : Holds property (installLate exec plan) := by
  unfold installLate
  split <;> simp [holds_install hexec]

theorem holds_runThread (plan : ThreadPlan) (ops : List Op) :
    Holds property (runThread exec plan ops) := by
  have hbody : Holds property (if plan.uncaught then runList exec ops else runCaught exec ops) := by
    split <;> simp [holds_runList hexec, holds_runCaught hexec]
  refine Holds.thread.bind fun starter ↦ (Holds.modifyThread _).bind fun _ ↦ ?_
  refine (holds_installLate hexec plan).bind fun late ↦ hbody.intercept.bind fun outcome ↦ ?_
  refine (holds_tearDown hexec late).intercept.bind fun torn ↦ ?_
  cases torn with
  | error payload => simp
  | ok value => cases outcome <;> simp

/-! ### All operations -/

theorem holds_perform (op : Op) : Holds property (perform exec op) := by
  cases op with
  | make slot draft =>
    refine .attempt ((Holds.run_liftM (.build draft)).run_bind fun failure ↦ ?_)
    exact (Holds.run_liftM (.store slot failure)).run_bind fun _ ↦ .run_pure _
  | copy source slot =>
    refine .attempt ((Holds.findFailure source).run_bind fun failure ↦ ?_)
    exact (Holds.run_liftM (.store slot failure)).run_bind fun _ ↦ .run_pure _
  | discard slot =>
    refine .attempt ((Holds.run_liftM .thread).run_bind fun thread ↦ ?_)
    exact (Holds.run_liftM (.modifyThread _)).run_bind fun _ ↦ .run_pure _
  | compare first second skipFirst skipSecond =>
    refine .attempt ((Holds.findFailure first).run_bind fun _ ↦ ?_)
    exact (Holds.findFailure second).run_bind fun _ ↦ .run_pure _
  | report severity source destination =>
    refine .attempt ((Holds.findFailure source).run_bind fun failure ↦ ?_)
    refine (Holds.findLink destination).run_bind fun link ↦ ?_
    exact (Holds.run_liftM (hexec _)).run_bind fun _ ↦ .run_pure _
  | log line destination =>
    refine .attempt ((Holds.buildLine line).run_bind fun sent ↦ ?_)
    refine (Holds.findLink destination).run_bind fun link ↦ ?_
    exact (Holds.run_liftM (hexec _)).run_bind fun _ ↦ .run_pure _
  | delegate source line =>
    refine .attempt ((Holds.run_liftM .thread).run_bind fun thread ↦ ?_)
    refine (Holds.run_require _ _).run_bind fun handling ↦ ?_
    refine (Holds.findEvent _ _ _).run_bind fun event ↦ ?_
    exact (Holds.run_liftM (hexec _)).run_bind fun _ ↦ .run_pure _
  | throw source =>
    exact .attempt ((Holds.findFailure source).run_bind fun failure ↦ .raise _)
  | panic payload => exact .attempt (.raise payload)
  | state statement slot keep => exact .attempt (.run_liftM (holds_execute hexec _ _ _))
  | push recipe guard keep =>
    refine .attempt ((Holds.obtain recipe).run_bind fun object ↦ ?_)
    exact .run_liftM (holds_pushObject hexec object guard keep)
  | pushContext remark guard keep =>
    refine .attempt ((Holds.obtain _).run_bind fun object ↦ ?_)
    exact .run_liftM (holds_pushObject hexec object guard keep)
  | release name =>
    refine .attempt ((Holds.run_liftM (.takeGuard? name)).run_bind fun taken ↦ ?_)
    refine (Holds.run_require _ _).run_bind fun guard ↦ ?_
    refine (Holds.run_liftM (hexec (.release guard))).run_bind fun _ ↦ ?_
    exact (Holds.run_liftM .height).run_bind fun _ ↦ .run_pure _
  | forget name =>
    refine .attempt ((Holds.run_liftM (.takeGuard? name)).run_bind fun taken ↦ ?_)
    refine (Holds.run_require _ _).run_bind fun guard ↦ ?_
    exact (Holds.run_liftM .height).run_bind fun _ ↦ .run_pure _
  | inspectGuard name =>
    refine .attempt ((Holds.run_liftM (.findGuard? name)).run_bind fun found ↦ ?_)
    exact (Holds.run_require _ _).run_bind fun _ ↦ .run_pure _
  | inspectStack =>
    refine .attempt ((Holds.run_liftM .height).run_bind fun _ ↦ ?_)
    exact (Holds.run_liftM .current).run_bind fun _ ↦ .run_pure _
  | share recipe name =>
    refine .attempt ((Holds.obtain recipe).run_bind fun object ↦ ?_)
    exact .run_liftM (holds_share hexec object name)
  | unshare name => exact .attempt (.run_liftM (holds_unshare hexec name))
  | scope body deferred =>
    exact .attempt ((Holds.run_liftM (holds_runScope hexec body deferred)).run_bind
      fun _ ↦ .run_pure _)
  | guarded body deferred slot =>
    refine .attempt (Holds.run_bind ?_ fun outcome ↦ ?_)
    · exact .run_liftM (holds_runScope hexec body deferred).catching
    · cases outcome with
      | ok value => exact .run_pure _
      | error failure =>
        exact (Holds.run_liftM (.store slot failure)).run_bind fun _ ↦ .run_pure _
  | within recipe body =>
    refine .attempt ((Holds.obtain recipe).run_bind fun object ↦ ?_)
    exact .run_liftM (holds_runWithin hexec object body)
  | thread plan ops slot =>
    refine .attempt ((Holds.run_liftM (holds_runThread hexec plan ops)).run_bind
      fun outcome ↦ ?_)
    cases outcome with
    | none => exact .run_pure _
    | some payload =>
      refine (Holds.run_liftM (.absorb payload)).run_bind fun failure ↦ ?_
      exact (Holds.run_liftM (.store slot failure)).run_bind fun _ ↦ .run_pure _
  | handle policy kind source line =>
    refine .attempt ((Holds.findPolicy policy).run_bind fun index ↦ ?_)
    refine (Holds.findEvent kind source line).run_bind fun event ↦ ?_
    exact (Holds.run_liftM (holds_concludeBy hexec index event)).run_bind fun _ ↦ .run_pure _
  | inspectWriter policy =>
    exact .attempt ((Holds.findPolicy policy).run_bind fun index ↦
      .run_liftM (.inspectWriter index))
  | malformed name refusal => exact .record _ (by simp)
  | hook => exact .attempt ((Holds.run_liftM .installHook).run_bind fun _ ↦ .run_pure _)
  | _ => exact .attempt (by simp)

end Tasks

end Run

/-- All tasks have a compositional property. -/
theorem Interpreter.holds_run {property : ∀ α : Type, Run α → Prop} [Run.Compositional property]
    (depth : ℕ) (task : Task) : Run.Holds property (run depth task) := by
  induction depth generalizing task with
  | zero => exact .throw (by simp)
  | succ depth ih =>
    cases task with
    | perform op => exact Run.holds_perform ih op
    | deliver event link => exact Run.holds_deliver ih event link
    | closeFrame => exact Run.holds_closeFrame ih
    | release guard => exact Run.holds_release ih guard

end Escalation
