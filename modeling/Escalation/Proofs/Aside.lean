import Escalation.Machine.Perform
import Escalation.Proofs.Contract

/-!
# Parts that have nothing to do with overrides

Writing, asking for the settings, making failures, raising, and finding what an operation names
leave the overrides of a thread alone (`Run.Aside`): the stack, the open lists, the names of shared
overrides, and what each override does. Counting owners up or down is among these parts, as it does
not change what an override does (`Run.aside_acquire`, `Run.aside_disown`).

Catching and handling are built from such parts around others, so they keep every composable
contract that their body keeps (`Run.Keeps.catching`, `Run.Keeps.withHandling`). An operation that
may be refused goes on only if it is not (`Run.Keeps.run_bind`).
-/

set_option autoImplicit false
set_option relaxedAutoImplicit false

namespace Escalation.Run

variable {α β : Type}

/-! ### Changes of the state -/

theorem aside_thread : Aside thread := fun machine _ ↦ .refl machine

theorem aside_process : Aside process := fun machine _ ↦ .refl machine

theorem aside_modifyThread {change : Thread → Thread}
    (h : ∀ thread process, Machine.SameOverrides ⟨process, thread⟩ ⟨process, change thread⟩) :
    Aside (modifyThread change) := fun machine _ ↦ h machine.thread machine.process

theorem aside_modifyProcess (change : Process → Process) : Aside (modifyProcess change) :=
  fun _ _ ↦ .of_thread_eq rfl

theorem aside_updateThread {change : Thread → α × Thread}
    (h : ∀ thread process, Machine.SameOverrides ⟨process, thread⟩ ⟨process, (change thread).2⟩) :
    Aside (updateThread change) := fun machine _ ↦ h machine.thread machine.process

theorem aside_height : Aside height := aside_thread.bind fun _ ↦ .pure _

theorem aside_current : Aside current := aside_thread.bind fun _ ↦ .pure _

theorem aside_isUnwinding : Aside isUnwinding := aside_thread.bind fun _ ↦ .pure _

theorem aside_store (slot : String) (failure : Failure) : Aside (store slot failure) :=
  aside_modifyThread fun _ _ ↦ ⟨rfl, rfl, rfl, rfl, rfl⟩

/-! ### Output -/

theorem aside_record (entry : Record) : Aside (record entry) :=
  (aside_modifyProcess _).bind fun _ ↦ aside_modifyProcess _

theorem aside_writeDiagnostics (text : String) : Aside (writeDiagnostics text) :=
  aside_modifyProcess _

theorem aside_traceEvent (level : Level) (target text : String) :
    Aside (traceEvent level target text) := by
  unfold traceEvent
  refine aside_process.bind fun process ↦ ?_
  split
  · exact aside_record _
  · exact .pure _

/-! ### Settings and failures -/

theorem aside_settings : Aside settings := by
  unfold settings
  refine aside_process.bind fun process ↦ ?_
  split
  · exact .pure _
  · dsimp only
    split
    · exact (aside_modifyProcess _).bind fun _ ↦ .pure _
    · exact (aside_modifyProcess _).bind fun _ ↦ (aside_traceEvent _ _ _).bind fun _ ↦ .pure _

theorem aside_rootSettings : Aside rootSettings := by
  unfold rootSettings
  refine aside_process.bind fun process ↦ ?_
  split
  · exact .pure _
  · exact aside_settings.bind fun _ ↦ (aside_modifyProcess _).bind fun _ ↦ .pure _

theorem aside_build (draft : Draft) : Aside (build draft) := by
  unfold build
  split
  · exact aside_settings.bind fun _ ↦ aside_process.bind fun _ ↦ .pure _
  · exact .pure _

theorem aside_give (notice : Notice) : Aside (give notice) := by
  cases notice with
  | written text => exact aside_writeDiagnostics text
  | noted message => exact aside_record _

theorem aside_reportRaise (payload : Payload) : Aside (reportRaise payload) := by
  unfold reportRaise
  refine aside_process.bind fun process ↦ aside_thread.bind fun thread ↦ ?_
  exact .forM fun notice _ ↦ aside_give notice

theorem aside_throw_raised (payload : Payload) : Aside (throw (.raised payload) : Run α) :=
  fun machine _ ↦ .refl machine

theorem aside_raise (payload : Payload) : Aside (raise payload : Run α) := by
  unfold raise
  refine .bind (aside_modifyThread fun _ _ ↦ ⟨rfl, rfl, rfl, rfl, rfl⟩) fun _ ↦ ?_
  exact (aside_reportRaise payload).bind fun _ ↦ aside_throw_raised payload

theorem aside_installHook : Aside installHook := by
  unfold installHook
  refine aside_process.bind fun process ↦ ?_
  split
  · exact .pure _
  · exact aside_raise _
  · refine aside_isUnwinding.bind fun unwinding ↦ ?_
    split
    · exact (aside_modifyProcess _).bind fun _ ↦ aside_raise _
    · exact aside_modifyProcess _

theorem aside_absorb (payload : Payload) : Aside (absorb payload) := by
  cases payload with
  | failure failure => exact .pure _
  | message text => exact aside_build _
  | opaqueValue => exact aside_build _

/-! ### Owners -/

/-- Another number of owners leaves what an object does as it is. -/
theorem map_override_setIfInBounds {objects : Array Object} {object : ObjectId} {held : Object}
    (h : objects[object]? = some held) (owners : Nat) :
    (objects.setIfInBounds object { held with owners }).map Object.override =
      objects.map Object.override := by
  have hmap : (objects.map Object.override)[object]? = some held.override := by
    rw [Array.getElem?_map, h, Option.map_some]
  obtain ⟨hsize, hvalue⟩ := Array.getElem?_eq_some_iff.mp hmap
  rw [Array.map_setIfInBounds]
  change (objects.map Object.override).setIfInBounds object held.override = _
  rw [← hvalue, Array.setIfInBounds, dif_pos hsize, Array.set_getElem_self]

theorem aside_acquire (object : ObjectId) : Aside (acquire object) := by
  refine aside_updateThread fun thread process ↦ ?_
  cases h : thread.objects[object]? with
  | none => exact .refl _
  | some held => exact ⟨rfl, rfl, rfl, rfl, map_override_setIfInBounds h _⟩

theorem aside_disown (object : ObjectId) : Aside (disown object) := by
  refine aside_updateThread fun thread process ↦ ?_
  cases h : thread.objects[object]? with
  | none => exact .refl _
  | some held => exact ⟨rfl, rfl, rfl, rfl, map_override_setIfInBounds h _⟩

/-! ### Handlers and lists -/

/-- A part that handles an event puts back what was handled before. -/
theorem withHandling_eq (handling : Option Handling) (body : Run α) (machine : Machine) :
    withHandling handling body machine =
      andFinally body
        (modifyThread fun thread ↦ { thread with handling := machine.thread.handling })
        { machine with thread := { machine.thread with handling } } := rfl

/-- A list closes the frame that it opened. -/
theorem runList_eq (exec : Exec) (ops : List Op) (machine : Machine) :
    runList exec ops machine =
      andFinally (ops.forM fun op ↦ exec (.perform op)) (exec .closeFrame)
        { machine with thread := { machine.thread with frames := [] :: machine.thread.frames } } :=
  rfl

/-! ### Catching, handling and refusing -/

namespace Keeps

variable {contract : Contract} {stop : Prop} [contract.Composable]

theorem catching {body : Run α} (hbody : Keeps contract stop body) :
    Keeps contract stop (Run.catching body) := by
  unfold Run.catching
  refine hbody.intercept.bind fun outcome ↦ ?_
  cases outcome with
  | ok value => exact .pure _
  | error payload => exact (of_aside (aside_absorb payload)).bind fun _ ↦ .pure _

theorem withHandling {handling : Option Handling} {body : Run α}
    (hbody : Keeps contract stop body) : Keeps contract stop (Run.withHandling handling body) := by
  unfold Run.withHandling
  refine (of_aside aside_thread).bind fun thread ↦ ?_
  have hchange (other : Option Handling) :
      Keeps contract stop (modifyThread fun thread ↦ { thread with handling := other }) :=
    of_aside (aside_modifyThread fun _ _ ↦ ⟨rfl, rfl, rfl, rfl, rfl⟩)
  exact (hchange _).bind fun _ ↦ hbody.andFinally (hchange _)

/-- An operation goes on with a value unless it is refused. -/
theorem run_bind {part : Attempt α} {next : α → Attempt β} (hpart : Keeps contract stop part.run)
    (hnext : ∀ value, Keeps contract stop (next value).run) :
    Keeps contract stop (part >>= next).run := by
  rw [ExceptT.run_bind]
  refine hpart.bind fun outcome ↦ ?_
  cases outcome with
  | ok value => exact hnext value
  | error refusal => exact .pure _

theorem run_pure (value : α) : Keeps contract stop (Pure.pure value : Attempt α).run :=
  .pure (Except.ok value)

omit [contract.Composable] in
theorem run_liftM {part : Run α} (hpart : Keeps contract stop part) :
    Keeps contract stop (liftM part : Attempt α).run :=
  hpart.map Except.ok

theorem run_require (refusal : Refusal) (value : Option α) :
    Keeps contract stop (require refusal value).run := by
  cases value with
  | none => exact .pure _
  | some value => exact .pure _

/-- An operation that answers, where its answer is recorded. -/
theorem attempt {op : Op} {action : Attempt Answer} (haction : Keeps contract stop action.run) :
    Keeps contract stop (Run.attempt op action) := by
  unfold Run.attempt
  refine haction.bind fun outcome ↦ ?_
  cases outcome with
  | ok answer => exact of_aside (aside_record _)
  | error refusal => exact of_aside (aside_record _)

end Keeps

section Attempts

variable {machine after : Machine} {value : α}

theorem run_bind_of_ok {part : Attempt α} {next : α → Attempt β}
    (h : part.run machine = .ok (.ok value) after) :
    (part >>= next).run machine = (next value).run after := by
  rw [ExceptT.run_bind, bind_of_ok h]

theorem run_liftM_of_ok {part : Run α} (h : part machine = .ok value after) :
    (liftM part : Attempt α).run machine = .ok (.ok value) after := by
  change (Except.ok <$> part) machine = _
  rw [map_eq_pure_bind, bind_of_ok h]
  rfl

end Attempts

/-! ### Finding what an operation names -/

theorem aside_handledFailure? : Aside handledFailure? := by
  unfold handledFailure?
  refine aside_thread.bind fun thread ↦ ?_
  split
  · exact .pure _
  · exact .pure _

theorem aside_handledLine? : Aside handledLine? := by
  unfold handledLine?
  refine aside_thread.bind fun thread ↦ ?_
  split
  · exact .pure _
  · exact .pure _

theorem aside_findFailure (source : Source) : Aside (findFailure source).run := by
  cases source with
  | slot name =>
    refine (Keeps.run_liftM aside_thread).run_bind fun thread ↦ ?_
    exact (Keeps.run_require _ _).run_bind fun _ ↦ .run_pure _
  | handled =>
    refine (Keeps.run_liftM aside_handledFailure?).run_bind fun held ↦ ?_
    exact (Keeps.run_require _ _).run_bind fun _ ↦ .run_pure _
  | made draft => exact .run_liftM (aside_build draft)

theorem aside_buildLine (recipe : LineRecipe) : Aside (buildLine recipe).run := by
  unfold buildLine
  refine (Keeps.run_liftM aside_handledLine?).run_bind fun handled ↦ ?_
  dsimp only
  split
  · exact (aside_findFailure _).run_bind fun _ ↦ (Keeps.run_pure _).run_bind fun _ ↦ .run_pure _
  · exact (aside_findFailure _).run_bind fun _ ↦ (Keeps.run_pure _).run_bind fun _ ↦ .run_pure _
  · exact (Keeps.run_pure _).run_bind fun _ ↦ .run_pure _

theorem aside_findLink (destination : Destination) : Aside (findLink destination).run := by
  cases destination with
  | current => exact .run_liftM aside_current
  | root => exact .run_pure _
  | override depth => exact .run_pure _
  | next =>
    refine (Keeps.run_liftM aside_thread).run_bind fun thread ↦ ?_
    exact (Keeps.run_require _ _).run_bind fun _ ↦ .run_pure _

theorem aside_findPolicy (name : String) : Aside (findPolicy name).run := by
  unfold findPolicy
  exact (Keeps.run_liftM aside_thread).run_bind fun _ ↦ .run_require _ _

theorem aside_findEvent (kind : EventKind) (source : Source) (line : LineRecipe) :
    Aside (findEvent kind source line).run := by
  cases kind with
  | failure severity => exact (aside_findFailure source).run_bind fun _ ↦ .run_pure _
  | line => exact (aside_buildLine line).run_bind fun _ ↦ .run_pure _

theorem aside_findGuard? (name : String) : Aside (findGuard? name) :=
  aside_thread.bind fun _ ↦ .pure _

/-! ### Operations on failures and policies -/

theorem aside_annotate (target : Target) (site : Site) (description : String) (times : Nat) :
    Aside (annotate target site description times).run := by
  cases target with
  | slot name =>
    refine (Keeps.run_liftM aside_thread).run_bind fun thread ↦ ?_
    refine (Keeps.run_require _ _).run_bind fun held ↦ ?_
    exact (Keeps.run_liftM (aside_store _ _)).run_bind fun _ ↦ .run_pure _
  | handled =>
    refine (Keeps.run_liftM aside_thread).run_bind fun thread ↦ ?_
    split
    · refine (Keeps.run_liftM (aside_modifyThread fun _ _ ↦ ?_)).run_bind fun _ ↦ .run_pure _
      exact ⟨rfl, rfl, rfl, rfl, rfl⟩
    · exact .pure _

theorem aside_inspect (source : Source) (part : Part) (layout : Text.Layout) :
    Aside (inspect source part layout).run := by
  unfold inspect
  refine (Keeps.run_liftM aside_process).run_bind fun process ↦ ?_
  split
  · exact .pure _
  · refine (aside_findFailure source).run_bind fun failure ↦ ?_
    cases part with
    | whole => exact .run_pure _
    | context => exact .run_pure _

theorem aside_inspectOverride (recipe : Recipe) : Aside (inspectOverride recipe).run := by
  cases recipe <;> exact .pure _

theorem aside_makePolicy (name : String) (recipe : PolicyRecipe) :
    Aside (makePolicy name recipe) := by
  unfold makePolicy
  refine aside_process.bind fun process ↦ ?_
  dsimp only
  refine (aside_modifyThread fun _ _ ↦ ?_).bind fun _ ↦ .pure _
  exact ⟨rfl, rfl, rfl, rfl, rfl⟩

theorem aside_inspectWriter (index : Nat) : Aside (inspectWriter index) := by
  unfold inspectWriter
  refine aside_thread.bind fun thread ↦ ?_
  split
  · exact .pure _
  · exact .pure _

theorem aside_captureInto (capacity : Nat) : Aside (captureInto capacity) :=
  aside_process.bind fun _ ↦ .pure _

/-! ### Writing lines -/

theorem aside_modifyWriter (index : Nat) (change : ScriptedWriter → ScriptedWriter) :
    Aside (modifyWriter index change) :=
  aside_modifyThread fun _ _ ↦ ⟨rfl, rfl, rfl, rfl, rfl⟩

theorem aside_offer (index : Nat) (bytes : List UInt8) : Aside (offer index bytes) := by
  unfold offer
  refine aside_thread.bind fun thread ↦ ?_
  split
  · exact (aside_modifyWriter _ _).bind fun _ ↦ .pure _
  · exact (aside_modifyWriter _ _).bind fun _ ↦ aside_raise _

theorem aside_writeFully {write : List UInt8 → Run WriteAnswer} {flush : Run Unit}
    (hwrite : ∀ bytes, Aside (write bytes)) (hflush : Aside flush) (bytes : List UInt8) :
    Aside (writeFully write flush bytes) := by
  induction bytes using writeFully.induct with
  | case1 => rwa [writeFully_nil]
  | case2 byte rest ih =>
    rw [writeFully_cons]
    refine (hwrite _).bind fun answer ↦ ?_
    split
    · exact .pure _
    · exact .pure _
    · exact ih _

theorem aside_forward (level : Level) (sent : Line) : Aside (forward level sent) :=
  aside_settings.bind fun _ ↦ aside_record _

end Escalation.Run
