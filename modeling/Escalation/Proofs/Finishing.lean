import Escalation.Proofs.Output
import Escalation.Proofs.Aside
import Escalation.Session

/-!
# Parts of a run that finish

A part finishes (`Run.Finishes`) if it returns or raises, and leaves the thread where it was
(`Machine.Resumes`): with the same stack, the same open lists and the same owners of every override,
handling an event of the same kind, and with one raise more that is not caught yet if it raised.
Contracts say nothing of parts that break off; that a part finishes says that it does not. A part
that cannot even raise returns (`Run.Returns`).

Parts that finish are put together like those that keep a contract. A catch around them returns
(`Run.Finishes.catching`); a cleanup that returns may follow (`Machine.Finished.andFinally`), so
lists of operations finish in a frame of their own (`Run.Finishes.bracket`). Operations that have to
do with nothing but failures, policies and what is shown of the thread have no tasks, and finish
(`Op.Local`, `Run.finishes_perform_of_local`).
-/

set_option autoImplicit false
set_option relaxedAutoImplicit false

namespace Escalation

/-! ### Where a thread is -/

/-- The kind of the event that is being handled, and the link handed on with it. -/
def Machine.route (machine : Machine) : Option (EventKind × Link) :=
  machine.thread.handling.map fun handling ↦ (handling.event.kind, handling.next)

/-- The thread is where it was, and so many more raises are not caught yet. -/
structure Machine.Resumes (machine after : Machine) (raises : ℕ) : Prop where
  stack : after.thread.stack = machine.thread.stack
  frames : after.thread.frames = machine.thread.frames
  objects : after.thread.objects = machine.thread.objects
  route : after.route = machine.route
  unwinding : after.thread.unwinding = machine.thread.unwinding + raises
  effectiveSettings : after.process.effectiveSettings = machine.process.effectiveSettings

namespace Machine.Resumes

variable {machine after last : Machine} {raises more : ℕ}

theorem refl (machine : Machine) : machine.Resumes machine 0 := ⟨rfl, rfl, rfl, rfl, rfl, rfl⟩

theorem trans (h : machine.Resumes after raises) (hlast : after.Resumes last more) :
    machine.Resumes last (raises + more) where
  stack := hlast.stack.trans h.stack
  frames := hlast.frames.trans h.frames
  objects := hlast.objects.trans h.objects
  route := hlast.route.trans h.route
  unwinding := by rw [hlast.unwinding, h.unwinding, Nat.add_assoc]
  effectiveSettings := hlast.effectiveSettings.trans h.effectiveSettings

/-- A part that leaves the thread alone leaves it where it was. -/
theorem of_shows {process : Process} {text : String} {lines : List (Level × String)}
    (h : machine.process.Shows process text lines) : machine.Resumes { machine with process } 0 :=
  ⟨rfl, rfl, rfl, rfl, rfl, h.effectiveSettings⟩

end Machine.Resumes

/-- An end leaves the thread where it was, with what was raised not caught yet. Nothing breaks
off. -/
def Machine.Finished (machine : Machine) {α : Type} : EStateM.Result Interrupt Machine α → Prop
  | .ok _ after => machine.Resumes after 0
  | .error (.raised _) after => machine.Resumes after 1
  | .error .aborted _ | .error .exhausted _ | .error .stopped _ => False

namespace Machine.Finished

variable {machine start origin after : Machine} {α : Type}

/-- An end of what follows is an end of the whole. -/
theorem of_resumes {result : EStateM.Result Interrupt Machine α}
    (h : machine.Resumes after 0) (hresult : after.Finished result) : machine.Finished result := by
  rcases result with ⟨value, last⟩ | ⟨payload | _ | _ | _, last⟩
  · exact h.trans hresult
  · exact h.trans hresult
  · exact hresult.elim
  · exact hresult.elim
  · exact hresult.elim

/-- A part and its cleanup, which may bring back what it was before the part started. -/
theorem andFinally {body : Run α} {cleanup : Run Unit}
    (hbody : start.Finished (body machine))
    (hcleanup : ∀ {after raises}, start.Resumes after raises →
      ∃ last, cleanup after = .ok () last ∧ origin.Resumes last raises) :
    origin.Finished (Run.andFinally body cleanup machine) := by
  unfold Run.andFinally
  rcases hend : body machine with ⟨value, after⟩ | ⟨payload | _ | _ | _, after⟩
  · rw [hend] at hbody
    obtain ⟨last, hlast, hresumes⟩ := hcleanup hbody
    dsimp only
    rw [hlast]
    exact hresumes
  · rw [hend] at hbody
    obtain ⟨last, hlast, hresumes⟩ := hcleanup hbody
    dsimp only
    rw [hlast]
    exact hresumes
  all_goals
    rw [hend] at hbody
    exact hbody.elim

end Machine.Finished

namespace Run

variable {α β : Type} {machine : Machine}

/-- The part returns or raises, and leaves the thread where it was. -/
def Finishes (part : Run α) (machine : Machine) : Prop := machine.Finished (part machine)

/-- The part returns, and leaves the thread where it was. -/
def Returns (part : Run α) (machine : Machine) : Prop :=
  ∃ value after, part machine = .ok value after ∧ machine.Resumes after 0

/-! ### Putting parts together -/

namespace Returns

theorem finishes {part : Run α} (h : Returns part machine) : Finishes part machine := by
  obtain ⟨value, after, hend, hresumes⟩ := h
  unfold Finishes
  rw [hend]
  exact hresumes

theorem pure (value : α) : Returns (Pure.pure value : Run α) machine :=
  ⟨value, machine, rfl, .refl machine⟩

theorem bind {part : Run α} {next : α → Run β} (hpart : Returns part machine)
    (hnext : ∀ {value after}, part machine = .ok value after → machine.Resumes after 0 →
      Returns (next value) after) : Returns (part >>= next) machine := by
  obtain ⟨value, after, hend, hresumes⟩ := hpart
  obtain ⟨result, last, hlast, hbehind⟩ := hnext hend hresumes
  exact ⟨result, last, (bind_of_ok hend).trans hlast, hresumes.trans hbehind⟩

/-- A part that leaves the thread alone, whatever it shows. -/
theorem of_shows {part : Run α} {value : α} {process : Process} {text : String}
    {lines : List (Level × String)} (hend : part machine = .ok value { machine with process })
    (h : machine.process.Shows process text lines) : Returns part machine :=
  ⟨value, _, hend, .of_shows h⟩

end Returns

namespace Finishes

theorem pure (value : α) : Finishes (Pure.pure value : Run α) machine :=
  (Returns.pure value).finishes

theorem bind {part : Run α} {next : α → Run β} (hpart : Finishes part machine)
    (hnext : ∀ {value after}, part machine = .ok value after → machine.Resumes after 0 →
      Finishes (next value) after) : Finishes (part >>= next) machine := by
  unfold Finishes at hpart
  rcases hend : part machine with ⟨value, after⟩ | ⟨interrupt, after⟩
  · rw [hend] at hpart
    have hbehind := hnext hend hpart
    unfold Finishes
    rw [bind_of_ok hend]
    exact .of_resumes hpart hbehind
  · unfold Finishes
    rw [bind_of_error hend]
    rw [hend] at hpart
    cases interrupt <;> exact hpart

/-- A part behind one that returns. -/
theorem behind {part : Run α} {next : α → Run β} {value : α} {after : Machine}
    (hend : part machine = .ok value after) (hnext : machine.Finished (next value after)) :
    Finishes (part >>= next) machine := by
  unfold Finishes
  rwa [bind_of_ok hend]

/-- A value that comes of the value of a part changes nothing else. -/
theorem map {part : Run α} (change : α → β) (hpart : Finishes part machine) :
    Finishes (change <$> part) machine := by
  rw [map_eq_pure_bind]
  exact hpart.bind fun _ _ ↦ .pure _

/-- A list of parts, one after another. -/
theorem forM {γ : Type} {items : List γ} {part : γ → Run Unit} (h : ∀ item ∈ items,
    ∀ {after}, machine.Resumes after 0 → Finishes (part item) after) :
    Finishes (items.forM part) machine := by
  induction items generalizing machine with
  | nil => exact .pure _
  | cons item rest ih =>
    rw [List.forM_eq_forM, List.forM_cons]
    refine (h item List.mem_cons_self (.refl machine)).bind fun _ hresumes ↦ ih ?_
    exact fun other hother {after} hafter ↦
      h other (List.mem_cons_of_mem _ hother) (hresumes.trans hafter)

/-- What is raised out of a part is caught, and then the thread is where it was. -/
theorem intercept {body : Run α} (hbody : Finishes body machine) :
    Returns (Run.intercept body) machine := by
  unfold Finishes at hbody
  unfold Returns Run.intercept
  rcases hend : body machine with ⟨value, after⟩ | ⟨payload | _ | _ | _, after⟩
  · rw [hend] at hbody
    exact ⟨_, _, rfl, hbody⟩
  · rw [hend] at hbody
    refine ⟨_, _, rfl, hbody.stack, hbody.frames, hbody.objects, hbody.route, ?_,
      hbody.effectiveSettings⟩
    exact congrArg (· - 1) hbody.unwinding
  all_goals
    rw [hend] at hbody
    exact hbody.elim

end Finishes

/-! ### Changes, output and settings -/

section Parts

variable (machine)

theorem returns_thread : Returns thread machine := ⟨_, machine, rfl, .refl machine⟩

theorem returns_process : Returns process machine := ⟨_, machine, rfl, .refl machine⟩

theorem returns_isUnwinding : Returns isUnwinding machine := ⟨_, machine, rfl, .refl machine⟩

theorem returns_modifyThread {change : Thread → Thread}
    (h : machine.Resumes { machine with thread := change machine.thread } 0) :
    Returns (modifyThread change) machine := ⟨(), _, rfl, h⟩

theorem returns_store (slot : String) (failure : Failure) : Returns (store slot failure) machine :=
  returns_modifyThread machine ⟨rfl, rfl, rfl, rfl, rfl, rfl⟩

theorem returns_record (entry : Record) : Returns (record entry) machine :=
  .of_shows (record_eq entry machine) (machine.process.shows_recorded entry)

theorem returns_writeDiagnostics (text : String) : Returns (writeDiagnostics text) machine := by
  obtain ⟨process, hend, hshows⟩ := writeDiagnostics_eq text machine
  exact .of_shows hend hshows

theorem returns_traceEvent (level : Level) {target : String} (htarget : target ≠ bridgeTarget)
    (text : String) : Returns (traceEvent level target text) machine := by
  obtain ⟨process, hend, hshows⟩ := traceEvent_eq level htarget text machine
  exact .of_shows hend hshows

theorem returns_settings : Returns settings machine := by
  obtain ⟨process, hend, hshows⟩ := settings_eq machine
  exact .of_shows hend hshows

theorem returns_rootSettings : Returns rootSettings machine := by
  obtain ⟨process, hend, hshows⟩ := rootSettings_eq machine
  exact .of_shows hend hshows

theorem returns_forward (level : Level) (sent : Line) : Returns (forward level sent) machine := by
  obtain ⟨process, hend, hshows⟩ := forward_eq level sent machine
  exact .of_shows hend hshows

theorem returns_build (draft : Draft) : Returns (build draft) machine := by
  unfold build
  split
  · refine (returns_settings machine).bind fun {_ after} _ _ ↦ ?_
    exact (returns_process after).bind fun _ _ ↦ .pure _
  · exact .pure _

theorem finishes_raise (payload : Payload) : Finishes (raise payload : Run α) machine := by
  obtain ⟨process, hend, hshows⟩ := raise_eq (α := α) payload machine
  unfold Finishes
  rw [hend]
  exact ⟨rfl, rfl, rfl, rfl, rfl, hshows.effectiveSettings⟩

theorem finishes_installHook : Finishes installHook machine := by
  refine (returns_process machine).finishes.bind fun {process after} _ _ ↦ ?_
  split
  · exact .pure _
  · exact finishes_raise after _
  · refine (returns_isUnwinding after).finishes.bind fun {unwinding last} _ _ ↦ ?_
    have hchanged (change : Process → Process)
        (hsame : (change last.process).effectiveSettings = last.process.effectiveSettings) :
        Returns (modifyProcess change) last :=
      ⟨_, _, rfl, rfl, rfl, rfl, rfl, rfl, hsame⟩
    split
    · refine (hchanged _ ?_).finishes.bind fun {_ reached} _ _ ↦ finishes_raise reached _
      rfl
    · exact (hchanged _ rfl).finishes

theorem returns_absorb (payload : Payload) : Returns (absorb payload) machine := by
  cases payload with
  | failure failure => exact .pure _
  | message text => exact returns_build machine _
  | opaqueValue => exact returns_build machine _

end Parts

/-! ### Catching, handling and lists -/

/-- A catch around a part that finishes returns. -/
theorem Finishes.catching {body : Run α} (hbody : Finishes body machine) :
    Returns (Run.catching body) machine := by
  refine hbody.intercept.bind fun {outcome after} _ _ ↦ ?_
  cases outcome with
  | ok value => exact .pure _
  | error payload => exact (returns_absorb after payload).bind fun _ _ ↦ .pure _

/-- What was handled before is being handled again when a part is over. -/
theorem Finishes.withHandling {handling : Option Handling} {body : Run α}
    (hbody : Finishes body { machine with thread := { machine.thread with handling } }) :
    Finishes (Run.withHandling handling body) machine := by
  unfold Finishes
  rw [withHandling_eq]
  refine Machine.Finished.andFinally hbody fun {after raises} h ↦ ⟨_, rfl, ?_⟩
  exact ⟨h.stack, h.frames, h.objects, rfl, h.unwinding, h.effectiveSettings⟩

/-- A list that holds no guards is closed at once. -/
def ClosesEmpty (exec : Exec) : Prop := ∀ machine rest, machine.thread.frames = [] :: rest →
  exec .closeFrame machine =
    .ok () { machine with thread := { machine.thread with frames := rest } }

/-- What runs in a frame of its own finishes if its cleanup closes the frame. -/
theorem Finishes.bracket {body cleanup : Run Unit}
    (hbody : Finishes body { machine with
      thread := { machine.thread with frames := [] :: machine.thread.frames } })
    (hcleanup : ∀ {after}, after.thread.frames = [] :: machine.thread.frames →
      ∃ last, cleanup after = .ok () last ∧ Machine.Resumes { after with
        thread := { after.thread with frames := machine.thread.frames } } last 0) :
    Finishes (do openFrame; Run.andFinally body cleanup) machine := by
  change machine.Finished (Run.andFinally body cleanup _)
  refine Machine.Finished.andFinally hbody fun {after raises} h ↦ ?_
  obtain ⟨last, hlast, hresumes⟩ := hcleanup h.frames
  have hclosed : machine.Resumes { after with
      thread := { after.thread with frames := machine.thread.frames } } raises :=
    ⟨h.stack, rfl, h.objects, h.route, h.unwinding, h.effectiveSettings⟩
  exact ⟨last, hlast, hclosed.trans hresumes⟩

section Lists

variable {exec : Exec} {ops : List Op}

theorem finishes_runList (hclose : ClosesEmpty exec)
    (hops : Finishes (ops.forM fun op ↦ exec (.perform op)) { machine with
      thread := { machine.thread with frames := [] :: machine.thread.frames } }) :
    Finishes (runList exec ops) machine :=
  hops.bracket fun hframes ↦ ⟨_, hclose _ _ hframes, .refl _⟩

/-- A scope finishes if its list does and what it does on leaving returns. -/
theorem finishes_runScope {deferred : Option Cleanup} (hclose : ClosesEmpty exec)
    (hdeferred : ∀ after, Returns (runDeferred exec deferred) after)
    (hops : Finishes (ops.forM fun op ↦ exec (.perform op)) { machine with
      thread := { machine.thread with frames := [] :: machine.thread.frames } }) :
    Finishes (runScope exec ops deferred) machine := by
  refine hops.bracket fun {after} hframes ↦ ?_
  obtain ⟨_, tidied, htidied, hresumes⟩ := hdeferred after
  refine ⟨_, andFinally_of_ok htidied (hclose _ _ (hresumes.frames.trans hframes)), ?_⟩
  exact ⟨hresumes.stack, rfl, hresumes.objects, hresumes.route, hresumes.unwinding,
    hresumes.effectiveSettings⟩

end Lists

/-! ### Operations that may be refused -/

section Attempts

theorem Finishes.run_liftM {part : Run α} (h : Finishes part machine) :
    Finishes (liftM part : Attempt α).run machine := h.map Except.ok

/-- An operation goes on with a value unless it is refused. -/
theorem Finishes.run_bind {part : Attempt α} {next : α → Attempt β}
    (hpart : Finishes part.run machine)
    (hnext : ∀ {value after}, part.run machine = .ok (.ok value) after → machine.Resumes after 0 →
      Finishes (next value).run after) : Finishes (part >>= next).run machine := by
  rw [ExceptT.run_bind]
  refine hpart.bind fun {outcome after} hend hresumes ↦ ?_
  cases outcome with
  | ok value => exact hnext hend hresumes
  | error refusal => exact .pure _

theorem Finishes.run_pure (value : α) : Finishes (Pure.pure value : Attempt α).run machine :=
  .pure (Except.ok value)

theorem finishes_require (refusal : Refusal) (value : Option α) :
    Finishes (require refusal value).run machine := by
  cases value <;> exact .pure _

/-- An operation that answers, where its answer is recorded. -/
theorem Finishes.attempt {op : Op} {action : Attempt Answer} (h : Finishes action.run machine) :
    Finishes (Run.attempt op action) machine := by
  refine Finishes.bind h fun {outcome after} _ _ ↦ ?_
  cases outcome <;> exact (returns_record after _).finishes

/-- Looking something up in the thread, which may not be there. -/
theorem finishes_require_thread {refusal : Refusal} {look : Thread → Option α} :
    Finishes (do require refusal (look (← thread)) : Attempt α).run machine :=
  (returns_thread machine).finishes.run_liftM.run_bind fun _ _ ↦ finishes_require _ _

end Attempts

/-! ### Finding what an operation names -/

section Finding

variable (machine)

theorem finishes_handledFailure? : Finishes handledFailure? machine := by
  refine (returns_thread machine).finishes.bind fun {thread after} _ _ ↦ ?_
  split <;> exact .pure _

theorem finishes_handledLine? : Finishes handledLine? machine := by
  refine (returns_thread machine).finishes.bind fun {thread after} _ _ ↦ ?_
  split <;> exact .pure _

theorem finishes_findFailure (source : Source) : Finishes (findFailure source).run machine := by
  cases source with
  | slot name =>
    refine (returns_thread machine).finishes.run_liftM.run_bind fun _ _ ↦ ?_
    exact (finishes_require _ _).run_bind fun _ _ ↦ .run_pure _
  | handled =>
    refine (finishes_handledFailure? machine).run_liftM.run_bind fun _ _ ↦ ?_
    exact (finishes_require _ _).run_bind fun _ _ ↦ .run_pure _
  | made draft => exact (returns_build machine draft).finishes.run_liftM

theorem finishes_buildLine (recipe : LineRecipe) : Finishes (buildLine recipe).run machine := by
  unfold buildLine
  refine (finishes_handledLine? machine).run_liftM.run_bind fun {handled after} _ _ ↦ ?_
  have htext (text : String) (line : String → Line) (last : Machine) : Finishes
      (do return line (← pure text) : Attempt Line).run last :=
    (Finishes.run_pure text).run_bind fun _ _ ↦ .run_pure _
  dsimp only
  split
  · exact (finishes_findFailure after _).run_bind fun {_ last} _ _ ↦ htext _ _ last
  · exact (finishes_findFailure after _).run_bind fun {_ last} _ _ ↦ htext _ _ last
  · exact htext _ _ after

theorem finishes_findEvent (kind : EventKind) (source : Source) (line : LineRecipe) :
    Finishes (findEvent kind source line).run machine := by
  cases kind with
  | failure severity => exact (finishes_findFailure machine source).run_bind fun _ _ ↦ .run_pure _
  | line => exact (finishes_buildLine machine line).run_bind fun _ _ ↦ .run_pure _

end Finding

end Run

/-! ### Operations without tasks -/

/-- The operation has to do with failures, with making policies and with what is shown of the thread
and no more. It may raise. -/
def Op.Local : Op → Prop
  | .make .. | .copy .. | .discard _ | .annotate .. | .describe _ | .listContext .. | .inspect ..
  | .compare .. | .throw _ | .panic _ | .state (.failure ..) .. | .inspectGuard _ | .inspectStack
  | .inspectOverride _ | .makePolicy .. | .inspectWriter _ | .inspectRoot | .setUpLog | .capture _
  | .hook | .malformed .. => True
  | .report .. | .log .. | .delegate .. | .state .. | .push .. | .pushContext .. | .release _
  | .forget _ | .share .. | .unshare _ | .scope .. | .guarded .. | .within .. | .thread ..
  | .handle .. => False

namespace Run

section Local

variable (machine : Machine)

theorem finishes_annotate (target : Target) (site : Site) (description : String) (times : ℕ) :
    Finishes (annotate target site description times).run machine := by
  cases target with
  | slot name =>
    refine (returns_thread machine).finishes.run_liftM.run_bind fun {thread reached} _ _ ↦ ?_
    refine (finishes_require _ _).run_bind fun {failure after} _ _ ↦ ?_
    exact (returns_store after name _).finishes.run_liftM.run_bind fun _ _ ↦ .run_pure _
  | handled =>
    refine (returns_thread machine).finishes.run_liftM.run_bind fun {thread after} hend _ ↦ ?_
    obtain ⟨rfl, rfl⟩ : machine.thread = thread ∧ machine = after := by
      injection hend with hvalue hafter
      injection hvalue with hvalue
      exact ⟨hvalue, hafter⟩
    rcases hhandling : machine.thread.handling with _ | ⟨⟨severity, reported⟩ | sent, next⟩
    · exact .pure _
    · -- The failure gets remarks, and is still one of its severity.
      refine Finishes.run_bind (Finishes.run_liftM ?_) fun _ _ ↦ .run_pure _
      refine (returns_modifyThread machine ⟨rfl, rfl, rfl, ?_, rfl, rfl⟩).finishes
      unfold Machine.route
      rw [hhandling]
      rfl
    · exact .pure _

theorem finishes_inspect (source : Source) (part : Part) (layout : Text.Layout) :
    Finishes (inspect source part layout).run machine := by
  unfold inspect
  refine (returns_process machine).finishes.run_liftM.run_bind fun {process after} _ _ ↦ ?_
  split
  · exact .pure _
  · refine (finishes_findFailure after source).run_bind fun _ _ ↦ ?_
    cases part <;> exact .run_pure _

theorem finishes_makePolicy (name : String) (recipe : PolicyRecipe) :
    Finishes (makePolicy name recipe) machine := by
  refine (returns_process machine).finishes.bind fun {process after} _ _ ↦ ?_
  dsimp only
  refine Finishes.bind (returns_modifyThread after ?_).finishes fun _ _ ↦ .pure _
  exact ⟨rfl, rfl, rfl, rfl, rfl, rfl⟩

theorem finishes_inspectWriter (index : ℕ) : Finishes (inspectWriter index) machine := by
  refine (returns_thread machine).finishes.bind fun {thread after} _ _ ↦ ?_
  split <;> exact .pure _

/-- An operation without tasks finishes. -/
theorem finishes_perform_of_local {op : Op} (hop : op.Local) (exec : Exec) :
    Finishes (perform exec op) machine := by
  have hfound (source : Source) {next : Failure → Attempt Answer}
      (hnext : ∀ failure after, Finishes (next failure).run after) :
      Finishes (do next (← findFailure source)).run machine :=
    (finishes_findFailure machine source).run_bind fun {failure after} _ _ ↦ hnext failure after
  have hstored (slot : String) (failure : Failure) (answer : Answer) (after : Machine) :
      Finishes (do store slot failure; return answer : Attempt Answer).run after :=
    (returns_store after slot failure).finishes.run_liftM.run_bind fun _ _ ↦ .run_pure _
  cases op with
  | make slot draft =>
    refine .attempt ((returns_build machine draft).finishes.run_liftM.run_bind ?_)
    exact fun {failure after} _ _ ↦ hstored slot failure _ after
  | copy source slot =>
    exact .attempt (hfound source fun failure after ↦ hstored slot failure _ after)
  | discard slot =>
    refine .attempt ((returns_thread machine).finishes.run_liftM.run_bind fun {_ after} _ _ ↦ ?_)
    refine (returns_modifyThread after ?_).finishes.run_liftM.run_bind fun _ _ ↦ .run_pure _
    exact ⟨rfl, rfl, rfl, rfl, rfl, rfl⟩
  | annotate target site description times =>
    exact .attempt (finishes_annotate machine target site description times)
  | describe source => exact .attempt (hfound source fun _ _ ↦ .run_pure _)
  | listContext source skip => exact .attempt (hfound source fun _ _ ↦ .run_pure _)
  | inspect source part layout => exact .attempt (finishes_inspect machine source part layout)
  | compare first second skipFirst skipSecond =>
    refine .attempt (hfound first fun _ after ↦ ?_)
    exact (finishes_findFailure after second).run_bind fun _ _ ↦ .run_pure _
  | throw source =>
    exact .attempt (hfound source fun failure after ↦ finishes_raise after (.failure failure))
  | panic payload => exact .attempt (finishes_raise machine payload)
  | state statement slot keep =>
    cases statement with
    | failure nature durability description =>
      refine .attempt (Finishes.run_liftM ?_)
      refine (returns_process machine).finishes.bind fun {process after} _ _ ↦ ?_
      refine (returns_build after _).finishes.bind fun {failure after} _ _ ↦ ?_
      exact (returns_store after slot failure).finishes.bind fun _ _ ↦ .pure _
    | _ => exact hop.elim
  | inspectGuard name =>
    refine .attempt (Finishes.run_bind (Finishes.run_liftM ?_) fun _ _ ↦ ?_)
    · exact (returns_thread machine).finishes.bind fun _ _ ↦ .pure _
    · exact (finishes_require _ _).run_bind fun _ _ ↦ .run_pure _
  | inspectStack =>
    refine .attempt (Finishes.run_bind (Finishes.run_liftM ?_) fun {height after} _ _ ↦ ?_)
    · exact (returns_thread machine).finishes.bind fun _ _ ↦ .pure _
    · refine Finishes.run_bind (Finishes.run_liftM ?_) fun _ _ ↦ .run_pure _
      exact (returns_thread after).finishes.bind fun _ _ ↦ .pure _
  | inspectOverride recipe => cases recipe <;> exact .attempt (.pure _)
  | makePolicy name recipe => exact .attempt (finishes_makePolicy machine name recipe).run_liftM
  | inspectWriter policy =>
    refine .attempt (finishes_require_thread.run_bind fun {index after} _ _ ↦ ?_)
    exact (finishes_inspectWriter after index).run_liftM
  | inspectRoot =>
    exact .attempt
      ((returns_rootSettings machine).finishes.run_liftM.run_bind fun _ _ ↦ .run_pure _)
  | setUpLog => exact .attempt (.run_pure _)
  | capture capacity =>
    refine .attempt (Finishes.run_liftM ?_)
    exact (returns_process machine).finishes.bind fun _ _ ↦ .pure _
  | hook =>
    exact .attempt ((finishes_installHook machine).run_liftM.run_bind fun _ _ ↦ .run_pure _)
  | malformed name refusal => exact (returns_record machine _).finishes
  | _ => exact hop.elim

end Local

/-- An operation without tasks has nothing to do with overrides. -/
theorem aside_perform_of_local {op : Op} (hop : op.Local) (exec : Exec) :
    Aside (perform exec op) := by
  have hstored (slot : String) (failure : Failure) (answer : Answer) :
      Aside (do store slot failure; return answer : Attempt Answer).run :=
    (Keeps.run_liftM (aside_store slot failure)).run_bind fun _ ↦ .run_pure _
  cases op with
  | make slot draft =>
    exact .attempt ((Keeps.run_liftM (aside_build draft)).run_bind fun _ ↦ hstored slot _ _)
  | copy source slot =>
    exact .attempt ((aside_findFailure source).run_bind fun _ ↦ hstored slot _ _)
  | discard slot =>
    refine .attempt ((Keeps.run_liftM aside_thread).run_bind fun _ ↦ ?_)
    refine (Keeps.run_liftM (aside_modifyThread fun _ _ ↦ ?_)).run_bind fun _ ↦ .run_pure _
    exact ⟨rfl, rfl, rfl, rfl, rfl⟩
  | annotate target site description times =>
    exact .attempt (aside_annotate target site description times)
  | describe source => exact .attempt ((aside_findFailure source).run_bind fun _ ↦ .run_pure _)
  | listContext source skip =>
    exact .attempt ((aside_findFailure source).run_bind fun _ ↦ .run_pure _)
  | inspect source part layout => exact .attempt (aside_inspect source part layout)
  | compare first second skipFirst skipSecond =>
    refine .attempt ((aside_findFailure first).run_bind fun _ ↦ ?_)
    exact (aside_findFailure second).run_bind fun _ ↦ .run_pure _
  | throw source =>
    refine .attempt ((aside_findFailure source).run_bind fun failure ↦ ?_)
    exact aside_raise (.failure failure)
  | panic payload => exact .attempt (aside_raise payload)
  | state statement slot keep =>
    cases statement with
    | failure nature durability description =>
      refine .attempt (.run_liftM (aside_process.bind fun _ ↦ ?_))
      exact (aside_build _).bind fun _ ↦ (aside_store _ _).bind fun _ ↦ .pure _
    | _ => exact hop.elim
  | inspectGuard name =>
    refine .attempt ((Keeps.run_liftM (aside_findGuard? name)).run_bind fun _ ↦ ?_)
    exact (Keeps.run_require _ _).run_bind fun _ ↦ .run_pure _
  | inspectStack =>
    refine .attempt ((Keeps.run_liftM aside_height).run_bind fun _ ↦ ?_)
    exact (Keeps.run_liftM aside_current).run_bind fun _ ↦ .run_pure _
  | inspectOverride recipe => exact .attempt (aside_inspectOverride recipe)
  | makePolicy name recipe => exact .attempt (.run_liftM (aside_makePolicy name recipe))
  | inspectWriter policy =>
    exact .attempt ((aside_findPolicy policy).run_bind fun index ↦
      .run_liftM (aside_inspectWriter index))
  | inspectRoot =>
    exact .attempt ((Keeps.run_liftM aside_rootSettings).run_bind fun _ ↦ .run_pure _)
  | setUpLog => exact .attempt (.run_pure _)
  | capture capacity => exact .attempt (.run_liftM (aside_captureInto capacity))
  | hook => exact .attempt ((Keeps.run_liftM aside_installHook).run_bind fun _ ↦ .run_pure _)
  | malformed name refusal => exact aside_record _
  | _ => exact hop.elim

/-- An operation without tasks does the same with every interpreter. -/
theorem perform_of_local {op : Op} (hop : op.Local) (exec other : Exec) :
    perform exec op = perform other op := by
  cases op with
  | state statement slot keep =>
    cases statement with
    | failure nature durability description => rfl
    | _ => exact hop.elim
  | report | log | delegate | push | pushContext | release | forget | share | unshare | scope
  | guarded | within | thread | handle => exact hop.elim
  | _ => rfl

end Run

end Escalation
