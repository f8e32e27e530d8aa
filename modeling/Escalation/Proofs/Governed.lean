import Escalation.Proofs.Discipline
import Escalation.Proofs.Finishing

/-!
# What an interpreter under a discipline does

The tasks nested in a task are performed by an interpreter that is governed by a lawful discipline.
Then lists of operations, cleanups and destructors keep what a list keeps
(`Discipline.keeps_runList`, `Discipline.keeps_relinquish`), dispatches do
(`Discipline.keeps_deliver`), and every allowed operation keeps what an operation keeps
(`Discipline.keeps_perform`), unless it starts a thread. Together they say that the task keeps its
contract (`Discipline.Governs.permits_step`).
-/

set_option autoImplicit false
set_option relaxedAutoImplicit false

namespace Escalation

namespace Discipline

open Run

variable {discipline : Discipline} {exec : Exec}

/-- A task that performs an allowed operation keeps the contract of operations. -/
theorem Governs.perform (hexec : discipline.Governs exec) {op : Op} (hop : discipline.allows op) :
    Keeps discipline.grown discipline.stop (exec (.perform op)) :=
  (hexec (.perform op)).mono (fun hbefore ↦ ⟨hop, hbefore⟩) fun _ hchange ↦ hchange

theorem Governs.deliver (hexec : discipline.Governs exec) (event : Event) (link : Link) :
    Keeps discipline.kept discipline.stop (exec (.deliver event link)) :=
  hexec (.deliver event link)

section Bracketing

variable [discipline.Bracketing]

/-- What keeps the contract of a list keeps the contract of an operation. -/
theorem keeps_grown_of_kept {α : Type} {part : Run α}
    (h : Keeps discipline.kept discipline.stop part) :
    Keeps discipline.grown discipline.stop part :=
  h.mono Bracketing.before_kept Bracketing.change_grown

/-! ### Lists, cleanups and destructors -/

theorem keeps_forM_perform (hexec : discipline.Governs exec) {ops : List Op}
    (hops : ∀ op ∈ ops, discipline.allows op) :
    Keeps discipline.grown discipline.stop (ops.forM fun op ↦ exec (.perform op)) :=
  .forM fun op hop ↦ hexec.perform (hops op hop)

theorem keeps_runList (hexec : discipline.Governs exec) {ops : List Op}
    (hops : ∀ op ∈ ops, discipline.allows op) :
    Keeps discipline.kept discipline.stop (runList exec ops) := by
  have hlist := Bracketing.bracket hexec (keeps_forM_perform hexec hops) (.pure ())
  rwa [andFinally_pure] at hlist

theorem keeps_runCleanup (hexec : discipline.Governs exec) (place : Place) {cleanup : Cleanup}
    (hops : ∀ op ∈ cleanup.ops, discipline.allows op) :
    Keeps discipline.kept discipline.stop (runCleanup exec place cleanup) := by
  have hlist : Keeps discipline.kept discipline.stop
      (withHandling none (runList exec cleanup.ops)) := (keeps_runList hexec hops).withHandling
  unfold runCleanup
  dsimp only
  split
  · refine hlist.catching.bind fun outcome ↦ ?_
    cases outcome with
    | ok value => exact .pure _
    | error failure => exact .of_aside (aside_record _)
  · exact hlist

theorem keeps_runDeferred (hexec : discipline.Governs exec) {deferred : Option Cleanup}
    (hops : ∀ op ∈ Cleanup.opsOf deferred, discipline.allows op) :
    Keeps discipline.kept discipline.stop (runDeferred exec deferred) := by
  cases deferred with
  | none => exact .pure _
  | some cleanup =>
    refine (Keeps.of_aside aside_isUnwinding).bind fun unwinding ↦ ?_
    refine (Keeps.of_aside (aside_record _)).bind fun _ ↦ ?_
    exact keeps_runCleanup hexec .deferred hops

theorem keeps_runScope (hexec : discipline.Governs exec) {body : List Op}
    {deferred : Option Cleanup} (hbody : ∀ op ∈ body, discipline.allows op)
    (hdeferred : ∀ op ∈ Cleanup.opsOf deferred, discipline.allows op) :
    Keeps discipline.kept discipline.stop (runScope exec body deferred) :=
  Bracketing.bracket hexec (keeps_forM_perform hexec hbody) (keeps_runDeferred hexec hdeferred)

theorem keeps_destroy (hexec : discipline.Governs exec) {override : Override}
    (hops : ∀ op ∈ override.ops, discipline.allows op) :
    Keeps discipline.kept discipline.stop (destroy exec override) := by
  unfold destroy
  split
  · rename_i name onRecoverable onFatal onLine cleanup
    refine (Keeps.of_aside aside_height).bind fun height ↦ ?_
    refine (Keeps.of_aside (aside_record _)).bind fun _ ↦ ?_
    refine keeps_runCleanup hexec .destructor fun op hop ↦ hops op ?_
    change op ∈ Script.ops _
    simp [Script.ops, Cleanup.opsOf, hop]
  · exact .pure _

omit [discipline.Bracketing] in
/-- What an object does is found out when its last owner is taken away. -/
theorem override_of_disown {object : ObjectId} {machine after : Machine} {override : Override}
    (h : disown object machine = .ok (some override) after) :
    ∃ held, machine.thread.objects[object]? = some held ∧ held.override = override := by
  change EStateM.Result.ok _ _ = _ at h
  injection h with hoverride _
  cases hheld : machine.thread.objects[object]? with
  | none => simp [hheld] at hoverride
  | some held =>
    simp only [hheld] at hoverride
    split at hoverride
    · exact ⟨held, rfl, Option.some.inj hoverride⟩
    · cases hoverride

theorem keeps_relinquish (hexec : discipline.Governs exec) (object : ObjectId) :
    Keeps (discipline.given discipline.kept [object]) discipline.stop
      (relinquish exec object) := by
  unfold relinquish
  refine .bind_of_ok (.of_aside (aside_disown object)) ?_
  intro machine override after hbefore hend hchange
  cases override with
  | none => exact (Keeps.pure ()) after (Contract.Composable.before_of_change hbefore hchange)
  | some override =>
    obtain ⟨held, hheld, rfl⟩ := override_of_disown hend
    have hops := Bracketing.allows_of_knows (hbefore.2 object (by simp)) hheld
    exact keeps_destroy hexec hops after
      (Contract.Composable.before_of_change hbefore.1 hchange)

/-- The objects that are given up are known to begin with, and stay so while others go. -/
theorem keeps_relinquishAll (hexec : discipline.Governs exec) (objects : List ObjectId) :
    Keeps (discipline.given discipline.kept objects) discipline.stop
      (relinquishAll exec objects) := by
  induction objects with
  | nil => exact .pure ()
  | cons object rest ih =>
    unfold relinquishAll
    refine Keeps.andFinally ?_ ?_
    · refine (keeps_relinquish hexec object).mono ?_ fun _ hchange ↦ hchange
      exact fun hbefore ↦ ⟨hbefore.1, fun other hother ↦ hbefore.2 other (by simp_all)⟩
    · refine ih.mono ?_ fun _ hchange ↦ hchange
      exact fun hbefore ↦ ⟨hbefore.1, fun other hother ↦ hbefore.2 other (by simp [hother])⟩

/-! ### Dispatches -/

theorem keeps_logFailure (hexec : discipline.Governs exec) (failure : Failure) :
    Keeps discipline.kept discipline.stop (logFailure exec failure) :=
  (Keeps.of_aside aside_current).bind fun link ↦ hexec.deliver _ link

theorem keeps_conclude (hexec : discipline.Governs exec) (settings : Settings)
    {write : Line → Run Unit} (hwrite : ∀ sent, Aside (write sent)) (event : Event) :
    Keeps discipline.kept discipline.stop (conclude exec settings write event) := by
  cases event with
  | line sent => exact .of_aside (hwrite sent)
  | failure severity reported =>
    refine (Keeps.of_aside aside_isUnwinding).bind fun unwinding ↦ ?_
    split
    · refine (Keeps.of_aside (aside_traceEvent _ _ _)).bind fun _ ↦ ?_
      exact .of_aside (aside_raise _)
    · exact keeps_logFailure hexec reported
    · refine (Keeps.of_aside (aside_traceEvent _ _ _)).bind fun _ ↦ ?_
      exact keeps_logFailure hexec reported

theorem keeps_concludeBy (hexec : discipline.Governs exec) (index : Nat) (event : Event) :
    Keeps discipline.kept discipline.stop (concludeBy exec index event) := by
  unfold concludeBy
  refine (Keeps.of_aside aside_thread).bind fun thread ↦ ?_
  split
  · exact .pure _
  · refine keeps_conclude hexec _ (fun sent ↦ ?_) event
    dsimp only
    split
    · exact aside_writeDiagnostics _
    · exact aside_writeFully (aside_offer index) (aside_modifyWriter index _) _

theorem keeps_concludeAtRoot (hexec : discipline.Governs exec) (event : Event) :
    Keeps discipline.kept discipline.stop (concludeAtRoot exec event) :=
  (Keeps.of_aside aside_rootSettings).bind fun settings ↦
    keeps_conclude hexec settings (fun _ ↦ aside_writeDiagnostics _) event

theorem keeps_handleBy (hexec : discipline.Governs exec) {override : Override}
    (hops : ∀ op ∈ override.ops, discipline.allows op) (event : Event) (next : Link) :
    Keeps discipline.kept discipline.stop (handleBy exec override event next) := by
  cases override with
  | transparent => exact hexec.deliver event next
  | context remark => exact hexec.deliver _ next
  | bridge level =>
    cases event with
    | line sent => exact .of_aside (aside_forward level sent)
    | failure severity reported => exact hexec.deliver _ next
  | policy index => exact keeps_concludeBy hexec index event
  | script script =>
    refine (Keeps.of_aside (aside_record _)).bind fun _ ↦ ?_
    split
    · exact hexec.deliver event next
    · rename_i ops hhandler
      refine (keeps_runList hexec fun op hop ↦ ?_).withHandling
      exact hops op (Script.mem_ops_of_handler hhandler hop)

omit [discipline.Bracketing] in
/-- What an object does is found out when an owner is added. -/
theorem override_of_acquire {object : ObjectId} {machine after : Machine} {override : Override}
    (h : acquire object machine = .ok (some override) after) :
    ∃ held, machine.thread.objects[object]? = some held ∧ held.override = override := by
  change EStateM.Result.ok _ _ = _ at h
  injection h with hoverride _
  cases hheld : machine.thread.objects[object]? with
  | none => simp [hheld] at hoverride
  | some held =>
    simp only [hheld] at hoverride
    exact ⟨held, rfl, Option.some.inj hoverride⟩

/-- An override that an event is handed to is known, so what it does with the event is allowed, and
so is its destructor if it is destroyed behind its own handler. -/
theorem keeps_handOver (hexec : discipline.Governs exec) (event : Event) (object : ObjectId)
    (next : Link) : Keeps (discipline.given discipline.kept [object]) discipline.stop
      (handOver exec event (some (object, next))) := by
  unfold handOver
  refine .bind_of_ok (.of_aside (aside_acquire object)) ?_
  intro machine override after hbefore hend hchange
  have hafter := Contract.Composable.before_of_change hbefore hchange
  cases override with
  | none => exact (Keeps.pure ()) after hafter
  | some override =>
    obtain ⟨held, hheld, rfl⟩ := override_of_acquire hend
    have hops := Bracketing.allows_of_knows (hbefore.2 object (by simp)) hheld
    refine Keeps.andFinally ?_ (keeps_relinquish hexec object) after hafter
    exact (keeps_handleBy hexec hops event next).mono (fun h ↦ h.1) fun _ h ↦ h

theorem keeps_deliver (hexec : discipline.Governs exec) (event : Event) (link : Link) :
    Keeps discipline.kept discipline.stop (deliver exec event link) := by
  intro machine hbefore
  change discipline.kept.Permits _ machine
    (handOver exec event (machine.thread.stack.resolve link) machine)
  cases hresolve : machine.thread.stack.resolve link with
  | none => exact keeps_concludeAtRoot hexec event machine hbefore
  | some found =>
    have hknows := Bracketing.knows_of_resolve hbefore hresolve
    exact keeps_handOver hexec event found.1 found.2 machine ⟨hbefore, by simpa using hknows⟩

end Bracketing

/-! ### Override objects that operations name -/

/-- The recipe of a policy is refused if there is no policy of the name. -/
theorem run_obtain_policy (name : String) (machine : Machine) :
    (obtain (.policy name)).run machine =
      (require .noSuchPolicy (machine.thread.policyNames.find? name) >>= fun index ↦
        liftM (newObject (.policy index)) : Attempt ObjectId).run machine := rfl

/-- The recipe of a shared override is refused if none is shared under the name. -/
theorem run_obtain_shared (name : String) (machine : Machine) :
    (obtain (.shared name)).run machine =
      (require .noSuchShared (machine.thread.shared.find? name) >>= fun object ↦ do
        let _ ← acquire object
        return object : Attempt ObjectId).run machine := rfl

variable [discipline.Operative]

/-- Describing an override makes its object known. -/
theorem change_of_obtain {recipe : Recipe} (hops : ∀ op ∈ recipe.ops, discipline.allows op)
    {machine : Machine} (hbefore : discipline.kept.before machine) :
    match (obtain recipe).run machine with
    | .ok (.ok object) after => discipline.kept.change machine after ∧
        discipline.knows after object
    | .ok (.error _) after => discipline.kept.change machine after
    | .error _ _ => False := by
  have hmade (override : Override) (hoverride : ∀ op ∈ override.ops, discipline.allows op) :=
    Operative.newObject hbefore hoverride rfl
  have hsame : discipline.kept.change machine machine :=
    Contract.Composable.change_of_sameOverrides hbefore (.refl machine)
  cases recipe with
  | transparent => exact hmade .transparent (by simp [Override.ops])
  | script script => exact hmade (.script script) hops
  | context remark => exact hmade (.context remark) (by simp [Override.ops])
  | bridge level => exact hmade (.bridge level) (by simp [Override.ops])
  | policy name =>
    rw [run_obtain_policy]
    cases machine.thread.policyNames.find? name with
    | none => exact hsame
    | some index => exact hmade (.policy index) (by simp [Override.ops])
  | shared name =>
    rw [run_obtain_shared]
    cases hfind : machine.thread.shared.find? name with
    | none => exact hsame
    | some object =>
      have hacquire := Contract.Composable.change_of_sameOverrides hbefore
        (aside_acquire object machine trivial)
      exact ⟨hacquire, Bracketing.knows_of_change hbefore hacquire
        (Bracketing.knows_of_shared hbefore hfind)⟩

/-- An operation that uses an override goes on with an object that is known. -/
theorem keeps_obtain_bind {recipe : Recipe} (hops : ∀ op ∈ recipe.ops, discipline.allows op)
    {next : ObjectId → Run Answer}
    (hnext : ∀ object, Keeps (discipline.given discipline.grown [object]) discipline.stop
      (next object)) :
    Keeps discipline.grown discipline.stop
      (do next (← obtain recipe) : Attempt Answer).run := by
  rw [ExceptT.run_bind]
  intro machine hbefore
  have hobtain := change_of_obtain hops (Bracketing.before_kept hbefore)
  change discipline.grown.Permits _ machine (EStateM.bind (obtain recipe).run _ machine)
  unfold EStateM.bind
  split at hobtain
  · rename_i object after hend
    rw [hend]
    have hchange := Bracketing.change_grown hbefore hobtain.1
    have hafter := Contract.Composable.before_of_change hbefore hchange
    refine Contract.Permits.of_change ?_ hbefore hchange
    exact (hnext object).map Except.ok after ⟨hafter, by simpa using hobtain.2⟩
  · rename_i refusal after hend
    rw [hend]
    exact Bracketing.change_grown hbefore hobtain
  · exact hobtain.elim

/-- An object that was shared is given up behind a change of the names. -/
theorem permits_forM_relinquish (hexec : discipline.Governs exec) {machine after : Machine}
    {before : Option ObjectId} (hbefore : discipline.kept.before machine)
    (hknown : ∀ object, before = some object → discipline.knows machine object)
    (hchange : discipline.kept.change machine after) (answer : Answer) :
    discipline.kept.Permits discipline.stop machine
      ((do before.forM (relinquish exec); return answer : Run Answer) after) := by
  have hafter := Contract.Composable.before_of_change hbefore hchange
  refine Contract.Permits.of_change ?_ hbefore hchange
  cases before with
  | none => exact (Keeps.pure answer) after hafter
  | some object =>
    have hobject := Bracketing.knows_of_change hbefore hchange (hknown object rfl)
    refine (Keeps.bind (keeps_relinquish hexec object) fun _ ↦ .pure answer) after ?_
    exact ⟨hafter, by simpa using hobject⟩

theorem keeps_share (hexec : discipline.Governs exec) (object : ObjectId) (name : String) :
    Keeps (discipline.given discipline.kept [object]) discipline.stop
      (share exec object name) := by
  intro machine ⟨hbefore, hknown⟩
  exact permits_forM_relinquish hexec hbefore
    (fun other hother ↦ Bracketing.knows_of_shared hbefore hother)
    (Operative.share hbefore (hknown object (by simp))) _

theorem keeps_unshare (hexec : discipline.Governs exec) (name : String) :
    Keeps discipline.kept discipline.stop (unshare exec name) := by
  intro machine hbefore
  exact permits_forM_relinquish hexec hbefore
    (fun other hother ↦ Bracketing.knows_of_shared hbefore hother) (Operative.unshare hbefore) _

/-- What keeps the contract of a list given an object keeps that of an operation given it. -/
theorem keeps_given_grown {α : Type} {part : Run α} {objects : List ObjectId}
    (h : Keeps (discipline.given discipline.kept objects) discipline.stop part) :
    Keeps (discipline.given discipline.grown objects) discipline.stop part :=
  h.mono (fun hbefore ↦ ⟨Bracketing.before_kept hbefore.1, hbefore.2⟩) fun hbefore hchange ↦
    Bracketing.change_grown hbefore.1 hchange

/-! ### Operations -/

theorem keeps_deliver_current (hexec : discipline.Governs exec) (event : Event)
    (answer : Answer) : Keeps discipline.grown discipline.stop
      (do exec (.deliver event (← current)); return answer : Run Answer) :=
  keeps_grown_of_kept ((Keeps.of_aside aside_current).bind fun link ↦
    (hexec.deliver event link).bind fun _ ↦ .pure _)

/-- A context is described by a recipe without operations, and installed like any override. -/
theorem keeps_pushContext (hexec : discipline.Governs exec) {op : Op} {keep : Bool}
    (hop : discipline.allows op) (hkeep : op.lends? = some keep) (remark : Remark)
    (name : String) : Keeps discipline.grown discipline.stop
      (do pushObject exec (← newObject (.context remark)) name keep : Run Answer) := by
  intro machine hbefore
  obtain ⟨hchange, hknows⟩ := Operative.newObject (Bracketing.before_kept hbefore)
    (show ∀ op ∈ (Override.context remark).ops, discipline.allows op by simp [Override.ops]) rfl
  have hgrown := Bracketing.change_grown hbefore hchange
  refine Contract.Permits.of_change ?_ hbefore hgrown
  exact Operative.push hexec hop hkeep _
    ⟨Contract.Composable.before_of_change hbefore hgrown, by simpa using hknows⟩

/-- A statement of source code makes a failure or a line and delivers it, or installs a context. -/
theorem keeps_execute (hexec : discipline.Governs exec) {statement : Statement} {slot : String}
    {keep : Bool} (hop : discipline.allows (.state statement slot keep)) :
    Keeps discipline.grown discipline.stop (execute exec statement slot keep) := by
  unfold execute
  refine (Keeps.of_aside aside_process).bind fun process ↦ ?_
  cases statement with
  | expect nature holds condition message =>
    dsimp only
    split
    · refine (Keeps.of_aside (aside_build _)).bind fun failure ↦ ?_
      exact keeps_deliver_current hexec _ _
    · exact .pure _
  | fatal nature durability description =>
    refine (Keeps.of_aside (aside_build _)).bind fun failure ↦ ?_
    exact keeps_deliver_current hexec _ _
  | line text => exact keeps_deliver_current hexec _ _
  | context description => exact keeps_pushContext hexec hop rfl _ _
  | failure nature durability description =>
    refine (Keeps.of_aside (aside_build _)).bind fun failure ↦ ?_
    exact (Keeps.of_aside (aside_store _ _)).bind fun _ ↦ .pure _

/-- A list behind a catch keeps what a list keeps, and so does the operation that runs it. -/
theorem keeps_perform_guarded (hexec : discipline.Governs exec) {body : List Op}
    {deferred : Option Cleanup} {slot : String}
    (hop : discipline.allows (.guarded body deferred slot)) :
    Keeps discipline.kept discipline.stop (perform exec (.guarded body deferred slot)) := by
  have hscope : Keeps discipline.kept discipline.stop (runScope exec body deferred) :=
    keeps_runScope hexec (fun inner h ↦ Bracketing.allows_inner hop (by simp [Op.inner, h]))
      fun inner h ↦ Bracketing.allows_inner hop (by simp [Op.inner, h])
  refine .attempt (.run_bind (.run_liftM hscope.catching) fun outcome ↦ ?_)
  cases outcome with
  | ok value => exact .run_pure _
  | error failure =>
    exact .run_bind (.run_liftM (.of_aside (aside_store _ _))) fun _ ↦ .run_pure _

theorem keeps_perform (hexec : discipline.Governs exec) {op : Op} (hop : discipline.allows op)
    (hthread : op.startsThread = false) :
    Keeps discipline.grown discipline.stop (perform exec op) := by
  by_cases hlocal : op.Local
  · exact .of_aside (aside_perform_of_local hlocal exec)
  have hinner : ∀ inner ∈ op.inner, discipline.allows inner :=
    fun inner hinner ↦ Bracketing.allows_inner hop hinner
  have hdeliver (event : Event) (link : Link) :
      Keeps discipline.grown discipline.stop (exec (.deliver event link)) :=
    keeps_grown_of_kept (hexec.deliver event link)
  cases op with
  | report severity source destination =>
    refine .attempt (.run_bind (.of_aside (aside_findFailure source)) fun failure ↦ ?_)
    refine .run_bind (.of_aside (aside_findLink destination)) fun link ↦ ?_
    exact .run_bind (.run_liftM (hdeliver _ link)) fun _ ↦ .run_pure _
  | log line destination =>
    refine .attempt (.run_bind (.of_aside (aside_buildLine line)) fun sent ↦ ?_)
    refine .run_bind (.of_aside (aside_findLink destination)) fun link ↦ ?_
    exact .run_bind (.run_liftM (hdeliver _ link)) fun _ ↦ .run_pure _
  | delegate source line =>
    refine .attempt (.run_bind (.run_liftM (.of_aside aside_thread)) fun thread ↦ ?_)
    refine .run_bind (.run_require _ _) fun handling ↦ ?_
    refine .run_bind (.of_aside (aside_findEvent _ source line)) fun event ↦ ?_
    exact .run_bind (.run_liftM (hdeliver event _)) fun _ ↦ .run_pure _
  | state statement slot keep => exact .attempt (.run_liftM (keeps_execute hexec hop))
  | push recipe guard keep =>
    exact .attempt (keeps_obtain_bind hinner fun object ↦ Operative.push hexec hop rfl)
  | pushContext remark guard keep =>
    exact .attempt (.run_liftM (keeps_pushContext hexec hop rfl remark guard))
  | release name =>
    refine .attempt (.run_bind (.run_liftM (Operative.takeGuard (.inl hop))) fun taken ↦ ?_)
    refine .run_bind (.run_require _ _) fun guard ↦ ?_
    refine .run_bind (.run_liftM (Operative.releaseHeld hexec hop)) fun _ ↦ ?_
    exact .run_bind (.run_liftM (.of_aside aside_height)) fun _ ↦ .run_pure _
  | forget name =>
    refine .attempt (.run_bind (.run_liftM (Operative.takeGuard (.inr hop))) fun taken ↦ ?_)
    refine .run_bind (.run_require _ _) fun guard ↦ ?_
    exact .run_bind (.run_liftM (.of_aside aside_height)) fun _ ↦ .run_pure _
  | share recipe name =>
    exact .attempt (keeps_obtain_bind hinner fun object ↦
      keeps_given_grown (keeps_share hexec object name))
  | unshare name =>
    exact .attempt (.run_liftM (keeps_grown_of_kept (keeps_unshare hexec name)))
  | scope body deferred =>
    refine .attempt (.run_bind (.run_liftM (keeps_grown_of_kept (keeps_runScope hexec
      (fun inner h ↦ hinner inner ?_) fun inner h ↦ hinner inner ?_))) fun _ ↦ .run_pure _)
    · simp [Op.inner, h]
    · simp [Op.inner, h]
  | guarded body deferred slot => exact keeps_grown_of_kept (keeps_perform_guarded hexec hop)
  | within recipe body =>
    refine .attempt (keeps_obtain_bind (fun inner h ↦ hinner inner (by simp [Op.inner, h]))
      fun object ↦ keeps_given_grown (Operative.within hexec ?_))
    exact keeps_runList hexec fun inner h ↦ hinner inner (by simp [Op.inner, h])
  | thread plan ops slot => cases hthread
  | handle policy kind source line =>
    refine .attempt (.run_bind (.of_aside (aside_findPolicy policy)) fun index ↦ ?_)
    refine .run_bind (.of_aside (aside_findEvent kind source line)) fun event ↦ ?_
    exact .run_bind (.run_liftM (keeps_grown_of_kept (keeps_concludeBy hexec index event)))
      fun _ ↦ .run_pure _
  | _ => exact absurd trivial hlocal

/-- A task keeps its contract if the tasks nested in it do, it does not start a thread, and it keeps
its contract if it is the release of a guard. -/
theorem Governs.permits_step (hexec : discipline.Governs exec) {task : Task} {machine : Machine}
    (hthread : task.startsThread = false)
    (hrelease : ∀ guard, task = .release guard → (discipline.releasing guard).Permits
      discipline.stop machine (Run.release exec guard machine))
    (hbefore : (discipline.contract task).before machine) :
    (discipline.contract task).Permits discipline.stop machine
      (Interpreter.step exec task machine) := by
  cases task with
  | perform op => exact keeps_perform hexec hbefore.1 hthread machine hbefore.2
  | deliver event link => exact keeps_deliver hexec event link machine hbefore
  | closeFrame => exact Operative.closeFrame hexec machine hbefore
  | release guard => exact hrelease guard rfl

/-- An operation that starts a thread keeps what a discipline that spans threads promises. -/
theorem keeps_perform_thread [discipline.SpansThreads] (hexec : Unstopped exec)
    {plan : ThreadPlan} {ops : List Op} {slot : String}
    (hop : discipline.allows (.thread plan ops slot)) :
    Keeps discipline.grown discipline.stop (perform exec (.thread plan ops slot)) := by
  refine .attempt (.run_bind (.run_liftM (SpansThreads.runThread hexec hop)) fun outcome ↦ ?_)
  cases outcome with
  | none => exact .run_pure _
  | some payload =>
    refine .run_bind (.run_liftM (.of_aside (aside_absorb payload))) fun failure ↦ ?_
    exact .run_bind (.run_liftM (.of_aside (aside_store _ _))) fun _ ↦ .run_pure _

end Discipline

end Escalation
