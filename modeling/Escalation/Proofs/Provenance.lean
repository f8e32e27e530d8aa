import Mathlib
import Escalation.Proofs.Bearing
import Escalation.Proofs.Dispatch

/-!
# Where the addresses of failures come from

A failure is made from a walk, from nothing where none is captured, or from addresses that the
program gives by hand. From then on it may be annotated, copied, handled, raised, caught, put into
slots and taken out of them, on this thread or on another one. Nothing of this makes a trace or
exchanges it: whatever a run holds, records or raises is a failure whose trace holds the beginning
of the addresses that were taken at its own site (`Interpreter.bears_run`, `Session.bears_body`).
-/

set_option autoImplicit false
set_option relaxedAutoImplicit false

namespace Escalation

open Bearing (Traced)

variable {known : Known}

namespace Run

/-! ### What is built from tasks -/

section Tasks

variable {exec : Exec} (hexec : ∀ task, Traced known task → Bears known (exec task))
include hexec

theorem bears_runList {ops : List Op} (h : ∀ op ∈ ops, Traced known op) :
    Bears known (runList exec ops) := by
  refine Bears.bind (.modifyThread_of_same fun _ ↦ ⟨rfl, rfl, rfl⟩) fun _ _ ↦ ?_
  refine Bears.andFinally (.forM fun op hop ↦ ?_) (hexec .closeFrame trivial)
  exact hexec (.perform op) (h op hop)

theorem bears_runCleanup {place : Place} {cleanup : Cleanup}
    (h : ∀ op ∈ cleanup.ops, Traced known op) : Bears known (runCleanup exec place cleanup) := by
  have hlist : Bears known (withHandling none (runList exec cleanup.ops)) :=
    .withHandling traced_none (bears_runList hexec h)
  unfold runCleanup
  dsimp only
  split
  · refine hlist.catching.bind fun outcome houtcome ↦ ?_
    cases outcome with
    | ok value => exact .pure trivial
    | error failure =>
      exact .record (traced_of_eq_some rfl houtcome)
  · exact hlist

theorem bears_destroy {override : Override} (h : Traced known override) :
    Bears known (destroy exec override) := by
  unfold destroy
  split
  · rename_i name onRecoverable onFatal onLine cleanup
    refine Bears.height.bind fun _ _ ↦ Bears.bind (.record_of_none rfl) fun _ _ ↦ ?_
    exact bears_runCleanup hexec fun op hop ↦ h op (by simp [Override.ops, Script.ops,
      Cleanup.opsOf, hop])
  · exact .pure trivial

theorem bears_relinquish (object : ObjectId) : Bears known (relinquish exec object) := by
  refine Bears.disown.bind fun found hfound ↦ ?_
  cases found with
  | none => exact .pure trivial
  | some override => exact bears_destroy hexec (hfound override rfl)

theorem bears_relinquishAll (objects : List ObjectId) :
    Bears known (relinquishAll exec objects) := by
  induction objects with
  | nil => exact .pure trivial
  | cons object rest ih => exact (bears_relinquish hexec object).andFinally ih

theorem bears_install (object : ObjectId) : Bears known (install exec object) := by
  refine Bears.thread.bind fun thread _ ↦ ?_
  split
  · refine Bears.bind (.updateStack fun _ ↦ trivial) fun _ _ ↦ ?_
    exact (bears_relinquish hexec object).bind fun _ _ ↦ .raise trivial
  · refine Bears.bind (.updateStack fun _ ↦ trivial) fun guard _ ↦ ?_
    exact Bears.traceEvent.bind fun _ _ ↦ .pure trivial

theorem bears_release (guard : Guard) : Bears known (Run.release exec guard) := by
  refine Bears.thread.bind fun thread _ ↦ ?_
  split
  · exact .pure trivial
  · refine Bears.bind (.updateStack fun _ ↦ trivial) fun released _ ↦ ?_
    cases released with
    | stale => exact .traceEvent
    | inOrder removed => exact (bears_relinquishAll hexec removed).bind fun _ _ ↦ .traceEvent
    | outOfOrder removed =>
      refine (bears_relinquishAll hexec removed).bind fun _ _ ↦ ?_
      refine Bears.isUnwinding.bind fun unwinding _ ↦ ?_
      split
      · exact .raise trivial
      · exact .pure trivial

theorem bears_closeFrame : Bears known (Run.closeFrame exec) := by
  refine Bears.thread.bind fun thread _ ↦ ?_
  split
  · exact .pure trivial
  · exact .modifyThread_of_same fun _ ↦ ⟨rfl, rfl, rfl⟩
  · refine Bears.bind (.modifyThread_of_same fun _ ↦ ⟨rfl, rfl, rfl⟩) fun _ _ ↦ ?_
    exact (hexec (.release _) trivial).andFinally (hexec .closeFrame trivial)

/-! #### Dispatches -/

theorem bears_logFailure (failure : Failure) : Bears known (logFailure exec failure) :=
  Bears.current.bind fun _ _ ↦ hexec (.deliver _ _) trivial

theorem bears_conclude (settings : Settings) {write : Line → Run Unit}
    (hwrite : ∀ sent, Bears known (write sent)) {event : Event} (h : Traced known event) :
    Bears known (conclude exec settings write event) := by
  cases event with
  | line sent => exact hwrite sent
  | failure severity reported =>
    refine Bears.isUnwinding.bind fun unwinding _ ↦ ?_
    split
    · exact Bears.traceEvent.bind fun _ _ ↦ .raise h
    · exact bears_logFailure hexec reported
    · exact Bears.traceEvent.bind fun _ _ ↦ bears_logFailure hexec reported

theorem bears_concludeBy (index : ℕ) {event : Event} (h : Traced known event) :
    Bears known (concludeBy exec index event) := by
  refine Bears.thread.bind fun thread _ ↦ ?_
  split
  · exact .pure trivial
  · refine bears_conclude hexec _ (fun sent ↦ ?_) h
    dsimp only
    split
    · exact .writeDiagnostics
    · exact .writeFully (fun _ ↦ .offer) .modifyWriter

theorem bears_concludeAtRoot {event : Event} (h : Traced known event) :
    Bears known (concludeAtRoot exec event) :=
  Bears.rootSettings.bind fun settings _ ↦
    bears_conclude hexec settings (fun _ ↦ .writeDiagnostics) h

theorem bears_handleBy {override : Override} (hoverride : Traced known override) {event : Event}
    (h : Traced known event) (next : Link) :
    Bears known (handleBy exec override event next) := by
  cases override with
  | transparent => exact hexec (.deliver event next) h
  | context remark => exact hexec (.deliver _ next) (event.traced_annotate remark h)
  | bridge level =>
    cases event with
    | line sent => exact .forward
    | failure severity reported => exact hexec (.deliver _ next) h
  | policy index => exact bears_concludeBy hexec index h
  | script script =>
    refine Bears.bind (.record ?_) fun _ _ ↦ ?_
    · cases event with
      | line sent => exact traced_of_eq_none rfl
      | failure severity reported =>
        exact traced_of_eq_some rfl h
    · split
      · exact hexec (.deliver event next) h
      · rename_i ops hops
        refine .withHandling (traced_some h) ?_
        exact bears_runList hexec fun op hop ↦
          hoverride op (Script.mem_ops_of_handler hops hop)

theorem bears_deliver {event : Event} (h : Traced known event) (link : Link) :
    Bears known (Run.deliver exec event link) := by
  refine Bears.thread.bind fun thread _ ↦ ?_
  rcases thread.stack.resolve link with _ | ⟨object, next⟩
  · exact bears_concludeAtRoot hexec h
  · refine Bears.acquire.bind fun found hfound ↦ ?_
    cases found with
    | none => exact .pure trivial
    | some override =>
      exact (bears_handleBy hexec (hfound override rfl) h next).andFinally
        (bears_relinquish hexec object)

/-! #### Operations -/

theorem bears_pushObject {object : ObjectId} {name : String} {keep : Bool} :
    Bears known (pushObject exec object name keep) := by
  refine (bears_install hexec object).bind fun guard _ ↦ ?_
  exact Bears.keepGuard.bind fun _ _ ↦ .answer rfl

theorem bears_giveUp (object : Option ObjectId) :
    Bears known (object.forM (relinquish exec)) := by
  cases object with
  | none => exact .pure trivial
  | some object => exact bears_relinquish hexec object

theorem bears_share {object : ObjectId} {name : String} :
    Bears known (share exec object name) := by
  refine Bears.thread.bind fun thread _ ↦ ?_
  refine Bears.bind (.modifyThread_of_same fun _ ↦ ⟨rfl, rfl, rfl⟩) fun _ _ ↦ ?_
  exact (bears_giveUp hexec _).bind fun _ _ ↦ .answer rfl

theorem bears_unshare {name : String} : Bears known (unshare exec name) := by
  refine Bears.thread.bind fun thread _ ↦ ?_
  refine Bears.bind (.modifyThread_of_same fun _ ↦ ⟨rfl, rfl, rfl⟩) fun _ _ ↦ ?_
  exact (bears_giveUp hexec _).bind fun _ _ ↦ .answer rfl

theorem bears_runScope {body : List Op} {deferred : Option Cleanup}
    (h : ∀ op ∈ body ++ Cleanup.opsOf deferred, Traced known op) :
    Bears known (runScope exec body deferred) := by
  have hdeferred : Bears known (runDeferred exec deferred) := by
    cases deferred with
    | none => exact .pure trivial
    | some cleanup =>
      refine Bears.isUnwinding.bind fun _ _ ↦ Bears.bind (.record_of_none rfl) fun _ _ ↦ ?_
      exact bears_runCleanup hexec fun op hop ↦ h op (List.mem_append_right body hop)
  refine Bears.bind (.modifyThread_of_same fun _ ↦ ⟨rfl, rfl, rfl⟩) fun _ _ ↦ ?_
  refine Bears.andFinally (.forM fun op hop ↦ ?_)
    (hdeferred.andFinally (hexec .closeFrame trivial))
  exact hexec (.perform op) (h op (List.mem_append_left _ hop))

theorem bears_runWithin {object : ObjectId} {body : List Op} (h : ∀ op ∈ body, Traced known op) :
    Bears known (runWithin exec object body) := by
  refine (bears_install hexec object).bind fun guard _ ↦ Bears.bind ?_ fun _ _ ↦
    Bears.height.bind fun _ _ ↦ .answer rfl
  exact ((bears_runList hexec h).bind fun _ _ ↦ .height).andFinally (hexec (.release guard) trivial)

/-- A failure of a statement has the addresses of the walk. -/
theorem bears_execute {statement : Statement} {slot : String} {keep : Bool} :
    Bears known (execute exec statement slot keep) := by
  have hdeliver {event : Event} (h : Traced known event) :
      Bears known (do exec (.deliver event (← current)); return .returned : Run Answer) :=
    Bears.current.bind fun _ _ ↦ (hexec (.deliver _ _) h).bind fun _ _ ↦ .answer rfl
  refine Bears.process.bind fun process hprocess ↦ ?_
  have hbuild (nature : Nature) (durability : Durability) (description : String) :
      Bears known (build
        { site := process.statementSite, origin := .classified nature durability description }) :=
    .build hprocess.statements
  cases statement with
  | expect nature holds condition message =>
    dsimp only
    split
    · exact (hbuild _ _ _).bind fun failure hfailure ↦ hdeliver hfailure
    · exact .answer rfl
  | fatal nature durability description =>
    exact (hbuild _ _ _).bind fun failure hfailure ↦ hdeliver hfailure
  | line text => exact hdeliver trivial
  | context description =>
    refine Bears.bind (.newObject (by simp [Traced, Override.ops])) fun object _ ↦ ?_
    exact bears_pushObject hexec
  | failure nature durability description =>
    refine (hbuild _ _ _).bind fun failure hfailure ↦ ?_
    refine (Bears.store hfailure).bind fun _ _ ↦ .pure ?_
    exact traced_of_eq_some rfl hfailure

/-! #### Threads -/

theorem bears_runCaught {ops : List Op} (h : ∀ op ∈ ops, Traced known op) :
    Bears known (runCaught exec ops) := by
  have hraised {outcome : Except Failure Unit} (houtcome : Traced known outcome) :
      Traced known (raisedBy outcome) := by
    cases outcome with
    | ok value => exact traced_none
    | error failure => exact traced_some houtcome
  have hsteps (index : ℕ) : Bears known (runSteps exec index ops) := by
    induction ops generalizing index with
    | nil => exact .pure trivial
    | cons op rest ih =>
      refine (hexec (.perform op) (h op List.mem_cons_self)).catching.bind fun outcome houtcome ↦ ?_
      refine Bears.height.bind fun _ _ ↦ (Bears.record (hraised houtcome)).bind fun _ _ ↦ ?_
      exact ih (fun other hother ↦ h other (List.mem_cons_of_mem op hother)) (index + 1)
  have hshared : Bears known (dropShared exec) := by
    refine Bears.thread.bind fun thread _ ↦ ?_
    refine Bears.bind (.modifyThread_of_same fun _ ↦ ⟨rfl, rfl, rfl⟩) fun _ _ ↦ ?_
    exact bears_relinquishAll hexec _
  refine Bears.bind (.modifyThread_of_same fun _ ↦ ⟨rfl, rfl, rfl⟩) fun _ _ ↦ ?_
  refine (hsteps 0).bind fun _ _ ↦ ?_
  refine (hexec .closeFrame trivial).catching.bind fun outcome houtcome ↦ ?_
  exact hshared.bind fun _ _ ↦ Bears.height.bind fun _ _ ↦ .record (hraised houtcome)

theorem bears_tearDown (late : Option Guard) : Bears known (tearDown exec late) := by
  refine Bears.thread.bind fun thread _ ↦ ?_
  refine Bears.bind (.modifyThread_of_same fun _ ↦ ⟨rfl, rfl, rfl⟩) fun _ _ ↦ ?_
  refine (bears_relinquishAll hexec _).bind fun _ _ ↦ ?_
  cases late with
  | none => exact .pure trivial
  | some guard =>
    refine Bears.height.bind fun _ _ ↦ Bears.current.bind fun _ _ ↦ ?_
    refine Bears.bind (.record_of_none rfl) fun _ _ ↦ Bears.current.bind fun link _ ↦ ?_
    refine (hexec (.deliver (.line lateLine) link) trivial).bind fun _ _ ↦ ?_
    exact (hexec (.release guard) trivial).bind fun _ _ ↦ .record_of_none rfl

theorem bears_installLate (plan : ThreadPlan) : Bears known (installLate exec plan) := by
  unfold installLate
  split
  · refine Bears.bind (.newObject (by simp [Traced, Override.ops])) fun object _ ↦ ?_
    exact (bears_install hexec object).bind fun _ _ ↦ .pure (traced_some trivial)
  · exact .pure traced_none

/-- A thread begins without failures, and the thread that started it goes on as it was. -/
theorem bears_runThread (plan : ThreadPlan) {ops : List Op} (h : ∀ op ∈ ops, Traced known op) :
    Bears known (runThread exec plan ops) := by
  have hbody : Bears known (if plan.uncaught then runList exec ops else runCaught exec ops) := by
    split
    · exact bears_runList hexec h
    · exact bears_runCaught hexec h
  refine Bears.thread.bind fun starter hstarter ↦ ?_
  have hfresh : Traced known ({ name := plan.name } : Thread) :=
    ⟨by simp [Table.values], traced_none, by simp⟩
  refine Bears.bind (.modifyThread fun _ _ ↦ hfresh) fun _ _ ↦ ?_
  refine (bears_installLate hexec plan).bind fun late _ ↦ ?_
  refine hbody.intercept.bind fun outcome houtcome ↦ ?_
  refine (bears_tearDown hexec late).intercept.bind fun torn _ ↦ ?_
  cases torn with
  | error payload => exact .throw trivial
  | ok value =>
    refine Bears.bind (.modifyThread fun _ _ ↦ hstarter) fun _ _ ↦ ?_
    cases outcome with
    | ok value => exact .pure traced_none
    | error payload => exact .pure (traced_some houtcome)

/-! #### All operations -/

theorem bears_perform {op : Op} (h : Traced known op) : Bears known (perform exec op) := by
  have hinner (inner : Op) (hinner : inner ∈ op.inner) : Traced known inner :=
    Op.traced_inner h hinner
  have hgiven (made : Site × List UInt64) (hown : made ∈ op.given known.captured) :
      known.allows made.1 made.2 := h made.1 made.2 (.itself hown)
  cases op with
  | make slot draft =>
    refine .attempt ((Bears.run_liftM (.build ?_)).run_bind fun failure hfailure ↦ ?_)
    · exact hgiven _ List.mem_cons_self
    · exact (Bears.run_liftM (.store hfailure)).run_bind fun _ _ ↦ .run_pure
        (traced_of_eq_some rfl hfailure)
  | copy source slot =>
    refine .attempt ((Bears.findFailure hgiven).run_bind fun failure hfailure ↦ ?_)
    exact (Bears.run_liftM (.store hfailure)).run_bind fun _ _ ↦ .run_pure
      (traced_of_eq_some rfl hfailure)
  | discard slot =>
    refine .attempt ((Bears.run_liftM .thread).run_bind fun thread hthread ↦ ?_)
    refine Bears.run_bind (.run_liftM (.modifyThread fun _ h ↦ ⟨?_, h.handling, h.objects⟩))
      fun _ _ ↦ .run_answer rfl
    exact fun held hheld ↦ h.slots held (Table.mem_values_of_mem_erase hheld)
  | annotate target site description times => exact .attempt .annotate
  | describe source =>
    exact .attempt ((Bears.findFailure hgiven).run_bind fun failure hfailure ↦ .run_pure
      (traced_of_eq_some rfl hfailure))
  | listContext source skip =>
    exact .attempt ((Bears.findFailure hgiven).run_bind fun _ _ ↦ .run_answer rfl)
  | inspect source part layout => exact .attempt (.inspect hgiven)
  | compare first second skipFirst skipSecond =>
    refine .attempt (Bears.run_bind (.findFailure ?_) fun _ _ ↦
      Bears.run_bind (.findFailure ?_) fun _ _ ↦ .run_answer rfl)
    · exact fun made hown ↦ hgiven made (List.mem_append_left _ hown)
    · exact fun made hown ↦ hgiven made (List.mem_append_right _ hown)
  | report severity source destination =>
    refine .attempt ((Bears.findFailure hgiven).run_bind fun failure hfailure ↦ ?_)
    refine Bears.findLink.run_bind fun link _ ↦ ?_
    exact (Bears.run_liftM (hexec (.deliver _ link) hfailure)).run_bind fun _ _ ↦ .run_answer rfl
  | log line destination =>
    refine .attempt ((Bears.buildLine hgiven).run_bind fun sent _ ↦ ?_)
    refine Bears.findLink.run_bind fun link _ ↦ ?_
    have hdeliver := hexec (.deliver (.line sent) link) trivial
    exact (Bears.run_liftM hdeliver).run_bind fun _ _ ↦ .run_answer rfl
  | delegate source line =>
    refine .attempt ((Bears.run_liftM .thread).run_bind fun thread hthread ↦ ?_)
    refine Bears.run_bind (.run_require hthread.handling) fun handling _ ↦ ?_
    refine Bears.run_bind (.findEvent ?_ ?_) fun event hevent ↦ ?_
    · exact fun made hown ↦ hgiven made (List.mem_append_left _ hown)
    · exact fun made hown ↦ hgiven made (List.mem_append_right _ hown)
    · exact (Bears.run_liftM (hexec (.deliver _ _) hevent)).run_bind fun _ _ ↦ .run_answer rfl
  | throw source =>
    exact .attempt ((Bears.findFailure hgiven).run_bind fun _ hfailure ↦ .raise hfailure)
  | panic payload => exact .attempt (.raise (Payload.traced_of_given hgiven))
  | state statement slot keep => exact .attempt (.run_liftM (bears_execute hexec))
  | push recipe guard keep =>
    refine .attempt ((Bears.obtain hinner).run_bind fun object _ ↦ ?_)
    exact .run_liftM (bears_pushObject hexec)
  | pushContext remark guard keep =>
    refine .attempt ((Bears.obtain (by simp [Traced, Recipe.ops])).run_bind fun object _ ↦ ?_)
    exact .run_liftM (bears_pushObject hexec)
  | release name =>
    refine .attempt ((Bears.run_liftM .takeGuard?).run_bind fun taken htaken ↦ ?_)
    refine (Bears.run_require htaken).run_bind fun guard _ ↦ ?_
    refine (Bears.run_liftM (hexec (.release guard) trivial)).run_bind fun _ _ ↦ ?_
    exact (Bears.run_liftM .height).run_bind fun _ _ ↦ .run_answer rfl
  | forget name =>
    refine .attempt ((Bears.run_liftM .takeGuard?).run_bind fun taken htaken ↦ ?_)
    refine (Bears.run_require htaken).run_bind fun guard _ ↦ ?_
    exact (Bears.run_liftM .height).run_bind fun _ _ ↦ .run_answer rfl
  | inspectGuard name =>
    refine .attempt ((Bears.run_liftM .findGuard?).run_bind fun found hfound ↦ ?_)
    exact (Bears.run_require hfound).run_bind fun _ _ ↦ .run_answer rfl
  | inspectStack =>
    refine .attempt ((Bears.run_liftM .height).run_bind fun _ _ ↦ ?_)
    exact (Bears.run_liftM .current).run_bind fun _ _ ↦ .run_answer rfl
  | share recipe name =>
    refine .attempt ((Bears.obtain hinner).run_bind fun object _ ↦ ?_)
    exact .run_liftM (bears_share hexec)
  | unshare name => exact .attempt (.run_liftM (bears_unshare hexec))
  | inspectOverride recipe => exact .attempt .inspectOverride
  | scope body deferred =>
    exact .attempt ((Bears.run_liftM (bears_runScope hexec hinner)).run_bind
      fun _ _ ↦ .run_answer rfl)
  | guarded body deferred slot =>
    refine .attempt ((Bears.run_liftM (bears_runScope hexec hinner).catching).run_bind
      fun outcome houtcome ↦ ?_)
    cases outcome with
    | ok value => exact .run_answer rfl
    | error failure =>
      exact (Bears.run_liftM (.store houtcome)).run_bind fun _ _ ↦ .run_pure
        (traced_of_eq_some rfl houtcome)
  | within recipe body =>
    refine .attempt (Bears.run_bind (.obtain ?_) fun object _ ↦
      .run_liftM (bears_runWithin hexec ?_))
    · exact fun op hop ↦ hinner op (List.mem_append_left _ hop)
    · exact fun op hop ↦ hinner op (List.mem_append_right _ hop)
  | thread plan ops slot =>
    refine .attempt ((Bears.run_liftM (bears_runThread hexec plan hinner)).run_bind
      fun outcome houtcome ↦ ?_)
    cases outcome with
    | none => exact .run_answer rfl
    | some payload =>
      refine (Bears.run_liftM (.absorb (houtcome payload rfl))).run_bind fun failure hfailure ↦ ?_
      exact (Bears.run_liftM (.store hfailure)).run_bind fun _ _ ↦ .run_pure
        (traced_of_eq_some rfl hfailure)
  | makePolicy name recipe => exact .attempt (.run_liftM .makePolicy)
  | handle policy kind source line =>
    refine .attempt (Bears.findPolicy.run_bind fun index _ ↦
      Bears.run_bind (.findEvent ?_ ?_) fun event hevent ↦ ?_)
    · exact fun made hown ↦ hgiven made (List.mem_append_left _ hown)
    · exact fun made hown ↦ hgiven made (List.mem_append_right _ hown)
    · exact (Bears.run_liftM (bears_concludeBy hexec index hevent)).run_bind
        fun _ _ ↦ .run_answer rfl
  | inspectWriter policy =>
    exact .attempt (Bears.findPolicy.run_bind fun index _ ↦ .run_liftM .inspectWriter)
  | inspectRoot =>
    exact .attempt ((Bears.run_liftM .rootSettings).run_bind fun _ _ ↦ .run_answer rfl)
  | setUpLog => exact .attempt (.run_answer rfl)
  | capture capacity => exact .attempt (.run_liftM .captureInto)
  | hook => exact .attempt ((Bears.run_liftM .installHook).run_bind fun _ _ ↦ .run_answer rfl)
  | malformed name refusal => exact .record_of_none rfl

end Tasks

end Run

/-! ### Whole runs -/

/-- Whatever is performed, from a state that is traced a run goes to such a state, and what it
raises is traced. -/
theorem Interpreter.bears_run (depth : ℕ) {task : Task} (h : Traced known task) :
    Run.Bears known (run depth task) := by
  induction depth generalizing task with
  | zero => exact .throw trivial
  | succ depth ih =>
    have hexec (nested : Task) : Traced known nested → Run.Bears known (run depth nested) := ih
    cases task with
    | perform op => exact Run.bears_perform hexec h
    | deliver event link => exact Run.bears_deliver hexec h link
    | closeFrame => exact Run.bears_closeFrame hexec
    | release guard => exact Run.bears_release hexec guard

namespace Session

/-- The state in which a session begins, with any call stack. -/
def startAt (session : Session) (walk : List UInt64) : Machine :=
  { session.start with process := { session.start.process with walk } }

/-- What is known of the failures of a session with this call stack. At a site where the program
makes failures they have the addresses that are given or captured there; statements, and catches of
what is no failure, make them with the captured addresses. -/
def provenance (session : Session) (walk : List UInt64) : Known where
  captured := (session.startAt walk).process.captured
  allows site addresses :=
    let captured := (session.startAt walk).process.captured
    (∃ op ∈ session.ops, op.Gives captured site addresses) ∨
      addresses = captured ∧ (site = session.statementSite ∨ site = Run.unknownSite)

/-- A session begins without failures. -/
theorem traced_startAt (session : Session) (walk : List UInt64) :
    Traced (session.provenance walk) (session.startAt walk) :=
  ⟨⟨rfl, .inr ⟨rfl, .inl rfl⟩, .inr ⟨rfl, .inr rfl⟩,
      by simp [startAt, start, Process.initial]⟩,
    ⟨by simp [startAt, start, Table.values], traced_none, by simp [startAt, start]⟩⟩

theorem bears_body (session : Session) (h : ∀ op ∈ session.ops, Traced known op) :
    Run.Bears known session.body := by
  have hthread : Run.Bears known
      (Run.runThread (Interpreter.run Interpreter.depthLimit) session.plan session.ops) :=
    Run.bears_runThread (fun _ htask ↦ Interpreter.bears_run _ htask) session.plan h
  have huncaught {payload : Payload} (hpayload : Traced known payload) :
      Run.Bears known (Run.absorb payload >>= fun failure ↦ Run.record (.uncaught failure)) :=
    (Run.Bears.absorb hpayload).bind fun _ hfailure ↦ .record (traced_of_eq_some rfl hfailure)
  unfold body
  split
  · refine Run.Bears.installHook.bind fun _ _ ↦ hthread.bind fun outcome houtcome ↦ ?_
    cases outcome with
    | none => exact .pure trivial
    | some payload => exact huncaught (houtcome payload rfl)
  · refine hthread.bind fun outcome houtcome ↦ ?_
    cases outcome with
    | none => exact .pure trivial
    | some payload => exact huncaught (houtcome payload rfl)

end Session

/-- Capturing writes the beginning of a walk into a row of cells of any size, never behind its end,
says how many cells that took and leaves the others as they were. A failure is made at the site of
its draft, and holds the addresses that are given by hand, or else those of the call stack if they
are captured and none if they are not, in each case the first sixteen. A failure that is annotated
or copied has the same trace, and so has one that was delivered where it is raised or logged.

Whatever happens to failures after they were made, each of them that is held, recorded or raised has
the beginning of the addresses that were given, or captured, at its own site, in whole sessions on
any call stack, too. -/
theorem traces_hold_beginnings :
    (∀ {size : ℕ} (walk : List UInt64) (cells : Vector UInt64 size), ∃ written,
      capture? walk cells = some (written, min walk.length size) ∧
      written.toList = walk.take size ++ cells.toList.drop (min walk.length size)) ∧
    (∀ (draft : Draft) (machine : Machine),
      let captured :=
        if machine.process.effectiveSettings.capturing = true then machine.process.walk else []
      let taken := draft.origin.given?.getD captured
      ∃ made process, Run.build draft machine = .ok made { machine with process } ∧
        made.site = draft.site ∧ made.trace.Holds taken ∧
        made.trace.addresses = taken.take 16) ∧
    (∀ (failure : Failure) (remarks : List Remark),
      (failure.annotateAll remarks).trace = failure.trace ∧ failure.copy.trace = failure.trace) ∧
    (∀ (machine : Machine) (severity : Severity) (reported : Failure) (link : Link) (depth : ℕ),
      machine.Plain → 2 * machine.thread.stack.height + 2 ≤ depth → ∃ arrived : Failure,
        arrived.site = reported.site ∧ arrived.trace = reported.trace ∧
        Run.ComesOut (Interpreter.run depth (.deliver (.failure severity reported) link)) machine
          (machine.failureOutcome severity arrived
            (chainEnd (.failure severity) (machine.chain link)))) ∧
    (∀ (known : Known) (machine : Machine) (task : Task) (depth : ℕ),
      Traced known machine → Traced known task →
        Traced known (Interpreter.run depth task machine)) ∧
    ∀ (session : Session) (walk : List UInt64),
      Traced (session.provenance walk) (session.body (session.startAt walk)) := by
  refine ⟨fun walk cells ↦ capture?_eq walk cells, fun draft machine ↦ ?_,
    fun failure remarks ↦ ⟨failure.trace_annotateAll remarks, failure.trace_copy⟩,
    fun machine severity reported link depth hplain hdepth ↦ ?_,
    fun known machine task depth hmachine htask ↦ ?_, fun session walk ↦ ?_⟩
  · have hholds := draft.holds_build machine.process.captured
    exact ⟨_, _, Run.build_eq draft machine, draft.site_build _, hholds, hholds.addresses_eq⟩
  · have hlength := machine.length_chain_le link
    have houtcome := Interpreter.comesOut_failure hplain severity reported link
      (show _ < depth by omega)
    refine ⟨_, ?_, ?_, houtcome⟩
    · rfl
    · rfl
  · exact Interpreter.bears_run depth htask machine hmachine
  · refine session.bears_body (fun op hop site addresses hgives ↦ ?_) _
      (session.traced_startAt walk)
    exact Or.inl ⟨op, hop, hgives⟩

/-- Where the call stack has one address, a failure is made with twenty others. -/
theorem traces_hold_beginnings_of_twenty :
    let site : Site := { file := "a.rs", line := 1 }
    let given : List UInt64 := List.replicate 20 9
    let known : Known :=
      { captured := [7]
        allows := fun other addresses ↦ addresses = if other = site then given else [7] }
    let machine : Machine :=
      { process := { walk := [7], statementSite := { file := "b.rs", line := 2 } } }
    let draft : Draft := { site, origin := .traced .unclassified .permanent "" given }
    let task : Task := .perform (.make "a" draft)
    Traced known machine ∧ Traced known task ∧ Traced known (Interpreter.run 1 task machine) := by
  intro site given known machine draft task
  have hmachine : Traced known machine := by
    refine ⟨⟨by decide, ?_, ?_, by simp [machine]⟩,
      ⟨by simp [machine, Table.values], traced_none, by simp [machine]⟩⟩
    · exact (if_neg (by decide)).symm
    · exact (if_neg (by decide)).symm
  have htask : Traced known task := by
    intro other addresses hgives
    cases hgives with
    | itself hgiven =>
      obtain ⟨rfl, rfl⟩ := Prod.mk.inj (List.mem_singleton.mp hgiven)
      exact (if_pos rfl).symm
    | inside hinner => cases hinner
  exact ⟨hmachine, htask, traces_hold_beginnings.2.2.2.2.1 known machine task 1 hmachine htask⟩

end Escalation
