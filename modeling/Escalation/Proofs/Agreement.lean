import Escalation.Proofs.Moments

/-!
# Runs that agree unless they break off

A part of a run that breaks off without raising is over for good: nothing goes on behind it, not a
sequence, a catch or a cleanup. So what is built from parts that agree unless they break off agrees
unless it does (`Run.Agrees`), and this goes for all operations and dispatches if their nested tasks
agree (`Interpreter.agrees_step`).

A run that is watched ends as it does when nobody watches, unless it is stopped where a task is
picked out (`Interpreter.agrees_runUntil`).
-/

set_option autoImplicit false
set_option relaxedAutoImplicit false

namespace Escalation

namespace Run

/-- A part ends like another one, unless it breaks off without raising, as a fact says. -/
def Agrees (broken : Interrupt → Machine → Prop) {α : Type} (part other : Run α) : Prop :=
  ∀ machine, part machine = other machine ∨ ∃ interrupt moment,
    part machine = .error interrupt moment ∧ (∀ payload, interrupt ≠ .raised payload) ∧
      broken interrupt moment

namespace Agrees

variable {broken : Interrupt → Machine → Prop} {α β : Type}

theorem refl (part : Run α) : Agrees broken part part := fun _ ↦ .inl rfl

theorem bind {part other : Run α} {next nextOther : α → Run β} (h : Agrees broken part other)
    (hnext : ∀ value, Agrees broken (next value) (nextOther value)) :
    Agrees broken (part >>= next) (other >>= nextOther) := by
  intro machine
  rcases h machine with hend | ⟨interrupt, moment, hend, hbreak⟩
  · rcases hother : other machine with ⟨value, after⟩ | ⟨interrupt, after⟩
    · rw [bind_of_ok (hend.trans hother), bind_of_ok hother]
      exact hnext value after
    · rw [bind_of_error (hend.trans hother), bind_of_error hother]
      exact .inl rfl
  · exact .inr ⟨interrupt, moment, bind_of_error hend, hbreak⟩

theorem map {part other : Run α} (change : α → β) (h : Agrees broken part other) :
    Agrees broken (change <$> part) (change <$> other) := by
  rw [map_eq_pure_bind, map_eq_pure_bind]
  exact h.bind fun _ ↦ .refl _

/-- Where a body breaks off, no cleanup runs. -/
theorem andFinally {body other : Run α} {cleanup cleanupOther : Run Unit}
    (hbody : Agrees broken body other) (hcleanup : Agrees broken cleanup cleanupOther) :
    Agrees broken (Run.andFinally body cleanup) (Run.andFinally other cleanupOther) := by
  intro machine
  rcases hbody machine with hend | ⟨interrupt, moment, hend, hbreak, hbroken⟩
  · unfold Run.andFinally
    rw [hend]
    rcases other machine with ⟨value, after⟩ | ⟨payload | _ | _ | _, after⟩
    · dsimp only
      rcases hcleanup after with hlast | ⟨interrupt, moment, hlast, hbroken⟩
      · exact .inl (by rw [hlast])
      · exact .inr ⟨interrupt, moment, by rw [hlast], hbroken⟩
    · dsimp only
      rcases hcleanup after with hlast | ⟨interrupt, moment, hlast, hbreak, hbroken⟩
      · exact .inl (by rw [hlast])
      · refine .inr ⟨interrupt, moment, ?_, hbreak, hbroken⟩
        rw [hlast]
        cases interrupt with
        | raised payload => exact absurd rfl (hbreak payload)
        | _ => rfl
    all_goals exact .inl rfl
  · exact .inr ⟨interrupt, moment, andFinally_of_break hbreak hend, hbreak, hbroken⟩

/-- What is not raised is not intercepted. -/
theorem intercept {body other : Run α} (h : Agrees broken body other) :
    Agrees broken (Run.intercept body) (Run.intercept other) := by
  intro machine
  rcases h machine with hend | ⟨interrupt, moment, hend, hbreak, hbroken⟩
  · refine .inl ?_
    unfold Run.intercept
    rw [hend]
  · refine .inr ⟨interrupt, moment, ?_, hbreak, hbroken⟩
    unfold Run.intercept
    rw [hend]
    cases interrupt with
    | raised payload => exact absurd rfl (hbreak payload)
    | _ => rfl

theorem forM {γ : Type} {items : List γ} {part other : γ → Run Unit}
    (h : ∀ item, Agrees broken (part item) (other item)) :
    Agrees broken (items.forM part) (items.forM other) := by
  induction items with
  | nil => exact .refl _
  | cons item rest ih =>
    simp only [List.forM_eq_forM, List.forM_cons] at ih ⊢
    exact (h item).bind fun _ ↦ ih

theorem catching {body other : Run α} (h : Agrees broken body other) :
    Agrees broken (Run.catching body) (Run.catching other) :=
  h.intercept.bind fun _ ↦ .refl _

theorem withHandling {body other : Run α} (handling : Option Handling)
    (h : Agrees broken body other) :
    Agrees broken (Run.withHandling handling body) (Run.withHandling handling other) :=
  (refl _).bind fun _ ↦ (refl _).bind fun _ ↦ h.andFinally (.refl _)

theorem run_liftM {part other : Run α} (h : Agrees broken part other) :
    Agrees broken (liftM part : Attempt α).run (liftM other : Attempt α).run := h.map Except.ok

theorem run_bind {part other : Attempt α} {next nextOther : α → Attempt β}
    (h : Agrees broken part.run other.run)
    (hnext : ∀ value, Agrees broken (next value).run (nextOther value).run) :
    Agrees broken (part >>= next).run (other >>= nextOther).run := by
  rw [ExceptT.run_bind, ExceptT.run_bind]
  refine h.bind fun outcome ↦ ?_
  cases outcome with
  | ok value => exact hnext value
  | error refusal => exact .refl _

/-- An operation that goes on with a value which is found in the same way. -/
theorem run_bind_of {part : Attempt α} {next nextOther : α → Attempt β}
    (hnext : ∀ value, Agrees broken (next value).run (nextOther value).run) :
    Agrees broken (part >>= next).run (part >>= nextOther).run := (refl part.run).run_bind hnext

theorem attempt {action other : Attempt Answer} (op : Op) (h : Agrees broken action.run other.run) :
    Agrees broken (Run.attempt op action) (Run.attempt op other) := h.bind fun _ ↦ .refl _

end Agrees

/-! ### What is built from tasks -/

variable {broken : Interrupt → Machine → Prop} {exec other : Exec}

section Tasks

variable (hexec : ∀ task, Agrees broken (exec task) (other task))
include hexec

theorem agrees_runList (ops : List Op) : Agrees broken (runList exec ops) (runList other ops) :=
  (Agrees.refl _).bind fun _ ↦
    (Agrees.forM fun _ ↦ hexec (.perform _)).andFinally (hexec .closeFrame)

theorem agrees_runCleanup (place : Place) (cleanup : Cleanup) :
    Agrees broken (runCleanup exec place cleanup) (runCleanup other place cleanup) := by
  have hlist := (agrees_runList hexec cleanup.ops).withHandling none
  unfold runCleanup
  dsimp only
  split
  · exact hlist.catching.bind fun _ ↦ .refl _
  · exact hlist

theorem agrees_destroy (override : Override) :
    Agrees broken (destroy exec override) (destroy other override) := by
  unfold destroy
  split
  · refine (Agrees.refl _).bind fun _ ↦ (Agrees.refl _).bind fun _ ↦ ?_
    exact agrees_runCleanup hexec .destructor _
  · exact .refl _

theorem agrees_relinquish (object : ObjectId) :
    Agrees broken (relinquish exec object) (relinquish other object) := by
  refine (Agrees.refl _).bind fun found ↦ ?_
  cases found with
  | none => exact .refl _
  | some override => exact agrees_destroy hexec override

theorem agrees_relinquishAll (objects : List ObjectId) :
    Agrees broken (relinquishAll exec objects) (relinquishAll other objects) := by
  induction objects with
  | nil => exact .refl _
  | cons object rest ih => exact (agrees_relinquish hexec object).andFinally ih

theorem agrees_install (object : ObjectId) :
    Agrees broken (install exec object) (install other object) := by
  refine (Agrees.refl _).bind fun thread ↦ ?_
  split
  · refine (Agrees.refl _).bind fun _ ↦ ?_
    exact (agrees_relinquish hexec object).bind fun _ ↦ .refl _
  · exact .refl _

theorem agrees_release (guard : Guard) :
    Agrees broken (Run.release exec guard) (Run.release other guard) := by
  refine (Agrees.refl _).bind fun thread ↦ ?_
  split
  · exact .refl _
  · refine (Agrees.refl _).bind fun released ↦ ?_
    cases released with
    | stale => exact .refl _
    | inOrder removed => exact (agrees_relinquishAll hexec removed).bind fun _ ↦ .refl _
    | outOfOrder removed => exact (agrees_relinquishAll hexec removed).bind fun _ ↦ .refl _

theorem agrees_closeFrame : Agrees broken (Run.closeFrame exec) (Run.closeFrame other) := by
  refine (Agrees.refl _).bind fun thread ↦ ?_
  split
  · exact .refl _
  · exact .refl _
  · exact (Agrees.refl _).bind fun _ ↦ (hexec (.release _)).andFinally (hexec .closeFrame)

/-! ### Dispatches -/

theorem agrees_logFailure (failure : Failure) :
    Agrees broken (logFailure exec failure) (logFailure other failure) :=
  (Agrees.refl _).bind fun link ↦ hexec (.deliver _ link)

theorem agrees_conclude (settings : Settings) (write : Line → Run Unit) (event : Event) :
    Agrees broken (conclude exec settings write event) (conclude other settings write event) := by
  cases event with
  | line sent => exact .refl _
  | failure severity reported =>
    refine (Agrees.refl _).bind fun unwinding ↦ ?_
    split
    · exact .refl _
    · exact agrees_logFailure hexec reported
    · exact (Agrees.refl _).bind fun _ ↦ agrees_logFailure hexec reported

theorem agrees_concludeBy (index : Nat) (event : Event) :
    Agrees broken (concludeBy exec index event) (concludeBy other index event) := by
  refine (Agrees.refl _).bind fun thread ↦ ?_
  split
  · exact .refl _
  · exact agrees_conclude hexec _ _ event

theorem agrees_concludeAtRoot (event : Event) :
    Agrees broken (concludeAtRoot exec event) (concludeAtRoot other event) :=
  (Agrees.refl _).bind fun settings ↦ agrees_conclude hexec settings _ event

theorem agrees_handleBy (override : Override) (event : Event) (next : Link) :
    Agrees broken (handleBy exec override event next) (handleBy other override event next) := by
  cases override with
  | transparent => exact hexec (.deliver event next)
  | context remark => exact hexec (.deliver _ next)
  | bridge level =>
    cases event with
    | line sent => exact .refl _
    | failure severity reported => exact hexec (.deliver _ next)
  | policy index => exact agrees_concludeBy hexec index event
  | script script =>
    refine (Agrees.refl _).bind fun _ ↦ ?_
    split
    · exact hexec (.deliver event next)
    · exact (agrees_runList hexec _).withHandling _

theorem agrees_handOver (event : Event) (found : Option (ObjectId × Link)) :
    Agrees broken (handOver exec event found) (handOver other event found) := by
  cases found with
  | none => exact agrees_concludeAtRoot hexec event
  | some found =>
    refine (Agrees.refl _).bind fun override ↦ ?_
    cases override with
    | none => exact .refl _
    | some override =>
      exact (agrees_handleBy hexec override event found.2).andFinally
        (agrees_relinquish hexec found.1)

theorem agrees_deliver (event : Event) (link : Link) :
    Agrees broken (Run.deliver exec event link) (Run.deliver other event link) :=
  (Agrees.refl _).bind fun thread ↦ agrees_handOver hexec event (thread.stack.resolve link)

/-! ### Operations -/

theorem agrees_pushObject (object : ObjectId) (name : String) (keep : Bool) :
    Agrees broken (pushObject exec object name keep) (pushObject other object name keep) :=
  (agrees_install hexec object).bind fun _ ↦ .refl _

theorem agrees_forM_relinquish (before : Option ObjectId) (answer : Answer) :
    Agrees broken (do before.forM (relinquish exec); return answer : Run Answer)
      (do before.forM (relinquish other); return answer : Run Answer) := by
  cases before with
  | none => exact .refl _
  | some object => exact (agrees_relinquish hexec object).bind fun _ ↦ .refl _

theorem agrees_runScope (body : List Op) (deferred : Option Cleanup) :
    Agrees broken (runScope exec body deferred) (runScope other body deferred) := by
  refine (Agrees.refl _).bind fun _ ↦ (Agrees.forM fun _ ↦ hexec (.perform _)).andFinally ?_
  refine Agrees.andFinally ?_ (hexec .closeFrame)
  cases deferred with
  | none => exact .refl _
  | some cleanup =>
    refine (Agrees.refl _).bind fun _ ↦ (Agrees.refl _).bind fun _ ↦ ?_
    exact agrees_runCleanup hexec .deferred cleanup

theorem agrees_runWithin (object : ObjectId) (body : List Op) :
    Agrees broken (runWithin exec object body) (runWithin other object body) := by
  refine (agrees_install hexec object).bind fun guard ↦ Agrees.bind ?_ fun _ ↦ .refl _
  exact ((agrees_runList hexec body).bind fun _ ↦ .refl _).andFinally (hexec (.release guard))

theorem agrees_execute (statement : Statement) (slot : String) (keep : Bool) :
    Agrees broken (execute exec statement slot keep) (execute other statement slot keep) := by
  have hdeliver (event : Event) (answer : Answer) : Agrees broken
      (do exec (.deliver event (← current)); return answer : Run Answer)
      (do other (.deliver event (← current)); return answer : Run Answer) :=
    (Agrees.refl _).bind fun link ↦ (hexec (.deliver event link)).bind fun _ ↦ .refl _
  refine (Agrees.refl _).bind fun process ↦ ?_
  cases statement with
  | expect nature holds condition message =>
    dsimp only
    split
    · exact (Agrees.refl _).bind fun _ ↦ hdeliver _ _
    · exact .refl _
  | fatal nature durability description => exact (Agrees.refl _).bind fun _ ↦ hdeliver _ _
  | line text => exact hdeliver _ _
  | context description =>
    exact (Agrees.refl _).bind fun object ↦ agrees_pushObject hexec object slot keep
  | failure nature durability description => exact .refl _

/-! ### Threads -/

theorem agrees_runSteps (index : Nat) (ops : List Op) :
    Agrees broken (runSteps exec index ops) (runSteps other index ops) := by
  induction ops generalizing index with
  | nil => exact .refl _
  | cons op rest ih =>
    refine (hexec (.perform op)).catching.bind fun outcome ↦ (Agrees.refl _).bind fun height ↦ ?_
    exact (Agrees.refl _).bind fun _ ↦ ih (index + 1)

theorem agrees_runCaught (ops : List Op) :
    Agrees broken (runCaught exec ops) (runCaught other ops) := by
  refine (Agrees.refl _).bind fun _ ↦ (agrees_runSteps hexec 0 ops).bind fun _ ↦ ?_
  refine (hexec .closeFrame).catching.bind fun outcome ↦ Agrees.bind ?_ fun _ ↦ .refl _
  refine (Agrees.refl _).bind fun thread ↦ (Agrees.refl _).bind fun _ ↦ ?_
  exact agrees_relinquishAll hexec _

theorem agrees_tearDown (late : Option Guard) :
    Agrees broken (tearDown exec late) (tearDown other late) := by
  refine (Agrees.refl _).bind fun thread ↦ (Agrees.refl _).bind fun _ ↦ ?_
  refine (agrees_relinquishAll hexec _).bind fun _ ↦ ?_
  cases late with
  | none => exact .refl _
  | some guard =>
    refine (Agrees.refl _).bind fun height ↦ (Agrees.refl _).bind fun link ↦ ?_
    refine (Agrees.refl _).bind fun _ ↦ (Agrees.refl _).bind fun link ↦ ?_
    exact (hexec (.deliver _ link)).bind fun _ ↦ (hexec (.release guard)).bind fun _ ↦ .refl _

theorem agrees_installLate (plan : ThreadPlan) :
    Agrees broken (installLate exec plan) (installLate other plan) := by
  unfold installLate
  split
  · exact (Agrees.refl _).bind fun object ↦ (agrees_install hexec object).bind fun _ ↦ .refl _
  · exact .refl _

theorem agrees_runThread (plan : ThreadPlan) (ops : List Op) :
    Agrees broken (runThread exec plan ops) (runThread other plan ops) := by
  refine (Agrees.refl _).bind fun starter ↦ (Agrees.refl _).bind fun _ ↦ ?_
  refine (agrees_installLate hexec plan).bind fun late ↦ Agrees.bind ?_ fun outcome ↦ ?_
  · refine Agrees.intercept ?_
    split
    · exact agrees_runList hexec ops
    · exact agrees_runCaught hexec ops
  · exact (agrees_tearDown hexec late).intercept.bind fun _ ↦ .refl _

/-! ### All operations -/

theorem agrees_perform (op : Op) : Agrees broken (perform exec op) (perform other op) := by
  cases op with
  | report severity source destination =>
    refine .attempt _ (.run_bind_of fun failure ↦ .run_bind_of fun link ↦ ?_)
    exact (hexec (.deliver _ link)).run_liftM.run_bind fun _ ↦ .refl _
  | log line destination =>
    refine .attempt _ (.run_bind_of fun sent ↦ .run_bind_of fun link ↦ ?_)
    exact (hexec (.deliver _ link)).run_liftM.run_bind fun _ ↦ .refl _
  | delegate source line =>
    refine .attempt _ (.run_bind_of fun thread ↦ .run_bind_of fun handling ↦
      .run_bind_of fun event ↦ ?_)
    exact (hexec (.deliver event _)).run_liftM.run_bind fun _ ↦ .refl _
  | state statement slot keep =>
    exact .attempt _ (agrees_execute hexec statement slot keep).run_liftM
  | push recipe guard keep =>
    refine .attempt _ (.run_bind_of fun object ↦ ?_)
    exact (agrees_pushObject hexec object guard keep).run_liftM
  | pushContext remark guard keep =>
    refine .attempt _ (.run_bind_of fun object ↦ ?_)
    exact (agrees_pushObject hexec object guard keep).run_liftM
  | release name =>
    refine .attempt _ (.run_bind_of fun taken ↦ .run_bind_of fun guard ↦ ?_)
    exact (hexec (.release guard)).run_liftM.run_bind fun _ ↦ .refl _
  | share recipe name =>
    refine .attempt _ (.run_bind_of fun object ↦ Agrees.run_liftM ?_)
    refine (Agrees.refl _).bind fun thread ↦ (Agrees.refl _).bind fun _ ↦ ?_
    exact agrees_forM_relinquish hexec _ _
  | unshare name =>
    refine .attempt _ (Agrees.run_liftM ((Agrees.refl _).bind fun thread ↦ ?_))
    exact (Agrees.refl _).bind fun _ ↦ agrees_forM_relinquish hexec _ _
  | scope body deferred =>
    exact .attempt _ ((agrees_runScope hexec body deferred).run_liftM.run_bind fun _ ↦ .refl _)
  | guarded body deferred slot =>
    refine .attempt _ ((agrees_runScope hexec body deferred).catching.run_liftM.run_bind ?_)
    exact fun _ ↦ .refl _
  | within recipe body =>
    exact .attempt _ (.run_bind_of fun object ↦ (agrees_runWithin hexec object body).run_liftM)
  | handle policy kind source line =>
    refine .attempt _ (.run_bind_of fun index ↦ .run_bind_of fun event ↦ ?_)
    exact (agrees_concludeBy hexec index event).run_liftM.run_bind fun _ ↦ .refl _
  | thread plan ops slot =>
    exact .attempt _ ((agrees_runThread hexec plan ops).run_liftM.run_bind fun _ ↦ .refl _)
  | _ => exact .refl _

end Tasks

end Run

/-! ### Runs -/

namespace Interpreter

open Run

variable {broken : Interrupt → Machine → Prop} {exec other : Exec}

/-- Tasks agree if the tasks nested in them do. -/
theorem agrees_step (hexec : ∀ task, Agrees broken (exec task) (other task)) (task : Task) :
    Agrees broken (step exec task) (step other task) := by
  cases task with
  | perform op => exact agrees_perform hexec op
  | deliver event link => exact agrees_deliver hexec event link
  | closeFrame => exact agrees_closeFrame hexec
  | release guard => exact agrees_release hexec guard

theorem runUntil_succ (watch : Task → Machine → Bool) (depth : Nat) (task : Task)
    (machine : Machine) : runUntil watch (depth + 1) task machine =
      if watch task machine then .error .stopped machine
      else step (if task.startsThread then run depth else runUntil watch depth) task machine := rfl

/-- A run is stopped where a watch picks out a task. -/
def StoppedBy (watch : Task → Machine → Bool) (interrupt : Interrupt) (moment : Machine) : Prop :=
  interrupt = .stopped ∧ ∃ picked, watch picked moment = true

/-- A watched run ends as it does when nobody watches, unless it is stopped where a task is picked
out. -/
theorem agrees_runUntil (watch : Task → Machine → Bool) (depth : Nat) (task : Task) :
    Agrees (StoppedBy watch) (runUntil watch depth task) (run depth task) := by
  induction depth generalizing task with
  | zero => exact .refl _
  | succ depth ih =>
    intro machine
    rw [runUntil_succ, run_succ]
    by_cases hpicked : watch task machine = true
    · rw [if_pos hpicked]
      exact .inr ⟨.stopped, machine, rfl, fun _ ↦ nofun, rfl, task, hpicked⟩
    · rw [if_neg hpicked]
      by_cases hthread : task.startsThread = true
      · rw [if_pos hthread]
        exact .inl rfl
      · rw [if_neg hthread]
        exact agrees_step ih task machine

end Interpreter

end Escalation
