import Escalation.Proofs.Uniform

/-!
# Moments of a run

A run can be stopped where a task is about to be performed (`Interpreter.runUntil`); a thread that
the run starts and waits for is left alone. What is true wherever a run can be stopped is true at
every moment to which it comes (`Interpreter.ComesTo`, `Interpreter.ComesTo.stop`).

Nothing stops a run that nobody watches (`Interpreter.unstopped_run`), so a discipline that spans
threads governs every run, watched or not, with any depth of nesting
(`Discipline.governs_runUntil`, `Discipline.governs_run`).
-/

set_option autoImplicit false
set_option relaxedAutoImplicit false

namespace Escalation

/-! ### Watched runs -/

namespace Interpreter

/-- Performs a task with at most `depth` levels of nesting, and stops where `watch` picks out a task
that is about to be performed. Nothing is picked out on other threads. -/
def runUntil (watch : Task → Machine → Bool) : (depth : Nat) → Task → Run Unit
  | 0, _ => throw .exhausted
  | depth + 1, task => fun machine ↦
    if watch task machine then .error .stopped machine
    else step (if task.startsThread then run depth else runUntil watch depth) task machine

/-- A run in which nothing is picked out is a run. -/
theorem runUntil_never (depth : Nat) : runUntil (fun _ _ ↦ false) depth = run depth := by
  induction depth with
  | zero => rfl
  | succ depth ih =>
    funext task machine
    change step (if task.startsThread then run depth else runUntil (fun _ _ ↦ false) depth) task
      machine = step (run depth) task machine
    rw [ih, ite_self]

/-- A run of `part` from a machine comes to a moment at which a task is about to be performed: it is
stopped there if just that task at just that moment is picked out. -/
def ComesTo (part : Exec → Run Unit) (depth : Nat) (machine : Machine) (task : Task)
    (moment : Machine) : Prop :=
  ∃ watch : Task → Machine → Bool,
    (∀ other state, watch other state = true → other = task ∧ state = moment) ∧
      part (runUntil watch depth) machine = .error .stopped moment

end Interpreter

/-! ### Runs that nobody watches -/

namespace Discipline

open Run

variable {exec : Exec} {α : Type}

/-- The discipline that says nothing but that nothing stops. -/
abbrev unstopped : Discipline := uniform .anything False

theorem governs_unstopped_iff : unstopped.Governs exec ↔ Unstopped exec := governs_uniform_iff

theorem unstopped_modifyThread (change : Thread → Thread) :
    Keeps .anything False (modifyThread change) := fun _ _ ↦ trivial

theorem unstopped_updateStack (change : Stack ObjectId → α × Stack ObjectId) :
    Keeps .anything False (updateStack change) := fun _ _ ↦ trivial

theorem unstopped_install (hexec : unstopped.Governs exec) (object : ObjectId) :
    Keeps .anything False (install exec object) := by
  unfold install
  refine (Keeps.of_aside aside_thread).bind fun thread ↦ ?_
  split
  · refine (unstopped_updateStack _).bind fun _ ↦ ?_
    exact (keeps_relinquish_uniform hexec object).bind fun _ ↦ .of_aside (aside_raise _)
  · refine (unstopped_updateStack _).bind fun guard ↦ ?_
    exact (Keeps.of_aside (aside_traceEvent _ _ _)).bind fun _ ↦ .pure _

theorem unstopped_release (hexec : unstopped.Governs exec) (guard : Guard) :
    Keeps .anything False (Run.release exec guard) := by
  unfold Run.release
  refine (Keeps.of_aside aside_thread).bind fun thread ↦ ?_
  split
  · exact .pure _
  · exact (unstopped_updateStack _).bind fun released ↦ keeps_settle_uniform hexec guard released

instance : unstopped.Lawful :=
  lawful_uniform (fun hexec ↦ unstopped_install hexec _) fun hexec ↦ unstopped_release hexec _

/-! ### Threads that are waited for -/

theorem unstopped_runSteps (hexec : Unstopped exec) (index : Nat) (ops : List Op) :
    Keeps .anything False (runSteps exec index ops) := by
  induction ops generalizing index with
  | nil => exact .pure _
  | cons op rest ih =>
    refine Keeps.bind (Keeps.catching (hexec (.perform op))) fun outcome ↦ ?_
    refine (Keeps.of_aside aside_height).bind fun height ↦ ?_
    exact (Keeps.of_aside (aside_record _)).bind fun _ ↦ ih (index + 1)

theorem unstopped_runCaught (hexec : Unstopped exec) (ops : List Op) :
    Keeps .anything False (runCaught exec ops) := by
  refine (unstopped_modifyThread _).bind fun _ ↦ ?_
  refine (unstopped_runSteps hexec 0 ops).bind fun _ ↦ ?_
  refine (Keeps.catching (hexec .closeFrame)).bind fun outcome ↦ ?_
  refine Keeps.bind ?_ fun _ ↦ (Keeps.of_aside aside_height).bind fun height ↦ ?_
  · refine (Keeps.of_aside aside_thread).bind fun thread ↦ ?_
    refine (unstopped_modifyThread _).bind fun _ ↦ ?_
    exact keeps_relinquishAll_uniform (governs_unstopped_iff.mpr hexec) _
  · exact .of_aside (aside_record _)

theorem unstopped_tearDown (hexec : Unstopped exec) (late : Option Guard) :
    Keeps .anything False (tearDown exec late) := by
  refine (Keeps.of_aside aside_thread).bind fun thread ↦ ?_
  refine (unstopped_modifyThread _).bind fun _ ↦ ?_
  have hremoved := keeps_relinquishAll_uniform (governs_unstopped_iff.mpr hexec)
  refine (hremoved _).bind fun _ ↦ ?_
  cases late with
  | none => exact .pure _
  | some guard =>
    refine (Keeps.of_aside aside_height).bind fun height ↦ ?_
    refine (Keeps.of_aside aside_current).bind fun link ↦ ?_
    refine (Keeps.of_aside (aside_record _)).bind fun _ ↦ ?_
    refine (Keeps.of_aside aside_current).bind fun link ↦ ?_
    refine (hexec (.deliver _ link)).bind fun _ ↦ ?_
    exact (hexec (.release guard)).bind fun _ ↦ .of_aside (aside_record _)

theorem unstopped_installLate (hexec : Unstopped exec) (plan : ThreadPlan) :
    Keeps .anything False (installLate exec plan) := by
  unfold installLate
  split
  · refine Keeps.bind (fun _ _ ↦ trivial) fun object ↦ ?_
    have hinstall := unstopped_install (governs_unstopped_iff.mpr hexec) object
    exact hinstall.bind fun guard ↦ .pure _
  · exact .pure _

/-- Nothing stops a thread that is waited for if nothing stops its tasks. -/
theorem unstopped_runThread (hexec : Unstopped exec) (plan : ThreadPlan) (ops : List Op) :
    Keeps .anything False (runThread exec plan ops) := by
  have hprogram : Keeps .anything False
      (if plan.uncaught then runList exec ops else runCaught exec ops) := by
    split
    · exact keeps_runList (governs_unstopped_iff.mpr hexec) fun _ _ ↦ trivial
    · exact unstopped_runCaught hexec ops
  unfold runThread
  refine (Keeps.of_aside aside_thread).bind fun starter ↦ ?_
  refine (unstopped_modifyThread _).bind fun _ ↦ ?_
  refine (unstopped_installLate hexec plan).bind fun late ↦ ?_
  refine hprogram.intercept.bind fun outcome ↦ ?_
  refine (unstopped_tearDown hexec late).intercept.bind fun ended ↦ ?_
  cases ended with
  | error payload => exact fun _ _ ↦ trivial
  | ok _ =>
    refine (unstopped_modifyThread _).bind fun _ ↦ ?_
    cases outcome with
    | ok value => exact .pure _
    | error payload => exact .pure _

instance : unstopped.SpansThreads where
  runThread hexec _ := unstopped_runThread hexec _ _

/-! ### Every depth of nesting -/

/-- A task keeps its contract if the tasks nested in it do, nothing stops a thread that it starts,
and it keeps its contract if it is the release of a guard. -/
theorem Governs.permits_step_of_unstopped {discipline : Discipline} [discipline.Operative]
    [discipline.SpansThreads] {unwatched : Exec} (hexec : discipline.Governs exec)
    (hunwatched : Unstopped unwatched) {task : Task} {machine : Machine}
    (hrelease : ∀ guard, task = .release guard → (discipline.releasing guard).Permits
      discipline.stop machine (Run.release exec guard machine))
    (hbefore : (discipline.contract task).before machine) :
    (discipline.contract task).Permits discipline.stop machine
      (Interpreter.step (if task.startsThread then unwatched else exec) task machine) := by
  by_cases hthread : task.startsThread = true
  · rw [if_pos hthread]
    obtain ⟨plan, ops, slot, rfl⟩ := Task.eq_perform_of_startsThread hthread
    exact keeps_perform_thread hunwatched hbefore.1 machine hbefore.2
  · rw [if_neg hthread]
    exact hexec.permits_step (by simpa using hthread) hrelease hbefore

end Discipline

/-- Nothing stops a run that nobody watches. -/
theorem Interpreter.unstopped_run (depth : Nat) : Unstopped (Interpreter.run depth) := by
  induction depth with
  | zero => exact fun task machine _ ↦ trivial
  | succ depth ih =>
    have hgoverns := Discipline.governs_unstopped_iff.mpr ih
    intro task machine _
    have hrelease (guard : Guard) (_ : task = .release guard) :
        (Discipline.unstopped.releasing guard).Permits False machine
          (Run.release (run depth) guard machine) :=
      Discipline.Lawful.release hgoverns machine trivial
    have htask := hgoverns.permits_step_of_unstopped ih hrelease (by cases task <;> trivial)
    rw [ite_self] at htask
    exact htask.mono (fun _ ↦ trivial) id

namespace Discipline

variable {discipline : Discipline} [discipline.SpansThreads]

/-- A task that is performed with any depth of nesting keeps its contract, also where the run is
stopped at the moments that `watch` picks out. Assumes: at such a moment the fact holds that is
promised where a run is stopped, and releases that are not picked out keep their contract. -/
theorem governs_runUntil_of_release [discipline.Operative] {watch : Task → Machine → Bool}
    (hwatch : ∀ task machine, watch task machine = true →
      (discipline.contract task).before machine → discipline.stop)
    (hrelease : ∀ {exec : Exec} {guard : Guard} {machine : Machine}, discipline.Governs exec →
      watch (.release guard) machine = false → (discipline.releasing guard).before machine →
        (discipline.releasing guard).Permits discipline.stop machine
          (Run.release exec guard machine)) (depth : Nat) :
    discipline.Governs (Interpreter.runUntil watch depth) := by
  induction depth with
  | zero => exact fun task machine _ ↦ trivial
  | succ depth ih =>
    intro task machine hbefore
    change (discipline.contract task).Permits discipline.stop machine
      (if watch task machine then .error .stopped machine
        else Interpreter.step _ task machine)
    split
    · exact hwatch task machine ‹_› hbefore
    · rename_i hpicked
      refine ih.permits_step_of_unstopped (Interpreter.unstopped_run depth) (fun guard htask ↦ ?_)
        hbefore
      subst htask
      exact hrelease ih (by simpa using hpicked) hbefore

variable [discipline.Lawful]

/-- A task that is performed with any depth of nesting keeps its contract, also where the run is
stopped at the moments that `watch` picks out. Assumes: at such a moment the fact holds that is
promised where a run is stopped. -/
theorem governs_runUntil {watch : Task → Machine → Bool}
    (hwatch : ∀ task machine, watch task machine = true →
      (discipline.contract task).before machine → discipline.stop) (depth : Nat) :
    discipline.Governs (Interpreter.runUntil watch depth) :=
  governs_runUntil_of_release hwatch
    (fun {_ _ machine} hexec _ ↦ Lawful.release hexec machine) depth

theorem governs_run (depth : Nat) : discipline.Governs (Interpreter.run depth) := by
  rw [← Interpreter.runUntil_never]
  exact governs_runUntil (fun _ _ h ↦ by simp at h) depth

end Discipline

/-- What a discipline promises where a run is stopped holds if the run comes to a moment at which it
follows from what the task there may assume. -/
theorem Interpreter.ComesTo.stop {discipline : Discipline} [discipline.Lawful]
    [discipline.SpansThreads] {contract : Contract} {part : Exec → Run Unit} {depth : Nat}
    {machine moment : Machine} {task : Task}
    (hmoment : Interpreter.ComesTo part depth machine task moment)
    (hpart : ∀ {exec : Exec}, discipline.Governs exec →
      Run.Keeps contract discipline.stop (part exec))
    (hmachine : contract.before machine)
    (hstop : (discipline.contract task).before moment → discipline.stop) : discipline.stop := by
  obtain ⟨watch, hwatch, hend⟩ := hmoment
  have hgoverns : discipline.Governs (Interpreter.runUntil watch depth) := by
    refine Discipline.governs_runUntil (fun other state hpicked hbefore ↦ ?_) depth
    obtain ⟨rfl, rfl⟩ := hwatch other state hpicked
    exact hstop hbefore
  have hpermits := hpart hgoverns machine hmachine
  rw [hend] at hpermits
  exact hpermits

end Escalation
