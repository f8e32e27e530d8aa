import Escalation.Proofs.Releasing
import Escalation.Proofs.Scoped

/-!
# Scoped programs restore the stack

Whatever a scoped program does, with returns and raises out of handlers, destructors and nested
lists, the overrides in place at its end are those at its start, the same holds for every catch on
the way, and every release lets go of the top of the stack and of nothing else, and raises nothing
of its own (`scoped_program_restores`). Nothing is promised of a run that is aborted by a raise out
of a cleanup during unwinding, or that does not end.
-/

set_option autoImplicit false
set_option relaxedAutoImplicit false

namespace Escalation

/-- A thread begins scoped. -/
theorem Machine.Scoped.start (process : Process) (name : Option String) :
    ({ process, thread := { name } } : Machine).Scoped :=
  ⟨rfl, fun _ h ↦ by simp at h, fun _ h ↦ by cases h⟩

/-- Letting go of one object is all there is to do. -/
theorem Run.relinquishAll_singleton (exec : Exec) (object : ObjectId) :
    relinquishAll exec [object] = relinquish exec object := by
  funext machine
  change andFinally (relinquish exec object) (pure ()) machine = _
  unfold andFinally
  rcases relinquish exec object machine with ⟨_, after⟩ | ⟨_ | _ | _ | _, after⟩ <;> rfl

/-- Releasing the guard of the top lets go of what stood there, and of nothing else, on the stack
without it. What is left to do then returns. -/
theorem Run.release_of_top {machine : Machine} {base : Array (Installed ObjectId)}
    {installed : Installed ObjectId} (halive : machine.thread.tornDown = false)
    (h : machine.thread.stack.entries = base.push installed) :
    let guard : Guard := { depth := base.size, generation := installed.generation }
    machine.objectsFrom guard.depth = [installed.override] ∧
      ∃ report : Run Unit, (∀ other, ∃ process, report other = .ok () { other with process }) ∧
        ∀ exec, Run.release exec guard machine =
          (Run.relinquish exec installed.override >>= fun _ ↦ report)
            (machine.cutTo guard.depth) := by
  intro guard
  refine ⟨by simp [guard, Machine.objectsFrom, h], _, Run.traceEvent_of_stack .trace
    ("exception callback released depth=" ++ toString guard.depth), fun exec ↦ ?_⟩
  have hcut : machine.cutTo guard.depth = { machine with thread :=
      { machine.thread with stack := { machine.thread.stack with entries := base } } } := by
    simp [guard, Machine.cutTo, h]
  rw [Run.release_of_alive halive, Stack.release_of_top h, hcut]
  unfold Run.settle
  dsimp only
  rw [Run.relinquishAll_singleton]

variable {ops : List Op} {machine moment : Machine} {depth : ℕ}

/-- What a scoped program promises of every moment at which a task is about to be performed. -/
theorem Interpreter.before_of_comesTo {task : Task} (hops : ∀ op ∈ ops, op.Scoped)
    (hmachine : machine.Scoped)
    (hmoment : Interpreter.ComesTo (fun exec ↦ Run.runList exec ops) depth machine task moment)
    (stop : Prop) : ((Discipline.lexical stop).contract task).before moment := by
  have hbefore : (Discipline.lexical
      (((Discipline.lexical stop).contract task).before moment)).stop :=
    hmoment.stop (fun hexec ↦ Discipline.keeps_runList hexec hops) hmachine
      (by cases task <;> exact id)
  exact hbefore

/-- Assumes: the operations of a list are scoped, and so are the overrides of the thread that runs
it. Then, if the list returns or raises, the overrides in place are those that were in place at its
start, and the thread is as scoped as it was. The same holds for every list behind a catch that is
run on the way, on any level. Wherever a guard is released on the way, the release takes away the
top of the stack alone and lets go of it; behind that it returns, so it raises what a destructor
raises there and nothing of its own. -/
theorem scoped_program_restores (hops : ∀ op ∈ ops, op.Scoped) (hmachine : machine.Scoped)
    (depth : ℕ) :
    (∀ after, Run.Ends (Run.runList (Interpreter.run depth) ops) machine after →
      after.thread.stack.entries = machine.thread.stack.entries ∧ after.Scoped) ∧
    (∀ body deferred slot moment,
      Interpreter.ComesTo (fun exec ↦ Run.runList exec ops) depth machine
        (.perform (.guarded body deferred slot)) moment →
      ∀ inner after,
        Run.Ends (Interpreter.run inner (.perform (.guarded body deferred slot))) moment after →
          after.thread.stack.entries = moment.thread.stack.entries) ∧
    ∀ guard moment,
      Interpreter.ComesTo (fun exec ↦ Run.runList exec ops) depth machine (.release guard) moment →
      ∃ (object : ObjectId) (report : Run Unit), moment.objectsFrom guard.depth = [object] ∧
        (∀ other, ∃ process, report other = .ok () { other with process }) ∧
        ∀ exec, Run.release exec guard moment =
          (Run.relinquish exec object >>= fun _ ↦ report) (moment.cutTo guard.depth) := by
  have hgoverns (depth : ℕ) : (Discipline.lexical False).Governs (Interpreter.run depth) :=
    Discipline.governs_run depth
  refine ⟨fun after hend ↦ ?_, fun body deferred slot moment hmoment inner after hend ↦ ?_,
    fun guard moment hmoment ↦ ?_⟩
  · have hchange := hend.change (Discipline.keeps_runList (hgoverns depth) hops machine hmachine)
    exact ⟨hchange.2.2, hchange.1.isScoped⟩
  · obtain ⟨hop, hscoped, -⟩ := Interpreter.before_of_comesTo hops hmachine hmoment False
    cases inner with
    | zero => rcases hend with ⟨value, hend⟩ | ⟨payload, hend⟩ <;> cases hend
    | succ inner =>
      have hkeeps := Discipline.keeps_perform_guarded (hgoverns inner) hop
      exact (hend.change (hkeeps moment hscoped)).2.2
  · obtain ⟨hscoped, base, installed, hentries, rfl⟩ :=
      Interpreter.before_of_comesTo hops hmachine hmoment False
    obtain ⟨hobject, report, hreport, hrelease⟩ := Run.release_of_top hscoped.alive hentries
    exact ⟨installed.override, report, hobject, hreport, hrelease⟩

/-- A program that installs an override and raises leaves no override in place. -/
theorem push_then_panic_restores :
    let ops : List Op := [.push .transparent "g" false, .panic .opaqueValue]
    (∀ op ∈ ops, op.Scoped) ∧ ({} : Machine).Scoped ∧
      ∃ after, Run.Ends (Run.runList (Interpreter.run 5) ops) {} after ∧
        after.thread.stack.entries = #[] := by
  intro ops
  have hops : ∀ op ∈ ops, op.Scoped := by
    intro op hop
    rcases List.mem_pair.mp hop with rfl | rfl
    · exact ⟨rfl, fun inner hinner ↦ by cases hinner⟩
    · exact ⟨rfl, fun inner hinner ↦ by cases hinner⟩
  have hmachine : ({} : Machine).Scoped := .start _ _
  have hend : ∃ after, Run.Ends (Run.runList (Interpreter.run 5) ops) {} after :=
    ⟨_, .inr ⟨.opaqueValue, rfl⟩⟩
  obtain ⟨after, hafter⟩ := hend
  have hrestores := (scoped_program_restores hops hmachine 5).1 after hafter
  exact ⟨hops, hmachine, after, hafter, hrestores.1⟩

end Escalation
