import Escalation.Proofs.Agreement
import Escalation.Proofs.Following

/-!
# Parts that leave the lower overrides in place

A release cuts the stack below some height only if its guard owns an override there
(`Task.cutsBelow`). A part of a run spares the overrides below that height if a watch for such
releases never stops it (`Interpreter.Spares`). Installing never changes what stands below, so a
part that spares it and returns leaves it as it was, whatever else is installed, released, sent or
destroyed in the part (`Interpreter.Spares.take_entries_eq`).
-/

set_option autoImplicit false
set_option relaxedAutoImplicit false

namespace Escalation

/-- The task releases an override that stands below a height. -/
def Task.cutsBelow (floor : ℕ) (task : Task) (machine : Machine) : Bool :=
  match task with
  | .release guard => guard.depth < floor && machine.thread.stack.owns guard
  | _ => false

/-- No override below a height is released in a part of a run. -/
def Interpreter.Spares (floor : ℕ) (part : Exec → Run Unit) (depth : ℕ) (machine : Machine) :
    Prop :=
  ∀ moment, part (runUntil (Task.cutsBelow floor) depth) machine ≠ .error .stopped moment

/-- What stands below a height stays as it is. -/
def Contract.keepingBelow (floor : ℕ) : Contract where
  before machine := machine.thread.tornDown = false ∧ floor ≤ machine.thread.stack.height
  change machine after := after.thread.tornDown = false ∧
    after.thread.stack.entries.toList.take floor = machine.thread.stack.entries.toList.take floor

variable {floor depth : ℕ} {stop : Prop}

instance : (Contract.keepingBelow floor).Steady where
  change_of_stack hbefore hstack htornDown := ⟨htornDown.trans hbefore.1, by rw [hstack]⟩
  change_of_sameOverrides hbefore hsame :=
    ⟨hsame.tornDown.trans hbefore.1, by rw [hsame.stack]⟩
  before_of_change {machine after} hbefore hchange := by
    refine ⟨hchange.1, ?_⟩
    have hlength := congrArg List.length hchange.2
    have hheight : floor ≤ machine.thread.stack.entries.toList.length := hbefore.2
    rw [List.length_take, List.length_take_of_le hheight] at hlength
    exact min_eq_left_iff.mp hlength
  trans _ hchange hlast := ⟨hlast.1, hlast.2.trans hchange.2⟩

namespace Discipline

open Run

/-- The discipline under which every task leaves what stands below a height as it is. -/
abbrev keepingBelow (floor : ℕ) (stop : Prop) : Discipline := uniform (.keepingBelow floor) stop

/-- What is installed stands above. -/
theorem keepingBelow_install {exec : Exec} (object : ObjectId) :
    Keeps (.keepingBelow floor) stop (install exec object) := by
  rintro machine ⟨halive, hfloor⟩
  obtain ⟨process, hend, -⟩ := install_of_alive halive object
  rw [hend]
  refine ⟨halive, ?_⟩
  simp only [Stack.entries_install, Array.toList_push]
  exact List.take_append_of_le_length hfloor

instance : (keepingBelow floor stop).Operative := operative_uniform fun _ ↦ keepingBelow_install _

/-- A release that does not cut below leaves what stands there. -/
theorem permits_release_of_not_cutsBelow {exec : Exec} {guard : Guard} {machine : Machine}
    (hexec : (keepingBelow floor stop).Governs exec)
    (hspared : Task.cutsBelow floor (.release guard) machine = false)
    (hbefore : (Contract.keepingBelow floor).before machine) :
    (Contract.keepingBelow floor).Permits stop machine (Run.release exec guard machine) := by
  have hcut : (Contract.keepingBelow floor).change machine { machine with thread :=
      { machine.thread with stack := (machine.thread.stack.release guard).2 } } := by
    refine ⟨hbefore.1, ?_⟩
    dsimp only
    rw [Stack.toList_entries_release]
    by_cases howns : machine.thread.stack.owns guard = true
    · have hdepth : floor ≤ guard.depth := by
        simpa [Task.cutsBelow, howns] using hspared
      rw [if_pos howns, List.take_take, min_eq_left hdepth]
    · rw [if_neg howns]
  rw [release_of_alive hbefore.1]
  refine Contract.Permits.of_change ?_ hbefore hcut
  exact keeps_settle_uniform hexec guard _ _ (Contract.Composable.before_of_change hbefore hcut)

/-- Wherever a run is not stopped by the watch for releases below a height, it leaves what stands
there. -/
theorem governs_keepingBelow (floor depth : ℕ) :
    (keepingBelow floor True).Governs (Interpreter.runUntil (Task.cutsBelow floor) depth) :=
  governs_runUntil_of_release (fun _ _ _ _ ↦ trivial) permits_release_of_not_cutsBelow depth

end Discipline

/-- Assumes: a part of a run is built from tasks.
If it spares what stands below a height and returns, that stands as before. -/
theorem Interpreter.Spares.take_entries_eq {part : Exec → Run Unit} {machine after : Machine}
    (hspares : Interpreter.Spares floor part depth machine)
    (hkeeps : ∀ {exec : Exec}, (Discipline.keepingBelow floor True).Governs exec →
      Run.Keeps (.keepingBelow floor) True (part exec))
    (hagrees : ∀ {broken : Interrupt → Machine → Prop} {exec other : Exec},
      (∀ task, Run.Agrees broken (exec task) (other task)) →
        Run.Agrees broken (part exec) (part other))
    (halive : machine.thread.tornDown = false) (hfloor : floor ≤ machine.thread.stack.height)
    (hend : part (run depth) machine = .ok () after) :
    after.thread.tornDown = false ∧ after.thread.stack.entries.toList.take floor =
      machine.thread.stack.entries.toList.take floor := by
  have hpermits := hkeeps (Discipline.governs_keepingBelow floor depth) machine ⟨halive, hfloor⟩
  rcases hagrees (agrees_runUntil (Task.cutsBelow floor) depth) machine
    with hsame | ⟨_, moment, hstop, -, rfl, -⟩
  · rw [hsame, hend] at hpermits
    exact hpermits
  · exact absurd hstop (hspares moment)

end Escalation
