import Escalation.Proofs.Governed

/-!
# Disciplines with a single contract

A discipline may allow every program and ask every task to keep the same contract
(`Discipline.uniform`). Such a discipline says something about the stack of a thread alone: opening
and closing lists, sharing, and making objects do not matter to it (`Contract.Steady`). It is lawful
as soon as installing and releasing keep the contract (`Discipline.lawful_uniform`).
-/

set_option autoImplicit false
set_option relaxedAutoImplicit false

namespace Escalation

/-- A contract that asks nothing but that the stack stays as it is, and the storage of the
thread. -/
class Contract.Steady (contract : Contract) : Prop extends contract.Composable where
  change_of_stack {machine after : Machine} : contract.before machine →
    after.thread.stack = machine.thread.stack →
      after.thread.tornDown = machine.thread.tornDown → contract.change machine after

instance : Contract.anything.Steady where
  change_of_stack _ _ _ := trivial

namespace Discipline

open Run

variable {contract : Contract} {stop : Prop} {exec : Exec} {α : Type}

/-- The discipline under which every task keeps the contract. -/
def uniform (contract : Contract) (stop : Prop) : Discipline where
  allows _ := True
  knows _ _ := True
  kept := contract
  grown := contract
  closing := contract
  releasing _ := contract
  stop := stop

theorem governs_uniform_iff :
    (uniform contract stop).Governs exec ↔ ∀ task, Keeps contract stop (exec task) := by
  refine forall_congr' fun task ↦ ?_
  cases task with
  | perform op =>
    constructor
    · exact fun h ↦ h.mono (fun hbefore ↦ ⟨trivial, hbefore⟩) fun _ hchange ↦ hchange
    · exact fun h ↦ h.mono (fun hbefore ↦ hbefore.2) fun _ hchange ↦ hchange
  | deliver event link => rfl
  | closeFrame => rfl
  | release guard => rfl

/-- That objects are known adds nothing where all are. -/
theorem keeps_given_uniform_iff {objects : List ObjectId} {part : Run α} :
    Keeps ((uniform contract stop).given contract objects) stop part ↔
      Keeps contract stop part := by
  constructor
  · exact fun h ↦ h.mono (fun hbefore ↦ ⟨hbefore, fun _ _ ↦ trivial⟩) fun _ hchange ↦ hchange
  · exact fun h ↦ h.mono (fun hbefore ↦ hbefore.1) fun _ hchange ↦ hchange

variable [contract.Steady]

/-- A change of the thread that leaves the stack alone keeps a steady contract. -/
theorem keeps_modifyThread {change : Thread → Thread}
    (hstack : ∀ thread, (change thread).stack = thread.stack)
    (htornDown : ∀ thread, (change thread).tornDown = thread.tornDown) :
    Keeps contract stop (modifyThread change) := fun _ hbefore ↦
  Contract.Steady.change_of_stack hbefore (hstack _) (htornDown _)

instance : (uniform contract stop).Bracketing where
  composable_kept := inferInstanceAs contract.Composable
  composable_grown := inferInstanceAs contract.Composable
  allows_inner _ _ := trivial
  before_kept hbefore := hbefore
  change_grown _ hchange := hchange
  allows_of_knows _ _ _ _ := trivial
  knows_of_resolve _ _ := trivial
  knows_of_shared _ _ := trivial
  knows_of_change _ _ _ := trivial
  bracket hexec hbody htidy := by
    have hopen : Keeps contract stop openFrame := keeps_modifyThread (fun _ ↦ rfl) fun _ ↦ rfl
    exact hopen.bind fun _ ↦ Keeps.andFinally hbody (Keeps.andFinally htidy (hexec .closeFrame))

theorem keeps_relinquish_uniform (hexec : (uniform contract stop).Governs exec)
    (object : ObjectId) : Keeps contract stop (relinquish exec object) :=
  keeps_given_uniform_iff.mp (keeps_relinquish hexec object)

theorem keeps_relinquishAll_uniform (hexec : (uniform contract stop).Governs exec)
    (objects : List ObjectId) : Keeps contract stop (relinquishAll exec objects) :=
  keeps_given_uniform_iff.mp (keeps_relinquishAll hexec objects)

/-- Letting go of what a release removed keeps the contract. -/
theorem keeps_settle_uniform (hexec : (uniform contract stop).Governs exec) (guard : Guard)
    (released : Release ObjectId) : Keeps contract stop (settle exec guard released) := by
  cases released with
  | stale => exact .of_aside (aside_traceEvent _ _ _)
  | inOrder removed =>
    refine (keeps_relinquishAll_uniform hexec removed).bind fun _ ↦ ?_
    exact .of_aside (aside_traceEvent _ _ _)
  | outOfOrder removed =>
    refine (keeps_relinquishAll_uniform hexec removed).bind fun _ ↦ ?_
    refine (Keeps.of_aside aside_isUnwinding).bind fun unwinding ↦ ?_
    split
    · exact .of_aside (aside_raise _)
    · exact .pure _

theorem keeps_takeGuard_uniform (name : String) : Keeps contract stop (takeGuard? name) := by
  unfold takeGuard?
  refine (Keeps.of_aside aside_thread).bind fun thread ↦ ?_
  split
  · exact .pure _
  · refine Keeps.bind ?_ fun _ ↦ .pure _
    exact keeps_modifyThread (fun _ ↦ rfl) fun _ ↦ rfl

theorem keeps_closeFrame_uniform (hexec : (uniform contract stop).Governs exec) :
    Keeps contract stop (Run.closeFrame exec) := by
  unfold Run.closeFrame
  refine (Keeps.of_aside aside_thread).bind fun thread ↦ ?_
  split
  · exact .pure _
  · exact keeps_modifyThread (fun _ ↦ rfl) fun _ ↦ rfl
  · refine Keeps.bind (keeps_modifyThread (fun _ ↦ rfl) fun _ ↦ rfl) fun _ ↦ ?_
    exact Keeps.andFinally (hexec (.release _)) (hexec .closeFrame)

/-- A discipline with a single contract is operative if installing keeps the contract. -/
theorem operative_uniform
    (hinstall : ∀ {exec : Exec} {object : ObjectId}, (uniform contract stop).Governs exec →
      Keeps contract stop (install exec object)) : (uniform contract stop).Operative where
  newObject {machine after override object} hbefore _ hmade := by
    cases hmade
    refine ⟨show contract.change _ _ from ?_, trivial⟩
    exact Contract.Steady.change_of_stack hbefore rfl rfl
  share hbefore _ := show contract.change _ _ from
    Contract.Steady.change_of_stack hbefore rfl rfl
  unshare hbefore := show contract.change _ _ from
    Contract.Steady.change_of_stack hbefore rfl rfl
  within hexec hbody := by
    refine keeps_given_uniform_iff.mpr ((hinstall hexec).bind fun guard ↦ ?_)
    refine Keeps.bind ?_ fun inside ↦ (Keeps.of_aside aside_height).bind fun _ ↦ .pure _
    exact Keeps.andFinally (hbody.bind fun _ ↦ .of_aside aside_height) (hexec (.release guard))
  push {exec op keep object name} hexec _ _ := by
    refine keeps_given_uniform_iff.mpr ((hinstall hexec).bind fun guard ↦ ?_)
    have hkeep : Keeps contract stop (keepGuard name guard keep) :=
      keeps_modifyThread (fun _ ↦ rfl) fun _ ↦ rfl
    exact hkeep.bind fun _ ↦ .pure _
  takeGuard _ := show Keeps contract stop _ from keeps_takeGuard_uniform _
  releaseHeld hexec _ := hexec (.release _)
  closeFrame hexec := show Keeps contract stop _ from keeps_closeFrame_uniform hexec

/-- A discipline with a single contract is lawful if installing and releasing keep the contract. -/
theorem lawful_uniform
    (hinstall : ∀ {exec : Exec} {object : ObjectId}, (uniform contract stop).Governs exec →
      Keeps contract stop (install exec object))
    (hrelease : ∀ {exec : Exec} {guard : Guard}, (uniform contract stop).Governs exec →
      Keeps contract stop (Run.release exec guard)) : (uniform contract stop).Lawful :=
  { operative_uniform hinstall with release := hrelease }

end Discipline

end Escalation
