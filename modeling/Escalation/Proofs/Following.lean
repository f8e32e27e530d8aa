import Escalation.Proofs.Ledger
import Escalation.Proofs.Moments
import Escalation.Proofs.Output

/-!
# What threads do to their stack

The stack of a thread is the outcome of some moves (`Thread.Follows`). Installing an override is one
more move (`Thread.Follows.install`), releasing a guard is the release of its installation
(`Thread.Follows.release`), and whatever else a run does, threads and raises and aborted lists
included, leaves a stack that further moves lead to (`Discipline.following`).
-/

set_option autoImplicit false
set_option relaxedAutoImplicit false

namespace Escalation

/-- The thread has its storage, and its stack is the outcome of these moves. -/
structure Thread.Follows (thread : Thread) (moves : List (Move ObjectId)) : Prop where
  alive : thread.tornDown = false
  stack : thread.stack = (History.of moves).stack.map Prod.snd

/-- The thread has made these moves, and others after them. -/
def Machine.Reaches (machine : Machine) (moves : List (Move ObjectId)) : Prop :=
  ∃ more, machine.thread.Follows (moves ++ more)

namespace Thread.Follows

variable {thread : Thread} {moves : List (Move ObjectId)}

/-- A thread begins without moves. -/
theorem start (name : Option String) : ({ name } : Thread).Follows [] :=
  ⟨rfl, by simp [Stack.map]⟩

theorem of_eq {other : Thread} (h : thread.Follows moves) (hstack : other.stack = thread.stack)
    (htornDown : other.tornDown = thread.tornDown) : other.Follows moves :=
  ⟨htornDown.trans h.alive, hstack.trans h.stack⟩

/-- An installation is a move. -/
theorem install (h : thread.Follows moves) (object : ObjectId) :
    ({ thread with stack := (thread.stack.install object).2 } : Thread).Follows
      (moves ++ [.install object]) := by
  refine ⟨h.alive, ?_⟩
  have hinstall := (History.of moves).stack.install_map Prod.snd
    ((History.of moves).guards.length, object)
  rw [History.of_append_singleton, h.stack, hinstall]
  rfl

/-- Releasing the guard of an installation is the release of the installation. -/
theorem release (h : thread.Follows moves) {serial : ℕ} {guard : Guard}
    (hguard : (History.of moves).guards[serial]? = some guard) :
    ({ thread with stack := (thread.stack.release guard).2 } : Thread).Follows
      (moves ++ [.release serial]) := by
  refine ⟨h.alive, ?_⟩
  rw [History.of_append_singleton, h.stack, Stack.release_map]
  simp only [History.move, hguard]

/-- Releasing whatever guard is a move or changes nothing: a guard that owns something is the guard
of an installation. -/
theorem release_any (h : thread.Follows moves) (guard : Guard) :
    ∃ more, ({ thread with stack := (thread.stack.release guard).2 } : Thread).Follows
      (moves ++ more) := by
  by_cases howns : thread.stack.owns guard = true
  · rw [h.stack, Stack.owns_map] at howns
    obtain ⟨installed, hinstalled, hgeneration⟩ := Stack.owns_eq_true_iff.mp howns
    have hguard := (History.coherent_of moves).guard hinstalled
    rw [hgeneration] at hguard
    exact ⟨_, h.release hguard⟩
  · refine ⟨[], ?_⟩
    rw [List.append_nil, Stack.release_of_not_owns _ _ (by simpa using howns)]
    exact h

/-- The stack of a thread does what the ledger of its moves says, as long as no generation was given
twice. -/
theorem refinedBy (h : thread.Follows moves) (hfew : (Ledger.of moves).count ≤ 2 ^ 64) :
    (Ledger.of moves).RefinedBy thread.stack (History.of moves).guards := by
  rw [← History.length_guards] at hfew
  rw [h.stack, ← History.ledger_of hfew]
  exact History.refinedBy_ledger (History.coherent_of moves) hfew

end Thread.Follows

/-! ### Installing and releasing -/

namespace Run

variable {exec : Exec} {machine : Machine} {moves : List (Move ObjectId)}

/-- Where the storage of the thread is there, releasing a guard cuts the stack and then lets go of
what that removed. -/
theorem release_of_alive (halive : machine.thread.tornDown = false) (guard : Guard) :
    release exec guard machine = settle exec guard (machine.thread.stack.release guard).1
      { machine with thread :=
        { machine.thread with stack := (machine.thread.stack.release guard).2 } } := by
  change (if machine.thread.tornDown then _ else _ : Run Unit) machine = _
  rw [if_neg (by simp [halive])]
  rfl

end Run

/-! ### Every run makes moves -/

/-- What is begun behind some moves makes further moves. -/
def Contract.following (moves : List (Move ObjectId)) : Contract where
  before machine := machine.Reaches moves
  change _ after := after.Reaches moves

instance (moves : List (Move ObjectId)) : (Contract.following moves).Steady where
  change_of_stack hbefore hstack htornDown :=
    hbefore.imp fun _ hfollows ↦ hfollows.of_eq hstack htornDown
  change_of_sameOverrides hbefore hsame :=
    hbefore.imp fun _ hfollows ↦ hfollows.of_eq hsame.stack hsame.tornDown
  before_of_change _ hchange := hchange
  trans _ _ hlast := hlast

theorem Machine.Reaches.of_follows {machine : Machine} {moves : List (Move ObjectId)}
    (h : machine.thread.Follows moves) : machine.Reaches moves :=
  ⟨[], by rwa [List.append_nil]⟩

/-- The contract of what leaves the running thread as it was. -/
def Contract.resuming : Contract where
  before _ := True
  change machine after := after.thread = machine.thread

namespace Discipline

open Run

variable {moves : List (Move ObjectId)} {stop : Prop} {exec : Exec}

/-- The discipline under which every task that is begun behind some moves makes further moves. -/
abbrev following (moves : List (Move ObjectId)) (stop : Prop) : Discipline :=
  uniform (.following moves) stop

theorem following_install (object : ObjectId) :
    Keeps (.following moves) stop (install exec object) := by
  rintro machine ⟨more, hfollows⟩
  obtain ⟨process, hend, -⟩ := install_of_alive hfollows.alive object
  rw [hend]
  exact ⟨more ++ [.install object], List.append_assoc moves more _ ▸ hfollows.install object⟩

theorem following_release (hexec : (following moves stop).Governs exec) (guard : Guard) :
    Keeps (.following moves) stop (Run.release exec guard) := by
  rintro machine ⟨more, hfollows⟩
  rw [release_of_alive hfollows.alive]
  obtain ⟨last, hlast⟩ := hfollows.release_any guard
  refine keeps_settle_uniform hexec guard _ _ ?_
  exact ⟨more ++ last, List.append_assoc moves more _ ▸ hlast⟩

instance : (following moves stop).Lawful :=
  lawful_uniform (fun _ ↦ following_install _) fun hexec ↦ following_release hexec _

/-- What follows a part that cannot be stopped and whose raises are handed over decides how the
whole ends. -/
theorem permits_intercept_bind {contract : Contract} {start machine : Machine} {α β : Type}
    {part : Run α} {next : Except Payload α → Run β} (hpart : Keeps .anything False part)
    (hnext : ∀ value after, contract.Permits stop start (next value after)) :
    contract.Permits stop start ((intercept part >>= next) machine) := by
  have hmachine := hpart machine trivial
  change contract.Permits stop start (EStateM.bind (intercept part) next machine)
  unfold EStateM.bind intercept
  cases hend : part machine with
  | ok value after => exact hnext (.ok value) after
  | error interrupt after =>
    rw [hend] at hmachine
    cases interrupt with
    | raised payload => exact hnext (.error payload) _
    | aborted => trivial
    | exhausted => trivial
    | stopped => exact hmachine.elim

/-- The late guard of a new thread is installed without fail. -/
theorem installLate_of_alive {plan : ThreadPlan} {machine : Machine}
    (halive : machine.thread.tornDown = false) :
    ∃ late after, installLate exec plan machine = .ok late after := by
  unfold installLate
  split
  · obtain ⟨process, hend, -⟩ := install_of_alive
      (show ({ machine with thread := { machine.thread with
        objects := machine.thread.objects.push { override := .transparent, owners := 1 } } }
          : Machine).thread.tornDown = false from halive) machine.thread.objects.size
    exact ⟨_, _, bind_of_ok hend⟩
  · exact ⟨none, machine, rfl⟩

/-- A thread that is waited for leaves its starter as it was. -/
theorem keeps_runThread (hexec : Unstopped exec) (plan : ThreadPlan) (ops : List Op) :
    Keeps .resuming stop (runThread exec plan ops) := by
  intro machine _
  unfold runThread
  change Contract.resuming.Permits stop machine
    ((installLate exec plan >>= _) { machine with thread := { name := plan.name } })
  obtain ⟨late, after, hlate⟩ : ∃ late after, installLate exec plan
      { machine with thread := { name := plan.name } } = .ok late after :=
    installLate_of_alive rfl
  rw [bind_of_ok hlate]
  refine permits_intercept_bind ?_ ?_
  · split
    · exact keeps_runList (governs_unstopped_iff.mpr hexec) fun _ _ ↦ trivial
    · exact unstopped_runCaught hexec ops
  · intro outcome left
    refine permits_intercept_bind (unstopped_tearDown hexec late) ?_
    intro ended last
    cases ended with
    | error payload => trivial
    | ok _ => cases outcome <;> exact rfl

instance {contract : Contract} [contract.Steady] : (uniform contract stop).SpansThreads where
  runThread hexec _ := (keeps_runThread hexec _ _).mono (fun _ ↦ trivial)
    fun {machine after} (hbefore : contract.before machine) hchange ↦
      show contract.change machine after from Contract.Steady.change_of_stack hbefore
        (congrArg Thread.stack hchange) (congrArg Thread.tornDown hchange)

end Discipline

end Escalation
