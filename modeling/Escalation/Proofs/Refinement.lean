import Escalation.Proofs.Releasing

/-!
# The stack refines a ledger

Every thread begins without moves, and every program that it runs makes further moves
(`Run.following_runList`); so does the thread at every moment in between
(`Interpreter.reaches_of_comesTo`). Hence what is known of the stack that some moves lead to is
known of every stack that a thread can have.

As long as no generation was given twice, that stack does what an abstract ledger of the moves says:
an installation is entered at the end, and releasing a guard strikes its installation out with all
behind it, or nothing if it is gone. A thread that only pushes overrides and drops guards makes just
these moves (`stack_refines_ledger`).
-/

set_option autoImplicit false
set_option relaxedAutoImplicit false

namespace Escalation

variable {machine moment : Machine} {moves : List (Move ObjectId)} {depth : ℕ}

/-! ### Runs and their moments -/

/-- At every moment of a run the thread has made further moves. Assumes: the part that is run keeps
the discipline as long as its tasks do. -/
theorem Interpreter.reaches_of_comesTo {part : Exec → Run Unit} {task : Task}
    (hpart : ∀ {stop : Prop} {exec : Exec}, (Discipline.following moves stop).Governs exec →
      Run.Keeps (.following moves) stop (part exec))
    (h : machine.Reaches moves)
    (hmoment : Interpreter.ComesTo part depth machine task moment) : moment.Reaches moves := by
  have hstop : (((Discipline.following moves (moment.Reaches moves)).contract task).before
      moment) → moment.Reaches moves := by
    cases task with
    | perform op => exact fun hbefore ↦ hbefore.2
    | deliver event link => exact id
    | closeFrame => exact id
    | release guard => exact id
  exact hmoment.stop (fun hexec ↦ hpart hexec) h hstop

/-- A program that ends leaves a thread that has made further moves. -/
theorem Run.following_runList (depth : ℕ) (ops : List Op) (h : machine.Reaches moves) :
    (Contract.following moves).Permits False machine
      (Run.runList (Interpreter.run depth) ops machine) := by
  have hgoverns : (Discipline.following moves False).Governs (Interpreter.run depth) :=
    Discipline.governs_run depth
  exact Discipline.keeps_runList hgoverns (fun _ _ ↦ trivial) machine h

/-- Releasing the guard of an installation is its release, and then further moves. -/
theorem Run.following_release (h : machine.thread.Follows moves) {serial : ℕ} {guard : Guard}
    (hguard : (History.of moves).guards[serial]? = some guard) (depth : ℕ) :
    (Contract.following (moves ++ [.release serial])).Permits False machine
      (Run.release (Interpreter.run depth) guard machine) := by
  have hgoverns : (Discipline.following (moves ++ [.release serial]) False).Governs
      (Interpreter.run depth) := Discipline.governs_run depth
  rw [Run.release_of_alive h.alive]
  exact (Discipline.keeps_settle_uniform hgoverns guard _ _
    (.of_follows (h.release hguard))).mono id id

/-! ### The refinement -/

/-- The thread of a machine does what the ledger of some moves says, and what is done on it next is
a move of the ledger. -/
structure Machine.RefinesLedger (machine : Machine) (moves : List (Move ObjectId)) : Prop where
  /-- The stack has what the ledger has, and guards own what they were given for. -/
  stack : (Ledger.of moves).RefinedBy machine.thread.stack (History.of moves).guards
  height : Run.height machine = .ok (Ledger.of moves).installed.length machine
  current : Run.current machine = .ok (Link.below (Ledger.of moves).installed.length) machine
  /-- An installation changes the stack only, is one more move, and gives the guard of that
  installation. -/
  install (exec : Exec) (object : ObjectId) : ∃ guard stack process,
    Run.install exec object machine =
      .ok guard { process, thread := { machine.thread with stack } } ∧
    ({ machine.thread with stack } : Thread).Follows (moves ++ [.install object]) ∧
    (History.of (moves ++ [.install object])).guards[(Ledger.of moves).count]? = some guard
  /-- Releasing the guard of an installation in place cuts the stack just below the installation,
  which is one more move. Then all that stood from there on is let go, outermost first, and the rest
  has nothing to do with overrides and ends. -/
  release {serial : ℕ} {guard : Guard} : (History.of moves).guards[serial]? = some guard →
    serial ∈ (Ledger.of moves).serials →
      (machine.cutTo guard.depth).thread.Follows (moves ++ [.release serial]) ∧
      ∃ report : Run Unit, Run.Aside report ∧ (∀ other, ∃ after, Run.Ends report other after) ∧
        ∀ exec, Run.release exec guard machine =
          (Run.relinquishAll exec (((Ledger.of moves).installed.drop guard.depth).map Prod.snd) >>=
            fun _ ↦ report) (machine.cutTo guard.depth)
  /-- Releasing the guard of an installation that is gone returns and leaves the thread as it is. -/
  stale {serial : ℕ} {guard : Guard} : (History.of moves).guards[serial]? = some guard →
    serial ∉ (Ledger.of moves).serials → ∀ exec, ∃ process,
      Run.release exec guard machine = .ok () { machine with process }
  /-- Destructors that run then make further moves. -/
  settled {serial : ℕ} {guard : Guard} : (History.of moves).guards[serial]? = some guard →
    ∀ depth, (Contract.following (moves ++ [.release serial])).Permits False machine
      (Run.release (Interpreter.run depth) guard machine)
  /-- Every program makes further moves. -/
  program (depth : ℕ) (ops : List Op) : (Contract.following moves).Permits False machine
    (Run.runList (Interpreter.run depth) ops machine)
  /-- At every moment of a program, further moves were made. -/
  moment {depth : ℕ} {ops : List Op} {task : Task} {moment : Machine} :
    Interpreter.ComesTo (fun exec ↦ Run.runList exec ops) depth machine task moment →
      moment.Reaches moves

/-- What stands on the stack from some height on is what the ledger has there. -/
theorem Machine.objectsFrom_of_refinedBy {guards : List Guard}
    (h : (Ledger.of moves).RefinedBy machine.thread.stack guards) (height : ℕ) :
    machine.objectsFrom height = ((Ledger.of moves).installed.drop height).map Prod.snd := by
  unfold objectsFrom
  rw [h.entries, ← List.map_drop, List.map_map]
  rfl

/-- A thread begins without moves, and a thread that has made some moves, unwinding or not, refines
their ledger as long as no generation was given twice. If all it does is to push overrides without
destructors and to drop guards, in any order, then the moves that it has made are just these, each
drop ends, and is one more move. -/
theorem stack_refines_ledger (hfew : (Ledger.of moves).count ≤ 2 ^ 64) :
    (∀ name, ({ name } : Thread).Follows []) ∧
    (∀ machine : Machine, machine.thread.Follows moves → machine.RefinesLedger moves) ∧
    ∀ exec (start machine : Machine) guards, start.thread.Follows [] →
      start.Plays exec moves guards machine →
        machine.thread.Follows moves ∧ guards = (History.of moves).guards ∧
        ∀ {serial guard}, guards[serial]? = some guard → ∃ after,
          Run.Ends (Run.release exec guard) machine after ∧
            after.thread.Follows (moves ++ [.release serial]) := by
  refine ⟨Thread.Follows.start, fun machine h ↦ ?_,
    fun exec start machine guards hstart hplays ↦ ?_⟩
  · have hrefined := h.refinedBy hfew
    exact
      { stack := hrefined
        height := congrArg (EStateM.Result.ok · machine) hrefined.height
        current := congrArg (EStateM.Result.ok · machine) hrefined.current
        install := fun exec object ↦ by
          obtain ⟨process, hend, -⟩ := Run.install_of_alive h.alive object
          refine ⟨_, _, _, hend, h.install object, ?_⟩
          rw [← History.length_guards, History.getElem?_guards_install, h.stack,
            Stack.fst_install_map]
        release := fun {serial guard} hguard hmem ↦ by
          have howns := (hrefined.owns hguard).mpr hmem
          obtain ⟨report, hreport, hends, hrelease⟩ := Run.release_eq h.alive howns
          have hcut : (machine.cutTo guard.depth).thread.stack =
              (machine.thread.stack.release guard).2 := by
            simp [Machine.cutTo, Stack.release, howns, Array.shrink_eq_take]
          refine ⟨(h.release hguard).of_eq hcut rfl, report, hreport, hends, ?_⟩
          rwa [← Machine.objectsFrom_of_refinedBy hrefined]
        stale := fun hguard hmem exec ↦ Run.release_of_not_owns h.alive
          (by simpa using mt (hrefined.owns hguard).mp hmem) exec
        settled := fun hguard depth ↦ Run.following_release h hguard depth
        program := fun depth ops ↦ Run.following_runList depth ops (.of_follows h)
        moment := fun hmoment ↦ Interpreter.reaches_of_comesTo
          (fun hexec ↦ Discipline.keeps_runList hexec fun _ _ ↦ trivial) (.of_follows h) hmoment }
  · have hplayed := hplays.played hstart
    refine ⟨hplayed.follows, hplayed.guards_eq, fun hguard ↦ ?_⟩
    obtain ⟨after, hends, hafter⟩ := hplayed.drop hguard exec
    exact ⟨after, hends, hafter.follows⟩

/-- A guard whose override went away with an outer one leaves alone what was installed in its place
later. -/
theorem release_stale_guard :
    let moves : List (Move ObjectId) := [.install 7, .install 8, .release 0, .install 9]
    let machine : Machine :=
      { thread := { stack := { entries := #[{ generation := 2, override := 9 }]
                               nextGeneration := 3 } } }
    (Ledger.of moves).count ≤ 2 ^ 64 ∧ machine.thread.Follows moves ∧
      ∀ exec, ∃ process, Run.release exec { depth := 0, generation := 0 } machine =
        .ok () { machine with process } := by
  intro moves machine
  have hfew : (Ledger.of moves).count ≤ 2 ^ 64 := by decide
  have hfollows : machine.thread.Follows moves := by
    refine ⟨rfl, ?_⟩
    simp [machine, moves, History.of, History.move, Stack.map, Stack.install, Stack.release,
      Stack.owns, Stack.height]
  have hrefines := (stack_refines_ledger hfew).2.1 machine hfollows
  have hguard : (History.of moves).guards[0]? = some { depth := 0, generation := 0 } := by
    simp [moves, History.of, History.move, Stack.install, Stack.release, Stack.owns, Stack.height]
  have hgone : 0 ∉ (Ledger.of moves).serials := by decide
  exact ⟨hfew, hfollows, hrefines.stale hguard hgone⟩

end Escalation
