import Escalation.Proofs.Accounting

/-!
# The places that a thread comes to

A thread performs tasks, in which others are nested. At each place that it comes to, some override
objects are in hand (`Machine.Place`): those whose handlers are running, and those that a release,
or the end of the thread, has cut off and is still to let go of.

The books are in order at every place, and nothing that was destroyed has come back there
(`Machine.Place.accounts`). Every moment of a task that is begun at a place is a place
(`Machine.Place.covers`), and what was destroyed at one moment of a task stays so at all later ones
(`Machine.Accounts.ages_of_goesOn`).
-/

set_option autoImplicit false
set_option relaxedAutoImplicit false

namespace Escalation

open Run

/-! ### Where a thread can be -/

namespace Interpreter

/-- A part is stopped where it is about to perform a task itself. The tasks that it performed before
ran to their ends. -/
def Halts (part : Exec → Run Unit) (depth : ℕ) (machine moment : Machine) : Prop :=
  ∃ exec : Exec, (∀ task state, exec task state = run depth task state ∨
      exec task state = .error .stopped state) ∧
    part exec machine = .error .stopped moment

/-- A run of `part` comes to a moment. If it is not stopped there, it goes on to another one, or to
its end. -/
def GoesOn (part : Exec → Run Unit) (depth : ℕ) (machine moment last : Machine) : Prop :=
  ∃ first second : Task → Machine → Bool,
    part (runUntil (fun task state ↦ first task state || second task state) depth) machine =
        .error .stopped moment ∧
      (Ends (part (runUntil second depth)) machine last ∨
        part (runUntil second depth) machine = .error .stopped last)

end Interpreter

namespace Machine

/-- What is performed for a task has no more objects in hand than whoever asks for it: the task is
an operation of the thread itself, closes a list, or delivers an event to the policy of the
process. -/
def Direct (machine : Machine) : Task → Prop
  | .perform op => op.startsThread = false
  | .closeFrame => True
  | .deliver _ link => machine.thread.stack.resolve link = none
  | .release _ => False

/-- The places that a thread comes to from one of them, with the objects in hand there. -/
inductive Place (start : Machine) (inHand : List ObjectId) : List ObjectId → Machine → Prop
  | start : Place start inHand inHand start
  /-- A task has ended. -/
  | ends {held : List ObjectId} {machine after : Machine} {depth : ℕ} {task : Task} :
    Place start inHand held machine → Ends (Interpreter.run depth task) machine after →
      Place start inHand held after
  /-- Something was done that has nothing to do with overrides. -/
  | aside {held : List ObjectId} {machine after : Machine} : Place start inHand held machine →
    machine.SameBooks after → Place start inHand held after
  /-- The override of a late guard has been installed. -/
  | late {held : List ObjectId} {machine after : Machine} {depth : ℕ} {plan : ThreadPlan}
    {guard : Option Guard} : Place start inHand held machine →
    installLate (Interpreter.run depth) plan machine = .ok guard after →
      Place start inHand held after
  /-- A task performs another one. -/
  | inside {held : List ObjectId} {machine moment : Machine} {depth : ℕ} {task : Task} :
    Place start inHand held machine → machine.Direct task →
    Interpreter.Halts (fun exec ↦ Interpreter.step exec task) depth machine moment →
      Place start inHand held moment
  /-- The handler of an override performs a task. -/
  | handler {held : List ObjectId} {machine inside moment : Machine} {depth : ℕ}
    {event : Event} {link next : Link} {object : ObjectId} {override : Override} :
    Place start inHand held machine →
    machine.thread.stack.resolve link = some (object, next) →
    acquire object machine = .ok (some override) inside →
    Interpreter.Halts (fun exec ↦ handleBy exec override event next) depth inside moment →
      Place start inHand (object :: held) moment
  /-- Behind its handler, an object is let go, and its destructor performs a task. -/
  | behind {held : List ObjectId} {machine inside after moment : Machine} {depth : ℕ}
    {event : Event} {link next : Link} {object : ObjectId} {override : Override} :
    Place start inHand held machine →
    machine.thread.stack.resolve link = some (object, next) →
    acquire object machine = .ok (some override) inside →
    Ends (handleBy (Interpreter.run depth) override event next) inside after →
    Interpreter.Halts (fun exec ↦ relinquish exec object) depth after moment →
      Place start inHand held moment
  /-- One of several objects is let go, and its destructor performs a task. -/
  | removing {held before rest : List ObjectId} {machine cut stage moment : Machine} {depth : ℕ}
    {object : ObjectId} : Place start inHand held machine →
    machine.Collects (before ++ object :: rest) cut →
    LetsGo (Interpreter.run depth) before cut stage →
    Interpreter.Halts (fun exec ↦ relinquish exec object) depth stage moment →
      Place start inHand (rest ++ held) moment
  /-- Several objects have been let go. -/
  | removed {held taken : List ObjectId} {machine cut after : Machine} {depth : ℕ} :
    Place start inHand held machine → machine.Collects taken cut →
    LetsGo (Interpreter.run depth) taken cut after → Place start inHand held after

end Machine

/-! ### The books are in order at every place -/

namespace Machine

variable {start machine after moment : Machine} {inHand held left : List ObjectId} {depth : ℕ}

/-- A part that ends has the books in order behind it. -/
theorem Accounts.of_ends {α : Type} {part other : Run α} {stop : Machine → Prop}
    (hbooks : Books stop held left part other) (hmachine : machine.Accounts held)
    (hends : Ends other machine after) : after.Accounts left ∧ machine.Ages after := by
  have hbalances := (hbooks machine hmachine).balances
  rcases hends with ⟨value, hend⟩ | ⟨payload, hend⟩
  · rw [hend] at hbalances
    exact hbalances
  · rw [hend] at hbalances
    exact hbalances

/-- An interpreter that may be stopped where it is asked for a task keeps the books, and they are in
order where it is stopped. -/
theorem books_of_halts {exec : Exec} (hexec : ∀ task state,
      exec task state = Interpreter.run depth task state ∨ exec task state = .error .stopped state)
    (task : Task) :
    Books (fun moment ↦ moment.Accounts held) held held (exec task) (exec task) := by
  refine .of_balances fun machine hmachine ↦ ?_
  rcases hexec task machine with hrun | hstopped
  · rw [hrun]
    exact (Interpreter.books_run depth task machine hmachine).balances
  · rw [hstopped]
    exact ⟨hmachine, .refl machine⟩

/-- The books are in order where a part is stopped that keeps them. -/
theorem Accounts.of_halts {part : Exec → Run Unit}
    (hmoment : Interpreter.Halts part depth machine moment)
    (hpart : ∀ {exec : Exec}, (∀ task, Books (fun moment ↦ moment.Accounts left) left left
      (exec task) (exec task)) → machine.Balances (fun moment ↦ moment.Accounts left) left
        (part exec machine)) : moment.Accounts left ∧ machine.Ages moment := by
  obtain ⟨exec, hexec, hend⟩ := hmoment
  have hbalances := hpart (books_of_halts hexec)
  rw [hend] at hbalances
  exact hbalances

theorem Accounts.of_letsGo {objects : List ObjectId} (hmachine : machine.Accounts (objects ++ held))
    (h : LetsGo (Interpreter.run depth) objects machine after) :
    after.Accounts held ∧ machine.Ages after := by
  induction h with
  | done machine => exact ⟨hmachine, .refl machine⟩
  | @step object rest machine after last hends _ ih =>
    have hbooks : Books (fun _ ↦ True) (object :: (rest ++ held)) (rest ++ held)
        (relinquish (Interpreter.run depth) object) (relinquish (Interpreter.run depth) object) :=
      books_relinquish (Interpreter.books_run depth) object
    obtain ⟨hafter, hages⟩ := hmachine.of_ends hbooks hends
    obtain ⟨hlast, hlater⟩ := ih hafter
    exact ⟨hlast, hages.trans hlater⟩

theorem Accounts.balances_of_direct {exec : Exec} {stop : Machine → Prop} {task : Task}
    (hmachine : machine.Accounts held)
    (hexec : ∀ task, Books stop held held (exec task) (exec task)) (hdirect : machine.Direct task) :
    machine.Balances stop held (Interpreter.step exec task machine) := by
  cases task with
  | perform op => exact (books_perform hexec hdirect machine hmachine).balances
  | closeFrame => exact (books_closeFrame hexec machine hmachine).balances
  | deliver event link =>
    change machine.Balances stop held
      (handOver exec event (machine.thread.stack.resolve link) machine)
    rw [show machine.thread.stack.resolve link = none from hdirect]
    exact (books_concludeAtRoot hexec event machine hmachine).balances
  | release guard => exact hdirect.elim

/-- While the handler of an override runs, its object is in hand. -/
theorem Accounts.of_acquire {inside : Machine} {link next : Link} {object : ObjectId}
    {override : Override} (hmachine : machine.Accounts held)
    (hfound : machine.thread.stack.resolve link = some (object, next))
    (hacquire : Run.acquire object machine = .ok (some override) inside) :
    inside.Accounts (object :: held) ∧ machine.Ages inside := by
  obtain ⟨found, after, hend, -, hafter, hages⟩ :=
    hmachine.acquire (hmachine.alive (.inl (mem_placed_of_resolve hfound)))
  cases hend.symm.trans hacquire
  exact ⟨hafter, hages⟩

/-- A place that is reached from a place is one. -/
theorem Place.trans {last : Machine} (hplace : start.Place inHand held machine)
    (h : machine.Place held left last) : start.Place inHand left last := by
  induction h with
  | start => exact hplace
  | ends _ hends ih => exact ih.ends hends
  | aside _ hsame ih => exact ih.aside hsame
  | late _ hend ih => exact ih.late hend
  | inside _ hdirect hhalts ih => exact ih.inside hdirect hhalts
  | handler _ hfound hacquire hhalts ih => exact ih.handler hfound hacquire hhalts
  | behind _ hfound hacquire hends hhalts ih => exact ih.behind hfound hacquire hends hhalts
  | removing _ hcollects hletsGo hhalts ih => exact ih.removing hcollects hletsGo hhalts
  | removed _ hcollects hletsGo ih => exact ih.removed hcollects hletsGo

/-- At every place that is reached from one where the books are in order they are in order, and
nothing that was destroyed before has come back. -/
theorem Place.accounts (hstart : start.Accounts inHand) (h : start.Place inHand held machine) :
    machine.Accounts held ∧ start.Ages machine := by
  have hlater {now later : Machine} {held left : List ObjectId}
      (hnow : now.Accounts held ∧ start.Ages now) (h : later.Accounts left ∧ now.Ages later) :
      later.Accounts left ∧ start.Ages later := ⟨h.1, hnow.2.trans h.2⟩
  induction h with
  | start => exact ⟨hstart, .refl start⟩
  | @ends held machine after depth task _ hends ih =>
    have hbooks : Books (fun _ ↦ True) held held (Interpreter.run depth task)
        (Interpreter.run depth task) := Interpreter.books_run depth task
    exact hlater ih (ih.1.of_ends hbooks hends)
  | aside _ hsame ih => exact hlater ih ⟨hsame.accounts ih.1, hsame.ages⟩
  | @late held machine after depth plan guard _ hend ih =>
    have hbooks : Books (fun _ ↦ True) held held (installLate (Interpreter.run depth) plan)
        (installLate (Interpreter.run depth) plan) :=
      books_installLate (Interpreter.books_run depth) plan
    exact hlater ih (ih.1.of_ends hbooks (.inl ⟨guard, hend⟩))
  | inside _ hdirect hhalts ih =>
    exact hlater ih (Accounts.of_halts hhalts fun hexec ↦ ih.1.balances_of_direct hexec hdirect)
  | handler _ hfound hacquire hhalts ih =>
    have hinside := hlater ih (ih.1.of_acquire hfound hacquire)
    exact hlater hinside
      (Accounts.of_halts hhalts fun hexec ↦ (books_handleBy hexec _ _ _ _ hinside.1).balances)
  | @behind held machine inside after moment depth event link next object override _ hfound
      hacquire hends hhalts ih =>
    have hbooks : Books (fun _ ↦ True) (object :: held) (object :: held)
        (handleBy (Interpreter.run depth) override event next)
        (handleBy (Interpreter.run depth) override event next) :=
      books_handleBy (Interpreter.books_run depth) override event next
    have hinside := hlater ih (ih.1.of_acquire hfound hacquire)
    have hafter := hlater hinside (hinside.1.of_ends hbooks hends)
    exact hlater hafter
      (Accounts.of_halts hhalts fun hexec ↦ (books_relinquish hexec object after hafter.1).balances)
  | @removing held before rest machine cut stage moment depth object _ hcollects hletsGo hhalts
      ih =>
    have hcut := hlater ih (ih.1.collects hcollects)
    rw [List.append_assoc] at hcut
    have hstage : stage.Accounts (object :: (rest ++ held)) ∧ start.Ages stage :=
      hlater hcut (hcut.1.of_letsGo hletsGo)
    exact hlater hstage
      (Accounts.of_halts hhalts fun hexec ↦ (books_relinquish hexec object stage hstage.1).balances)
  | removed _ hcollects hletsGo ih =>
    have hcut := hlater ih (ih.1.collects hcollects)
    exact hlater hcut (hcut.1.of_letsGo hletsGo)

end Machine

/-! ### Every moment of a task is a place -/

namespace Interpreter

variable {watch : Task → Machine → Bool} {machine moment after : Machine} {depth : ℕ} {task : Task}

/-- Stops where a watched run is asked for a task in which it will be stopped. -/
def halting (watch : Task → Machine → Bool) (depth : ℕ) : Exec := fun task machine ↦
  match runUntil watch depth task machine with
  | .error .stopped _ => .error .stopped machine
  | _ => run depth task machine

/-- A watched run ends as it does when nobody watches, or it is stopped. -/
theorem halting_eq (watch : Task → Machine → Bool) (depth : ℕ) (task : Task) (machine : Machine) :
    (runUntil watch depth task machine = run depth task machine ∧
      halting watch depth task machine = run depth task machine) ∨
    ∃ moment, runUntil watch depth task machine = .error .stopped moment ∧
      halting watch depth task machine = .error .stopped machine := by
  rcases agrees_runUntil watch depth task machine with hsame | ⟨_, moment, hend, -, rfl, -⟩
  · refine .inl ⟨hsame, ?_⟩
    have hunstopped := unstopped_run depth task machine trivial
    unfold halting
    rw [hsame]
    rcases hrun : run depth task machine with ⟨_, after⟩ | ⟨_ | _ | _ | _, after⟩
    · rfl
    · rfl
    · rfl
    · rfl
    · rw [hrun] at hunstopped
      exact hunstopped.elim
  · refine .inr ⟨moment, hend, ?_⟩
    unfold halting
    rw [hend]

/-- Where a watch picks out a single moment, a part is stopped there if it is stopped at all.
Assumes: nothing stops it without a watch. -/
theorem eq_of_stopped {part same : Run Unit}
    (hwatch : ∀ other state, watch other state = true → state = moment)
    (hagrees : Agrees (StoppedBy watch) part same) (hsame : Keeps .anything False same)
    (hend : part machine = .error .stopped after) : after = moment := by
  rcases hagrees machine with hrun | ⟨_, _, hstopped, -, -, other, hpicked⟩
  · have hpermits := hsame machine trivial
    rw [← hrun, hend] at hpermits
    exact hpermits.elim
  · cases hstopped.symm.trans hend
    exact hwatch other after hpicked

/-- A part that is stopped at some moment is about to perform a task in which it is. Assumes: the
part does the same with interpreters that agree, and nothing stops it without a watch. -/
theorem exists_halts (hwatch : ∀ other state, watch other state = true → state = moment)
    {part : Exec → Run Unit}
    (hagrees : ∀ {broken exec other}, (∀ task, Agrees broken (exec task) (other task)) →
      Agrees broken (part exec) (part other))
    (hunstopped : ∀ state, part (run depth) machine ≠ .error .stopped state)
    (hend : part (runUntil watch depth) machine = .error .stopped moment) :
    ∃ task state, Halts part depth machine state ∧
      runUntil watch depth task state = .error .stopped moment := by
  let broken (interrupt : Interrupt) (state : Machine) : Prop :=
    interrupt = .stopped ∧ ∃ task, runUntil watch depth task state = .error .stopped moment
  have hbreak {task state last} {other : Run Unit}
      (hlast : runUntil watch depth task state = .error .stopped last)
      (hhalt : halting watch depth task state = .error .stopped state) :
      halting watch depth task state = other state ∨ ∃ interrupt after,
        halting watch depth task state = .error interrupt after ∧
          (∀ payload, interrupt ≠ .raised payload) ∧ broken interrupt after := by
    obtain rfl := eq_of_stopped hwatch (agrees_runUntil watch depth task)
      (unstopped_run depth task) hlast
    exact .inr ⟨.stopped, state, hhalt, fun _ ↦ nofun, rfl, task, hlast⟩
  have hwatched (task : Task) :
      Agrees broken (halting watch depth task) (runUntil watch depth task) := by
    intro state
    rcases halting_eq watch depth task state with ⟨hsame, hrun⟩ | ⟨last, hlast, hhalt⟩
    · exact .inl (hrun.trans hsame.symm)
    · exact hbreak hlast hhalt
  have hunwatched (task : Task) : Agrees broken (halting watch depth task) (run depth task) := by
    intro state
    rcases halting_eq watch depth task state with ⟨-, hrun⟩ | ⟨last, hlast, hhalt⟩
    · exact .inl hrun
    · exact hbreak hlast hhalt
  have hhalts (state : Machine)
      (hstate : part (halting watch depth) machine = .error .stopped state) :
      Halts part depth machine state := by
    refine ⟨halting watch depth, fun task other ↦ ?_, hstate⟩
    rcases halting_eq watch depth task other with ⟨-, hrun⟩ | ⟨_, -, hhalt⟩
    · exact .inl hrun
    · exact .inr hhalt
  rcases hagrees hunwatched machine with hsame | ⟨_, state, hstate, -, rfl, task, htask⟩
  · rcases hagrees hwatched machine with hstop | ⟨_, state, hstate, -, rfl, task, htask⟩
    · exact absurd (hsame.symm.trans (hstop.trans hend)) (hunstopped moment)
    · exact ⟨task, state, hhalts state hstate, htask⟩
  · exact ⟨task, state, hhalts state hstate, htask⟩

end Interpreter

namespace Machine

section Moments

variable {start machine moment : Machine} {watch : Task → Machine → Bool} {depth : ℕ}
  {inHand held : List ObjectId}

/-- What is stopped inside a task that is begun at a place is stopped at a place. -/
def Place.Covers (start : Machine) (inHand : List ObjectId) (watch : Task → Machine → Bool)
    (depth : ℕ) (moment : Machine) : Prop :=
  ∀ {held machine task}, start.Place inHand held machine →
    Interpreter.runUntil watch depth task machine = .error .stopped moment →
      ∃ more, start.Place inHand (more ++ held) moment

variable (hwatch : ∀ other state, watch other state = true → state = moment)
  (hcovers : Place.Covers start inHand watch depth moment)
include hwatch hcovers

/-- A part is stopped at a place if the tasks are that it performs itself. -/
theorem Place.of_part (held : List ObjectId) {part : Exec → Run Unit}
    (hagrees : ∀ {broken exec other}, (∀ task, Agrees broken (exec task) (other task)) →
      Agrees broken (part exec) (part other))
    (hunstopped : Keeps .anything False (part (Interpreter.run depth)))
    (hend : part (Interpreter.runUntil watch depth) machine = .error .stopped moment)
    (hplaces : ∀ {state}, Interpreter.Halts part depth machine state →
      start.Place inHand held state) :
    ∃ more, start.Place inHand (more ++ held) moment := by
  have hne (state : Machine) : part (Interpreter.run depth) machine ≠ .error .stopped state := by
    intro hstate
    have hpermits := hunstopped machine trivial
    rw [hstate] at hpermits
    exact hpermits
  obtain ⟨task, state, hhalts, htask⟩ := Interpreter.exists_halts hwatch hagrees hne hend
  exact hcovers (hplaces hhalts) htask

/-- Objects that are taken in hand are let go at places. -/
theorem Place.of_relinquishAll {taken : List ObjectId} {cut : Machine}
    (hplace : start.Place inHand held machine) (hcollects : machine.Collects taken cut)
    (hend : relinquishAll (Interpreter.runUntil watch depth) taken cut =
      .error .stopped moment) : ∃ more, start.Place inHand (more ++ held) moment := by
  obtain ⟨before, object, rest, stage, rfl, hbefore, hobject⟩ := letsGo_of_stopped hend
  have hstage := hbefore.of_agrees (Interpreter.agrees_runUntil watch depth)
  have hunstopped := Discipline.governs_unstopped_iff.mpr (Interpreter.unstopped_run depth)
  obtain ⟨more, hmore⟩ := Place.of_part hwatch hcovers (rest ++ held)
    (fun hexec ↦ agrees_relinquish hexec object)
    (Discipline.keeps_relinquish_uniform hunstopped object) hobject
    fun hhalts ↦ hplace.removing hcollects hstage hhalts
  exact ⟨more ++ rest, by rwa [List.append_assoc]⟩

/-- The release of a guard is stopped where one of the objects is let go that it removed. -/
theorem Place.of_release {guard : Guard} (hplace : start.Place inHand held machine)
    (hend : Run.release (Interpreter.runUntil watch depth) guard machine =
      .error .stopped moment) : ∃ more, start.Place inHand (more ++ held) moment := by
  by_cases hremoves : machine.thread.tornDown = false ∧ machine.thread.stack.owns guard = true
  · obtain ⟨report, hreport, -, hrelease⟩ := release_eq hremoves.1 hremoves.2
    rw [hrelease] at hend
    exact Place.of_relinquishAll hwatch hcovers hplace (.release hremoves.1 hremoves.2)
      (stopped_of_bind_aside (fun _ ↦ hreport) hend)
  · have hstale : machine.thread.tornDown = true ∨ machine.thread.stack.owns guard = false := by
      simpa [or_iff_not_imp_left] using hremoves
    obtain ⟨report, hreport, -, hrelease⟩ := release_eq_report hstale
    have hpermits := hreport machine trivial
    rw [← hrelease, hend] at hpermits
    exact hpermits.elim

/-- The handler of an override is stopped with its object in hand. -/
theorem Place.of_handler {event : Event} {link next : Link} {object : ObjectId}
    {override : Override} {inside : Machine} (hplace : start.Place inHand held machine)
    (hfound : machine.thread.stack.resolve link = some (object, next))
    (hacquire : acquire object machine = .ok (some override) inside)
    (hend : handleBy (Interpreter.runUntil watch depth) override event next inside =
      .error .stopped moment) : ∃ more, start.Place inHand (more ++ object :: held) moment := by
  have hunstopped := Discipline.governs_unstopped_iff.mpr (Interpreter.unstopped_run depth)
  exact Place.of_part hwatch hcovers (object :: held)
    (fun hexec ↦ agrees_handleBy hexec override event next)
    (Discipline.keeps_handleBy hunstopped (fun _ _ ↦ trivial) event next) hend
    fun hhalts ↦ hplace.handler hfound hacquire hhalts

/-- The dispatch of an event to an override is stopped in its handler, with the object in hand, or
where the object is let go behind it. -/
theorem Place.of_handOver {event : Event} {link next : Link} {object : ObjectId}
    (hmachine : machine.Accounts held) (hplace : start.Place inHand held machine)
    (hfound : machine.thread.stack.resolve link = some (object, next))
    (hend : handOver (Interpreter.runUntil watch depth) event (some (object, next)) machine =
      .error .stopped moment) : ∃ more, start.Place inHand (more ++ held) moment := by
  obtain ⟨override, inside, hacquire, -⟩ :=
    hmachine.acquire (hmachine.alive (.inl (mem_placed_of_resolve hfound)))
  change (acquire object >>= _) machine = _ at hend
  rw [bind_of_ok hacquire] at hend
  rcases stopped_of_andFinally hend with hhandler | ⟨after, hends, hbehind⟩
  · obtain ⟨more, hmore⟩ := Place.of_handler hwatch hcovers hplace hfound hacquire hhandler
    exact ⟨more ++ [object], by rwa [List.append_assoc]⟩
  · have hunstopped := Discipline.governs_unstopped_iff.mpr (Interpreter.unstopped_run depth)
    have hafter := hends.of_agrees (agrees_handleBy
      (Interpreter.agrees_runUntil watch depth) override event next)
    exact Place.of_part hwatch hcovers held (fun hexec ↦ agrees_relinquish hexec object)
      (Discipline.keeps_relinquish_uniform hunstopped object) hbehind
      fun hhalts ↦ hplace.behind hfound hacquire hafter hhalts

end Moments

variable {start machine moment : Machine} {watch : Task → Machine → Bool} {depth : ℕ}
  {inHand held : List ObjectId}

/-- Where a watch picks out a single moment, a task that is begun at a place is stopped at a
place. -/
theorem Place.covers (hstart : start.Accounts inHand)
    (hwatch : ∀ other state, watch other state = true → state = moment) (depth : ℕ) :
    Place.Covers start inHand watch depth moment := by
  induction depth with
  | zero => exact fun _ hend ↦ by cases hend
  | succ depth ih =>
    intro held machine task hplace hend
    rw [Interpreter.runUntil_succ] at hend
    by_cases hpicked : watch task machine = true
    · obtain rfl := hwatch task machine hpicked
      exact ⟨[], hplace⟩
    rw [if_neg hpicked] at hend
    have hunstopped := Interpreter.unstopped_run (depth + 1) task
    by_cases hthread : task.startsThread = true
    · have hpermits := hunstopped machine trivial
      rw [if_pos hthread] at hend
      rw [Interpreter.run_succ, hend] at hpermits
      exact hpermits.elim
    rw [if_neg hthread] at hend
    by_cases hdirect : machine.Direct task
    · exact Place.of_part hwatch ih held (fun hexec ↦ Interpreter.agrees_step hexec task) hunstopped
        hend fun hhalts ↦ hplace.inside hdirect hhalts
    cases task with
    | perform op =>
      have hop : (Task.perform op).startsThread = false := by simpa using hthread
      exact absurd hop hdirect
    | closeFrame => exact absurd trivial hdirect
    | release guard => exact Place.of_release hwatch ih hplace hend
    | deliver event link =>
      obtain ⟨⟨object, next⟩, hfound⟩ := Option.ne_none_iff_exists'.mp hdirect
      change handOver (Interpreter.runUntil watch depth) event (machine.thread.stack.resolve link)
        machine = _ at hend
      rw [hfound] at hend
      exact Place.of_handOver hwatch ih (hplace.accounts hstart).1 hplace hfound hend

/-! ### Moments in their order -/

/-- What was destroyed at a moment of a task stays so at every moment that comes later, and at the
end. -/
theorem Accounts.ages_of_goesOn {task : Task} {last : Machine} (hmachine : machine.Accounts held)
    (h : Interpreter.GoesOn (fun exec ↦ exec task) depth machine moment last) :
    moment.Ages last := by
  obtain ⟨first, second, hstopped, hlast⟩ := h
  have hbooks : Books (fun _ ↦ True) held held
      (Interpreter.runUntil (fun task state ↦ first task state || second task state) depth task)
      (Interpreter.runUntil second depth task) :=
    Interpreter.books_runUntil first (fun _ _ _ ↦ trivial) depth task
  have htallies := hbooks machine hmachine
  dsimp only at hstopped hlast
  rw [hstopped] at htallies
  rcases htallies with ⟨hsame, -⟩ | ⟨other, hother, -, hbalances⟩
  · rcases hlast with (⟨_, hend⟩ | ⟨_, hend⟩) | hend
    · cases hsame.trans hend
    · cases hsame.trans hend
    · cases hsame.trans hend
      exact .refl moment
  · cases hother
    rcases hlast with (⟨_, hend⟩ | ⟨_, hend⟩) | hend
    all_goals
      rw [hend] at hbalances
      exact hbalances.2

end Machine

end Escalation
