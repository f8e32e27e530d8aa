import Escalation.Proofs.Places

/-!
# Override objects live as long as they are used

A thread begins without overrides, runs its program, gives up what is shared under names, and has
its storage torn down. Wherever it is meanwhile, it is at a place
(`Run.place_of_stopped_runThread`). Hence an object that is on the stack, shared under a name or in
hand is alive, every other one has been destroyed, and none comes back (`objects_live_while_used`).

The last owner that lets go of an object destroys it. The destructor of a script runs then, once, and
nothing runs where there is none (`Run.relinquish_of_last_eq`).
-/

set_option autoImplicit false
set_option relaxedAutoImplicit false

namespace Escalation

open Run

/-! ### Threads -/

/-- The beginning of a thread. -/
def Machine.atStartOf (machine : Machine) (plan : ThreadPlan) : Machine :=
  { machine with thread := { name := plan.name } }

theorem Machine.unused_atStartOf (machine : Machine) (plan : ThreadPlan) :
    (machine.atStartOf plan).Unused := ⟨rfl, rfl, rfl⟩

/-- The contract of what leads from place to place, with nothing in hand in between. -/
def Contract.placed (start : Machine) : Contract where
  before machine := start.Place [] [] machine
  change _ after := start.Place [] [] after

namespace Run

section Placed

variable {start : Machine} {stop : Prop} {α β : Type}

theorem placed_bind {part : Run α} {next : α → Run β} (hpart : Keeps (.placed start) stop part)
    (hnext : ∀ value, Keeps (.placed start) stop (next value)) :
    Keeps (.placed start) stop (part >>= next) := fun machine hmachine ↦
  (hpart machine hmachine).bind id fun _ hafter ↦ hnext _ _ hafter

theorem placed_andFinally {body : Run α} {cleanup : Run Unit}
    (hbody : Keeps (.placed start) stop body) (hcleanup : Keeps (.placed start) stop cleanup) :
    Keeps (.placed start) stop (andFinally body cleanup) := fun machine hmachine ↦
  (hbody machine hmachine).andFinally fun hafter ↦ hcleanup _ hafter

theorem placed_ended {machine after : Machine} {outcome : Except Payload α}
    (hafter : start.Place [] [] after) :
    (Contract.placed start).Permits stop machine (ended outcome after) := by
  cases outcome <;> exact hafter

/-- What has nothing to do with overrides, and finishes, leads to a place. -/
theorem placed_of_aside {part : Run α} (hfinish : ∀ machine, Finishes part machine)
    (haside : Aside part) : Keeps (.placed start) stop part := by
  intro machine hmachine
  obtain ⟨outcome, after, hend, hsame⟩ := ended_of_aside (hfinish machine) haside
  rw [hend]
  exact placed_ended (hmachine.aside hsame)

theorem placed_modifyThread {change : Thread → Thread}
    (h : ∀ thread process, Machine.SameBooks ⟨process, thread⟩ ⟨process, change thread⟩) :
    Keeps (.placed start) stop (modifyThread change) :=
  fun machine hmachine ↦ hmachine.aside (h machine.thread machine.process)

theorem placed_record (entry : Record) : Keeps (.placed start) stop (record entry) :=
  placed_of_aside (fun machine ↦ (returns_record machine entry).finishes) (aside_record entry)

theorem placed_height : Keeps (.placed start) stop height := fun _ hmachine ↦ hmachine

theorem placed_intercept {part : Run α} (hpart : Keeps (.placed start) stop part) :
    Keeps (.placed start) stop (intercept part) := by
  intro machine hmachine
  have hpermits := hpart machine hmachine
  unfold intercept
  rcases hend : part machine with ⟨value, after⟩ | ⟨payload | _ | _ | _, after⟩
  all_goals rw [hend] at hpermits
  · exact hpermits
  · exact Machine.Place.aside hpermits ⟨rfl, rfl, rfl⟩
  all_goals exact hpermits

theorem placed_catching {part : Run α} (hpart : Keeps (.placed start) stop part) :
    Keeps (.placed start) stop (catching part) := by
  refine placed_bind (placed_intercept hpart) fun outcome ↦ ?_
  cases outcome with
  | ok value => exact fun _ hmachine ↦ hmachine
  | error payload =>
    refine placed_bind ?_ fun _ _ hmachine ↦ hmachine
    exact placed_of_aside (fun machine ↦ (returns_absorb machine payload).finishes)
      (aside_absorb payload)

end Placed

/-- What leads from place to place, and where it is stopped if it is. -/
theorem placed_of_ends {start machine origin : Machine} {stop : Prop} {α : Type} {part : Run α}
    (hends : ∀ after, Ends part machine after → start.Place [] [] after)
    (hstopped : ∀ state, part machine = .error .stopped state → stop) :
    (Contract.placed start).Permits stop origin (part machine) := by
  rcases hend : part machine with ⟨value, after⟩ | ⟨payload | _ | _ | _, after⟩
  · exact hends after (.inl ⟨value, hend⟩)
  · exact hends after (.inr ⟨payload, hend⟩)
  · trivial
  · trivial
  · exact hstopped after hend

section Threads

variable {start moment : Machine} {watch : Task → Machine → Bool} {depth : ℕ}

variable (hwatch : ∀ other state, watch other state = true → state = moment)
  (hcovers : Machine.Place.Covers start [] watch depth moment)
include hwatch hcovers

theorem placed_task (task : Task) : Keeps (.placed start) (∃ held, start.Place [] held moment)
    (Interpreter.runUntil watch depth task) := by
  intro machine hmachine
  refine placed_of_ends (fun after hends ↦ ?_) fun state hstopped ↦ ?_
  · exact hmachine.ends (hends.of_agrees (Interpreter.agrees_runUntil watch depth task))
  · obtain rfl := Interpreter.eq_of_stopped hwatch (Interpreter.agrees_runUntil watch depth task)
      (Interpreter.unstopped_run depth task) hstopped
    obtain ⟨more, hmore⟩ := hcovers hmachine hstopped
    exact ⟨more ++ [], hmore⟩

/-- Objects that were taken in hand are let go, and then none is in hand. -/
theorem placed_relinquishAll {machine cut : Machine} {taken : List ObjectId}
    (hmachine : start.Place [] [] machine) (hcollects : machine.Collects taken cut) :
    (Contract.placed start).Permits (∃ held, start.Place [] held moment) cut
      (relinquishAll (Interpreter.runUntil watch depth) taken cut) := by
  refine placed_of_ends (fun after hends ↦ ?_) fun state hstopped ↦ ?_
  · have hletsGo := (letsGo_of_ends hends).of_agrees (Interpreter.agrees_runUntil watch depth)
    exact hmachine.removed hcollects hletsGo
  · have hunstopped := Discipline.governs_unstopped_iff.mpr (Interpreter.unstopped_run depth)
    obtain rfl := Interpreter.eq_of_stopped hwatch
      (agrees_relinquishAll (Interpreter.agrees_runUntil watch depth) taken)
      (Discipline.keeps_relinquishAll_uniform hunstopped taken) hstopped
    obtain ⟨more, hmore⟩ :=
      Machine.Place.of_relinquishAll hwatch hcovers hmachine hcollects hstopped
    exact ⟨more ++ [], hmore⟩

theorem placed_performAll (ops : List Op) : Keeps (.placed start)
    (∃ held, start.Place [] held moment)
    (ops.forM fun op ↦ Interpreter.runUntil watch depth (.perform op)) := by
  induction ops with
  | nil => exact fun _ hmachine ↦ hmachine
  | cons op rest ih =>
    rw [List.forM_eq_forM, List.forM_cons]
    exact placed_bind (placed_task hwatch hcovers _) fun _ ↦ ih

theorem placed_runList (ops : List Op) : Keeps (.placed start) (∃ held, start.Place [] held moment)
    (runList (Interpreter.runUntil watch depth) ops) := by
  refine placed_bind (placed_modifyThread fun _ _ ↦ ⟨rfl, rfl, rfl⟩) fun _ ↦ ?_
  exact placed_andFinally (placed_performAll hwatch hcovers ops) (placed_task hwatch hcovers _)

theorem placed_runSteps (index : ℕ) (ops : List Op) : Keeps (.placed start)
    (∃ held, start.Place [] held moment)
    (runSteps (Interpreter.runUntil watch depth) index ops) := by
  induction ops generalizing index with
  | nil => exact fun _ hmachine ↦ hmachine
  | cons op rest ih =>
    refine placed_bind (placed_catching (placed_task hwatch hcovers _)) fun outcome ↦ ?_
    refine placed_bind placed_height fun height ↦ ?_
    exact placed_bind (placed_record _) fun _ ↦ ih (index + 1)

theorem placed_runCaught (ops : List Op) : Keeps (.placed start)
    (∃ held, start.Place [] held moment)
    (runCaught (Interpreter.runUntil watch depth) ops) := by
  refine placed_bind (placed_modifyThread fun _ _ ↦ ⟨rfl, rfl, rfl⟩) fun _ ↦ ?_
  refine placed_bind (placed_runSteps hwatch hcovers 0 ops) fun _ ↦ ?_
  refine placed_bind (placed_catching (placed_task hwatch hcovers _)) fun outcome ↦ ?_
  refine placed_bind ?_ fun _ ↦ placed_bind placed_height fun height ↦ placed_record _
  exact fun machine hmachine ↦ placed_relinquishAll hwatch hcovers hmachine .names

theorem placed_tearDown (late : Option Guard) : Keeps (.placed start)
    (∃ held, start.Place [] held moment)
    (tearDown (Interpreter.runUntil watch depth) late) := by
  intro machine hmachine
  change (Contract.placed start).Permits _ machine ((relinquishAll _ machine.placed >>= _) _)
  have hremoved := placed_relinquishAll hwatch hcovers hmachine .stack
  refine Contract.Permits.bind hremoved id fun {_ after} _ hafter ↦ ?_
  cases late with
  | none => exact hafter
  | some guard =>
    refine placed_bind placed_height (fun height ↦ ?_) after hafter
    refine placed_bind (fun _ h ↦ h) fun link ↦ placed_bind (placed_record _) fun _ ↦ ?_
    refine placed_bind (fun _ h ↦ h) fun link ↦ ?_
    refine placed_bind (placed_task hwatch hcovers _) fun _ ↦ ?_
    exact placed_bind (placed_task hwatch hcovers _) fun _ ↦ placed_record _

/-- A thread that is waited for is stopped at a place that is reached from its beginning. -/
theorem place_of_stopped_runThread {machine : Machine} {plan : ThreadPlan} (ops : List Op)
    (hstart : start = machine.atStartOf plan) :
    Contract.anything.Permits (∃ held, start.Place [] held moment) machine
      (runThread (Interpreter.runUntil watch depth) plan ops machine) := by
  unfold runThread
  change Contract.anything.Permits _ machine
    ((installLate (Interpreter.runUntil watch depth) plan >>= _) (machine.atStartOf plan))
  rw [← hstart]
  have halive : start.thread.tornDown = false := by rw [hstart]; rfl
  obtain ⟨late, after, hlate⟩ : ∃ late after,
      installLate (Interpreter.runUntil watch depth) plan start = .ok late after :=
    Discipline.installLate_of_alive halive
  have hbegun : start.Place [] [] after := by
    rcases agrees_installLate (Interpreter.agrees_runUntil watch depth) plan start with
      hrun | ⟨_, _, hbroken, -⟩
    · exact .late .start (hrun.symm.trans hlate)
    · cases hbroken.symm.trans hlate
  have hprogram : Keeps (.placed start) (∃ held, start.Place [] held moment)
      (if plan.uncaught then runList (Interpreter.runUntil watch depth) ops
        else runCaught (Interpreter.runUntil watch depth) ops) := by
    split
    · exact placed_runList hwatch hcovers ops
    · exact placed_runCaught hwatch hcovers ops
  rw [bind_of_ok hlate]
  refine Contract.Permits.bind (placed_intercept hprogram after hbegun) (fun _ ↦ trivial)
    fun {outcome now} _ hnow ↦ ?_
  have htornDown := placed_intercept (placed_tearDown hwatch hcovers late) now hnow
  refine Contract.Permits.bind htornDown (fun _ ↦ trivial) fun {ended last} _ _ ↦ ?_
  cases ended with
  | error payload => trivial
  | ok _ => cases outcome <;> trivial

end Threads

end Run

/-! ### Lifetimes -/

/-- What is used at a place is what is on the stack there, what is shared under names, and what is
in hand. -/
def Machine.used (machine : Machine) (held : List ObjectId) : List ObjectId :=
  machine.placed ++ machine.named ++ held

/-- The last owner that lets go of an object destroys it. It has been destroyed when its destructor
runs. -/
theorem Run.relinquish_of_last {machine : Machine} {object : ObjectId} (exec : Exec)
    (hlast : machine.owners object = 1) :
    ∃ override after, machine.overrideOf? object = some override ∧ after.Destroyed object ∧
      relinquish exec object machine = destroy exec override after := by
  obtain ⟨alive, halive, -⟩ := Machine.owners_pos_iff.mp (hlast ▸ Nat.one_pos)
  have hcount : alive.owners = 1 := by simpa [Machine.owners, halive] using hlast
  have hdisown := disown_eq halive
  rw [if_pos hcount] at hdisown
  refine ⟨alive.override, _, by simp [Machine.overrideOf?, halive], ⟨?_, ?_⟩, bind_of_ok hdisown⟩
  · simpa using (Array.getElem?_eq_some_iff.mp halive).1
  · exact (Machine.owners_of_set halive rfl).1.trans (by rw [hcount])

/-- A cleanup runs its list once, during which no event is handled, and behind a catch if it is
contained. -/
theorem Run.runCleanup_eq (exec : Exec) (place : Place) (cleanup : Cleanup) :
    let list : Run Unit := withHandling none (runList exec cleanup.ops)
    let contained : Run Unit := do
      let outcome ← catching list
      (raisedBy outcome).forM fun failure ↦ record (.contained place failure)
    runCleanup exec place cleanup = if cleanup.contained then contained else list := by
  intro list contained
  unfold runCleanup
  split_ifs
  · refine congrArg (catching list >>= ·) (funext fun outcome ↦ ?_)
    cases outcome <;> rfl
  · rfl

/-- When a script is destroyed, that is recorded and its destructor runs, once. When any other
override is destroyed, nothing runs. -/
theorem Run.relinquish_of_last_eq {machine : Machine} {object : ObjectId} {override : Override}
    (exec : Exec) (hlast : machine.owners object = 1)
    (hoverride : machine.overrideOf? object = some override) :
    ∃ after, after.Destroyed object ∧
      (override.Inert → relinquish exec object machine = .ok () after) ∧
      ∀ name onRecoverable onFatal onLine cleanup,
        override = .script { name, onRecoverable, onFatal, onLine, destructor := some cleanup } →
          relinquish exec object machine = (do
            record (.dropped name (← height))
            runCleanup exec .destructor cleanup) after := by
  obtain ⟨same, after, hsame, hafter, hrelinquish⟩ := relinquish_of_last exec hlast
  obtain rfl := Option.some.inj (hoverride.symm.trans hsame)
  refine ⟨after, hafter, fun hinert ↦ hrelinquish.trans (destroy_of_inert hinert exec after), ?_⟩
  rintro name onRecoverable onFatal onLine cleanup rfl
  exact hrelinquish

/-- Any other owner lets go of an object, and that is all. -/
theorem Run.relinquish_of_not_last {machine : Machine} {object : ObjectId} (exec : Exec)
    (hlast : machine.owners object ≠ 1) :
    ∃ after, relinquish exec object machine = .ok () after := by
  rcases halive : machine.thread.objects[object]? with _ | alive
  · exact ⟨machine, relinquish_of_none halive⟩
  · refine ⟨_, relinquish_eq halive ?_⟩
    simpa [Machine.owners, halive] using hlast

/-- Assumes: no override was made on a thread yet.
Then at each place that the thread comes to:
* an object that is on the stack, shared under a name, or in hand has not been destroyed;
* every other one has been destroyed;
* what has been destroyed stays so at every place that is reached from there;
* a task that ends leaves the thread with what it had in hand, and at every moment of a task the
  thread is at such a place, with what the handlers and releases have in hand besides that the
  moment is inside of;
* an event that is dispatched to an override is handled with its object in hand, at every moment of
  its handler, and the object is let go behind the handler, which may have returned or raised;
* what has been destroyed at one moment of a task stays so at every later one, and at the end.
A thread that runs a program, to the end of its storage, is at such a place at every moment. An
object is destroyed where its last owner lets go of it, and nowhere else. -/
theorem objects_live_while_used {start : Machine} (hstart : start.Unused) :
    (∀ held machine, start.Place [] held machine →
      (∀ object ∈ machine.used held, 0 < machine.owners object) ∧
      (∀ object < machine.thread.objects.size, object ∉ machine.used held →
        machine.Destroyed object) ∧
      (∀ left later, machine.Place held left later →
        start.Place [] left later ∧ machine.Ages later) ∧
      (∀ depth task after, Ends (Interpreter.run depth task) machine after →
        machine.Place held held after) ∧
      (∀ depth task other moment,
        Interpreter.ComesTo (fun exec ↦ exec task) depth machine other moment →
          ∃ more, machine.Place held (more ++ held) moment) ∧
      (∀ event link next object, machine.thread.stack.resolve link = some (object, next) →
        ∃ override inside, machine.overrideOf? object = some override ∧
          (∀ exec, deliver exec event link machine =
            andFinally (handleBy exec override event next) (relinquish exec object) inside) ∧
          ∀ depth other moment, Interpreter.ComesTo (fun exec ↦ handleBy exec override event next)
            depth inside other moment →
              ∃ more, machine.Place held (more ++ object :: held) moment) ∧
      ∀ depth task moment last,
        Interpreter.GoesOn (fun exec ↦ exec task) depth machine moment last →
          moment.Ages last) ∧
    (∀ machine plan ops depth task moment, start = machine.atStartOf plan →
      Interpreter.ComesTo (fun exec ↦ do let _ ← runThread exec plan ops) depth machine task
        moment → ∃ held, start.Place [] held moment) ∧
    ∀ (exec : Exec) (machine : Machine) (object : ObjectId),
      (machine.owners object = 1 → ∃ override after, machine.overrideOf? object = some override ∧
        after.Destroyed object ∧ relinquish exec object machine = destroy exec override after) ∧
      (machine.owners object ≠ 1 → ∃ after, relinquish exec object machine = .ok () after) := by
  have hcovers {base moment : Machine} {inHand : List ObjectId} {task : Task}
      {watch : Task → Machine → Bool} (hbase : base.Accounts inHand)
      (hwatch : ∀ other state, watch other state = true → other = task ∧ state = moment)
      (depth : ℕ) : Machine.Place.Covers base inHand watch depth moment :=
    Machine.Place.covers hbase (fun other state h ↦ (hwatch other state h).2) depth
  refine ⟨fun held machine hplace ↦ ?_, ?_,
    fun exec machine object ↦ ⟨relinquish_of_last exec, relinquish_of_not_last exec⟩⟩
  · have hmachine := (hplace.accounts hstart.accounts).1
    refine ⟨fun object hobject ↦ hmachine.alive ?_, fun object hobject hunused ↦ ?_,
      fun left later hlater ↦ ⟨hplace.trans hlater, (hlater.accounts hmachine).2⟩,
      fun depth task after hends ↦ .ends .start hends, ?_, ?_,
      fun depth task moment last hgoes ↦ hmachine.ages_of_goesOn hgoes⟩
    · simpa [Machine.used, or_assoc] using hobject
    · simp only [Machine.used, List.mem_append, not_or] at hunused
      exact hmachine.destroyed hobject hunused.1.1 hunused.1.2 hunused.2
    · rintro depth task other moment ⟨watch, hwatch, hend⟩
      exact hcovers hmachine hwatch depth .start hend
    · intro event link next object hfound
      obtain ⟨override, inside, hacquire, hoverride, -⟩ :=
        hmachine.acquire (hmachine.alive (.inl (Machine.mem_placed_of_resolve hfound)))
      refine ⟨override, inside, hoverride, fun exec ↦ ?_, ?_⟩
      · change handOver exec event (machine.thread.stack.resolve link) machine = _
        rw [hfound]
        exact bind_of_ok hacquire
      · rintro depth other moment ⟨watch, hwatch, hend⟩
        exact Machine.Place.of_handler (fun other state h ↦ (hwatch other state h).2)
          (hcovers hmachine hwatch depth) .start hfound hacquire hend
  · rintro machine plan ops depth task moment hbegins ⟨watch, hwatch, hend⟩
    have hpermits := place_of_stopped_runThread (fun other state h ↦ (hwatch other state h).2)
      (hcovers hstart.accounts hwatch depth) ops hbegins
    rw [stopped_of_bind_aside (fun _ ↦ .pure ()) hend] at hpermits
    exact hpermits

/-- An override releases itself while it handles a line. It is alive until its handler is over,
though it is not in place any more, and has been destroyed when the line has been delivered. -/
theorem released_itself_lives_until_handled :
    let script : Script := { name := "own", onLine := some [.release "own"] }
    ∃ installed inside after : Machine, Machine.Place {} [] [] installed ∧
      installed.overrideOf? 0 = some (.script script) ∧
      installed.Place [] [0] inside ∧ 0 ∉ inside.placed ∧ 0 < inside.owners 0 ∧
      Ends (Interpreter.run 4 (.deliver (.line lateLine) (.override 0))) installed after ∧
      after.Destroyed 0 := by
  intro script
  let install : Op := .push (.script script) "own" false
  let opened : Machine := { thread := { frames := [[]] } }
  let installed : Machine :=
    { process := { records := #[.performed "push" (.depth 0)] }
      thread :=
        { stack := { entries := #[{ generation := 0, override := 0 }], nextGeneration := 1 }
          frames := [[{ name := "own", guard := { depth := 0, generation := 0 } }]]
          objects := #[{ override := .script script, owners := 1 }] } }
  let exec : Exec := fun task state ↦
    if state.thread.stack.height = 0 then .error .stopped state else Interpreter.run 3 task state
  have hexec (task : Task) (state : Machine) :
      exec task state = Interpreter.run 3 task state ∨ exec task state = .error .stopped state := by
    by_cases hempty : state.thread.stack.height = 0
    · exact .inr (if_pos hempty)
    · exact .inl (if_neg hempty)
  have hunused : Machine.Unused {} := Machine.unused_atStartOf {} {}
  have hinstall : Interpreter.run 1 (.perform install) opened = .ok () installed := rfl
  have hopened : Machine.Place {} [] [] opened := .aside .start ⟨rfl, rfl, rfl⟩
  have hinstalled : Machine.Place {} [] [] installed := hopened.ends (.inl ⟨(), hinstall⟩)
  let entered : Machine := { installed with thread := { installed.thread with
    objects := #[{ override := .script script, owners := 2 }] } }
  let inside : Machine :=
    { process := { records := #[.performed "push" (.depth 0),
        .received "own" (.line lateLine) .root, .performed "release" (.depth 0)] }
      thread :=
        { stack := { entries := #[], nextGeneration := 1 }
          handling := some { event := .line lateLine, next := .root }
          frames := [[], []]
          objects := #[{ override := .script script, owners := 1 }] } }
  have hacquire : acquire 0 installed = .ok (some (.script script)) entered := rfl
  have hhandler : handleBy exec (.script script) (.line lateLine) .root entered =
      .error .stopped inside := rfl
  have hinside : installed.Place [] [0] inside :=
    .handler .start (show installed.thread.stack.resolve (.override 0) = some (0, .root) from rfl)
      hacquire ⟨exec, hexec, hhandler⟩
  let after : Machine :=
    { process := { records := #[.performed "push" (.depth 0),
        .received "own" (.line lateLine) .root, .performed "release" (.depth 0)] }
      thread :=
        { stack := { entries := #[], nextGeneration := 1 }
          frames := [[]]
          objects := #[{ override := .script script, owners := 0 }] } }
  have hdeliver : Interpreter.run 4 (.deliver (.line lateLine) (.override 0)) installed =
      .ok () after := rfl
  have hends : Ends (Interpreter.run 4 (.deliver (.line lateLine) (.override 0))) installed after :=
    .inl ⟨(), hdeliver⟩
  have hgone : (0 : ObjectId) ∉ inside.placed := by decide
  have hlifetimes := (objects_live_while_used hunused).1
  have hlives := (hlifetimes _ _ (hinstalled.trans hinside)).1 0 (by decide)
  have hdies := (hlifetimes _ _ (hinstalled.ends hends)).2.1 0 (by decide) (by decide)
  exact ⟨installed, inside, after, hinstalled, rfl, hinside, hgone, hlives, hends, hdies⟩

end Escalation
