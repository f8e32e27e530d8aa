import Escalation.Proofs.ReleaseOrder

/-!
# What installing and releasing do to a thread

Releasing a guard that owns its override cuts the stack, then lets go of what stood from there on,
and last reports (`Run.release_eq`). Releasing a guard whose override is gone only reports, and
leaves the thread as it is (`Run.release_of_not_owns`).

A thread that does nothing but push overrides and drop guards, in any order and unwinding or not,
makes exactly these moves, as long as no destructor makes moves of its own
(`Machine.Plays.played`), and each of its drops ends (`Machine.Played.drop`).
-/

set_option autoImplicit false
set_option relaxedAutoImplicit false

namespace Escalation

/-! ### Releasing -/

namespace Run

/-- Once everything that a release removed was let go, what is left to do ends, and has nothing to do
with overrides. -/
theorem settle_eq_bind {removed : List ObjectId} {released : Release ObjectId}
    (h : released = .inOrder removed ∨ released = .outOfOrder removed) (guard : Guard) :
    ∃ report : Run Unit, Aside report ∧ (∀ other, ∃ after, Ends report other after) ∧
      ∀ exec, settle exec guard released = relinquishAll exec removed >>= fun _ ↦ report := by
  rcases h with rfl | rfl
  · refine ⟨_, aside_traceEvent _ _ _, fun other ↦ ?_, fun _ ↦ rfl⟩
    obtain ⟨process, htrace⟩ := traceEvent_of_stack .trace
      ("exception callback released depth=" ++ toString guard.depth) other
    exact ⟨_, .inl ⟨(), htrace⟩⟩
  · refine ⟨_, aside_isUnwinding.bind fun unwinding ↦ ?_, fun other ↦ ?_, fun _ ↦ rfl⟩
    · split
      · exact aside_raise _
      · exact .pure _
    · have hread : isUnwinding other = .ok (other.thread.unwinding != 0) other := rfl
      unfold Ends
      rw [bind_of_ok hread]
      split
      · obtain ⟨process, hraise, -⟩ :=
          raise_eq (α := Unit) (.message (outOfOrderMessage guard.depth)) other
        exact ⟨_, .inr ⟨_, hraise⟩⟩
      · exact ⟨other, .inl ⟨(), rfl⟩⟩

end Run

/-- The machine with the stack cut to some height. -/
def Machine.cutTo (machine : Machine) (height : ℕ) : Machine :=
  { machine with thread := { machine.thread with stack :=
    { machine.thread.stack with entries := machine.thread.stack.entries.take height } } }

/-- What stands on the stack from some height on, outermost first. -/
def Machine.objectsFrom (machine : Machine) (height : ℕ) : List ObjectId :=
  (machine.thread.stack.entries.toList.drop height).map Installed.override

section Release

open Run

variable {machine : Machine} {guard : Guard}

/-- Releasing a guard that removes nothing has nothing to do with overrides, and finishes. -/
theorem Run.release_eq_report
    (h : machine.thread.tornDown = true ∨ machine.thread.stack.owns guard = false) :
    ∃ report : Run Unit, Aside report ∧ (∀ other, Finishes report other) ∧
      ∀ exec, Run.release exec guard machine = report machine := by
  by_cases halive : machine.thread.tornDown = false
  · have hstale := Stack.release_of_not_owns _ guard (h.resolve_left (by simp [halive]))
    have htarget : stackTarget ≠ bridgeTarget := by decide
    refine ⟨traceEvent .trace stackTarget
        ("stale exception callback guard dropped depth=" ++ toString guard.depth),
      aside_traceEvent _ _ _, fun other ↦ (returns_traceEvent other .trace htarget _).finishes,
      fun exec ↦ ?_⟩
    rw [release_of_alive halive, hstale]
    rfl
  · refine ⟨pure (), .pure (), fun _ ↦ .pure (), fun exec ↦ ?_⟩
    change (if machine.thread.tornDown = true then pure () else _ : Run Unit) machine = _
    rw [if_pos (by simpa using halive)]

/-- Releasing a guard that owns its override cuts the stack, and then settles what stood from there
on. -/
theorem Run.release_eq_settle (halive : machine.thread.tornDown = false)
    (howns : machine.thread.stack.owns guard = true) :
    ∃ released, (released = .inOrder (machine.objectsFrom guard.depth) ∨
      released = .outOfOrder (machine.objectsFrom guard.depth)) ∧
      ∀ exec, Run.release exec guard machine =
        settle exec guard released (machine.cutTo guard.depth) := by
  have hcut : (machine.thread.stack.release guard).2 =
      { machine.thread.stack with entries := machine.thread.stack.entries.take guard.depth } := by
    simp [Stack.release, howns, Array.shrink_eq_take]
  refine ⟨(machine.thread.stack.release guard).1, ?_, fun exec ↦ ?_⟩
  · rw [Stack.fst_release_of_owns howns]
    split
    · exact .inl rfl
    · exact .inr rfl
  · rw [release_of_alive halive, hcut]
    rfl

/-- Releasing a guard that owns its override cuts the stack, then lets go of what stood from there
on, and last reports. -/
theorem Run.release_eq (halive : machine.thread.tornDown = false)
    (howns : machine.thread.stack.owns guard = true) :
    ∃ report : Run Unit, Aside report ∧ (∀ other, ∃ after, Ends report other after) ∧
      ∀ exec, Run.release exec guard machine =
        (relinquishAll exec (machine.objectsFrom guard.depth) >>= fun _ ↦ report)
          (machine.cutTo guard.depth) := by
  obtain ⟨released, hreleased, hrelease⟩ := release_eq_settle halive howns
  obtain ⟨report, hreport, hends, hsettle⟩ := settle_eq_bind hreleased guard
  exact ⟨report, hreport, hends, fun exec ↦ by rw [hrelease, hsettle]⟩

/-- Releasing a guard whose override is gone leaves the thread as it is. -/
theorem Run.release_of_not_owns (halive : machine.thread.tornDown = false)
    (hstale : machine.thread.stack.owns guard = false) (exec : Exec) :
    ∃ process, Run.release exec guard machine = .ok () { machine with process } := by
  obtain ⟨process, htrace⟩ := traceEvent_of_stack .trace
    ("stale exception callback guard dropped depth=" ++ toString guard.depth) machine
  refine ⟨process, ?_⟩
  rw [release_of_alive halive, Stack.release_of_not_owns _ _ hstale]
  exact htrace

/-- Where no destructor does anything to the stack, the release of a guard ends, and cuts the stack or
leaves it as it is. -/
theorem Run.ends_release_of_harmless {exec : Exec} (halive : machine.thread.tornDown = false)
    (hharmless : ∀ installed ∈ machine.thread.stack.entries.toList,
      HarmlessAt exec machine installed.override) :
    ∃ after, Ends (Run.release exec guard) machine after ∧
      after.thread.stack = (machine.thread.stack.release guard).2 ∧
      after.thread.tornDown = false ∧ ∀ {object : ObjectId} {override : Override},
        machine.overrideOf? object = some override →
          after.overrideOf? object = some override := by
  by_cases howns : machine.thread.stack.owns guard = true
  · obtain ⟨report, hreport, hreports, hrelease⟩ := Run.release_eq halive howns
    let cut := machine.cutTo guard.depth
    have hcutStack : cut.thread.stack = (machine.thread.stack.release guard).2 := by
      simp [cut, Machine.cutTo, Stack.release, howns, Array.shrink_eq_take]
    have hcut : machine.AsBefore cut := by
      have hbefore := Machine.AsBefore.of_release machine guard
      rwa [← hcutStack] at hbefore
    have hremoved : ∀ object ∈ machine.objectsFrom guard.depth, HarmlessAt exec cut object := by
      intro object hobject
      obtain ⟨installed, hinstalled, rfl⟩ := List.mem_map.mp hobject
      exact (hharmless installed (List.mem_of_mem_drop hinstalled)).asBefore hcut
    obtain ⟨left, hall, hstack, hleft⟩ := relinquishAll_of_harmless hremoved
    obtain ⟨after, hends⟩ := hreports left
    have hsame : left.SameOverrides after := hends.change (hreport left trivial)
    refine ⟨after, ?_, hsame.stack.trans (hstack.trans hcutStack),
      hsame.tornDown.trans (hleft.tornDown.trans halive), fun hoverride ↦
        (hsame.overrideOf_eq _).trans (hleft.overrideOf (hcut.overrideOf hoverride))⟩
    unfold Ends
    rw [hrelease, bind_of_ok hall]
    exact hends
  · have hstale : machine.thread.stack.owns guard = false := by simpa using howns
    obtain ⟨process, hrelease⟩ := release_of_not_owns halive hstale exec
    refine ⟨_, .inl ⟨(), hrelease⟩, ?_, halive, id⟩
    rw [Stack.release_of_not_owns _ _ hstale]

end Release

/-! ### Pushes and drops -/

/-- Nothing runs when the override is destroyed. -/
def Override.Inert : Override → Prop
  | .script program => program.destructor = none
  | _ => True

/-- When such an override is destroyed, nothing runs. -/
theorem Run.destroy_of_inert {override : Override} (h : override.Inert) (exec : Exec)
    (machine : Machine) : destroy exec override machine = .ok () machine := by
  cases override with
  | script program =>
    obtain ⟨name, onRecoverable, onFatal, onLine, destructor⟩ := program
    obtain rfl : destructor = none := h
    rfl
  | _ => rfl

theorem Run.harmlessAt_of_inert {machine : Machine} {object : ObjectId} {override : Override}
    (hoverride : machine.overrideOf? object = some override) (h : override.Inert) (exec : Exec) :
    HarmlessAt exec machine object := by
  exact ⟨override, hoverride, fun _ later _ ↦ ⟨later, destroy_of_inert h exec later, rfl, .refl _⟩⟩

/-- A thread pushes overrides and drops guards, in any order. The moves are listed, with the guards
that the pushes gave. In between anything may happen that leaves the stack alone; in particular what
a drop raises may be caught or not. -/
inductive Machine.Plays (exec : Exec) (start : Machine) :
    List (Move ObjectId) → List Guard → Machine → Prop
  | start : Plays exec start [] [] start
  | aside {moves : List (Move ObjectId)} {guards : List Guard} {machine after : Machine} :
    Plays exec start moves guards machine → after.thread.stack = machine.thread.stack →
    after.thread.tornDown = machine.thread.tornDown →
    (∀ {object : ObjectId} {override : Override}, machine.overrideOf? object = some override →
      after.overrideOf? object = some override) → Plays exec start moves guards after
  | push {moves : List (Move ObjectId)} {guards : List Guard} {machine after : Machine}
    {object : ObjectId} {override : Override} {guard : Guard} :
    Plays exec start moves guards machine → machine.overrideOf? object = some override →
    override.Inert → Run.install exec object machine = .ok guard after →
      Plays exec start (moves ++ [.install object]) (guards ++ [guard]) after
  | drop {moves : List (Move ObjectId)} {guards : List Guard} {machine after : Machine}
    {serial : ℕ} {guard : Guard} : Plays exec start moves guards machine →
    guards[serial]? = some guard → Run.Ends (Run.release exec guard) machine after →
      Plays exec start (moves ++ [.release serial]) guards after

/-- The thread has made exactly these moves and was given these guards for them, and no destructor of
an override in place does anything. -/
structure Machine.Played (machine : Machine) (moves : List (Move ObjectId)) (guards : List Guard) :
    Prop where
  follows : machine.thread.Follows moves
  guards_eq : guards = (History.of moves).guards
  inert {installed : Installed ObjectId} : installed ∈ machine.thread.stack.entries.toList →
    ∃ override, machine.overrideOf? installed.override = some override ∧ override.Inert

namespace Machine.Played

open Run

variable {exec : Exec} {machine after : Machine} {moves : List (Move ObjectId)}
  {guards : List Guard}

theorem harmlessAt (h : machine.Played moves guards) (exec : Exec) :
    ∀ installed ∈ machine.thread.stack.entries.toList,
      HarmlessAt exec machine installed.override := by
  intro installed hinstalled
  obtain ⟨override, hoverride, hinert⟩ := h.inert hinstalled
  exact harmlessAt_of_inert hoverride hinert exec

/-- An installation is one more move. -/
theorem push (h : machine.Played moves guards) {object : ObjectId} {override : Override}
    {guard : Guard} (hoverride : machine.overrideOf? object = some override)
    (hinert : override.Inert) (hinstall : Run.install exec object machine = .ok guard after) :
    after.Played (moves ++ [.install object]) (guards ++ [guard]) := by
  obtain ⟨process, hend, -⟩ := @install_of_alive exec machine h.follows.alive object
  rw [hinstall] at hend
  cases hend
  refine ⟨h.follows.install object, ?_, fun {installed} hinstalled ↦ ?_⟩
  · rw [h.guards_eq, History.of_append_singleton, h.follows.stack, Stack.fst_install_map]
    rfl
  · rw [Stack.entries_install, Array.toList_push, List.mem_append, List.mem_singleton] at hinstalled
    rcases hinstalled with hold | rfl
    · exact h.inert hold
    · exact ⟨override, hoverride, hinert⟩

/-- The release of a guard ends, and is one more move. -/
theorem drop (h : machine.Played moves guards) {serial : ℕ} {guard : Guard}
    (hguard : guards[serial]? = some guard) (exec : Exec) :
    ∃ after, Ends (Run.release exec guard) machine after ∧
      after.Played (moves ++ [.release serial]) guards := by
  obtain ⟨after, hends, hstack, halive, hoverrides⟩ :=
    @ends_release_of_harmless machine guard exec h.follows.alive (h.harmlessAt exec)
  rw [h.guards_eq] at hguard
  have hmove : (History.of (moves ++ [.release serial])).guards = (History.of moves).guards := by
    rw [History.of_append_singleton]
    simp [History.move, hguard]
  refine ⟨after, hends, (h.follows.release hguard).of_eq hstack (halive.trans h.follows.alive.symm),
    h.guards_eq.trans hmove.symm, fun {installed} hinstalled ↦ ?_⟩
  rw [hstack, Stack.toList_entries_release] at hinstalled
  have hold : installed ∈ machine.thread.stack.entries.toList := by
    split at hinstalled
    · exact List.mem_of_mem_take hinstalled
    · exact hinstalled
  obtain ⟨override, hoverride, hinert⟩ := h.inert hold
  exact ⟨override, hoverrides hoverride, hinert⟩

end Machine.Played

/-- Pushes and drops are exactly the moves of their thread. -/
theorem Machine.Plays.played {exec : Exec} {start machine : Machine} {moves : List (Move ObjectId)}
    {guards : List Guard} (hstart : start.thread.Follows [])
    (h : Machine.Plays exec start moves guards machine) : machine.Played moves guards := by
  induction h with
  | start =>
    refine ⟨hstart, rfl, fun hinstalled ↦ ?_⟩
    rw [hstart.stack] at hinstalled
    simp at hinstalled
  | aside _ hstack htornDown hoverrides ih =>
    refine ⟨ih.follows.of_eq hstack htornDown, ih.guards_eq, fun hinstalled ↦ ?_⟩
    rw [hstack] at hinstalled
    obtain ⟨override, hoverride, hinert⟩ := ih.inert hinstalled
    exact ⟨override, hoverrides hoverride, hinert⟩
  | push _ hoverride hinert hinstall ih => exact ih.push hoverride hinert hinstall
  | drop _ hguard hends ih =>
    obtain ⟨after, hafter, hplayed⟩ := ih.drop hguard exec
    rwa [hends.unique hafter]

end Escalation
