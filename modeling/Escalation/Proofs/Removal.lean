import Escalation.Proofs.Agreement
import Escalation.Proofs.Refinement

/-!
# Removed overrides are gone for good

Releasing a guard that owns its override cuts the stack, and then lets go of what was removed, each
on the machine that the one before left (`Run.LetsGo`). Destructors are programs like any other, so
they may install overrides, release guards, send events and raise; wherever such a program is, the
destructors of the overrides further out have run to their ends, and it runs on the stack that was
cut (`Run.letsGo_of_comesTo_release`).

The thread makes further moves from then on, whatever it does (`Machine.Onward`), and no move brings
an installation back. Hence no link leads to what was removed, and no event is handed to it
(`release_removes_for_good`).
-/

set_option autoImplicit false
set_option relaxedAutoImplicit false

namespace Escalation

namespace Run

variable {exec other : Exec} {machine after last moment : Machine} {α β : Type}

/-! ### How parts end -/

/-- A body and its cleanup both end, where they end together. -/
theorem Ends.of_andFinally {body : Run α} {cleanup : Run Unit}
    (h : Ends (andFinally body cleanup) machine last) :
    ∃ after, Ends body machine after ∧ Ends cleanup after last := by
  unfold Ends andFinally at h
  cases hbody : body machine with
  | ok value after =>
    refine ⟨after, .inl ⟨value, hbody⟩, ?_⟩
    rw [hbody] at h
    unfold Ends
    cases hcleanup : cleanup after <;> simp_all
  | error interrupt after =>
    rw [hbody] at h
    cases interrupt with
    | raised payload =>
      refine ⟨after, .inr ⟨payload, hbody⟩, .inl ⟨(), ?_⟩⟩
      rcases hcleanup : cleanup after with ⟨_, left⟩ | ⟨_ | _ | _ | _, left⟩ <;> simp_all
    | aborted => simp at h
    | exhausted => simp at h
    | stopped => simp at h

/-- A body that is stopped, or a cleanup behind a body that ended. -/
theorem stopped_of_andFinally {body : Run α} {cleanup : Run Unit}
    (h : andFinally body cleanup machine = .error .stopped moment) :
    body machine = .error .stopped moment ∨
      ∃ after, Ends body machine after ∧ cleanup after = .error .stopped moment := by
  unfold andFinally at h
  cases hbody : body machine with
  | ok value after =>
    rw [hbody] at h
    refine .inr ⟨after, .inl ⟨value, hbody⟩, ?_⟩
    cases hcleanup : cleanup after <;> simp_all
  | error interrupt after =>
    rw [hbody] at h
    cases interrupt with
    | raised payload =>
      refine .inr ⟨after, .inr ⟨payload, hbody⟩, ?_⟩
      rcases hcleanup : cleanup after with ⟨_, left⟩ | ⟨_ | _ | _ | _, left⟩ <;> simp_all
    | aborted => simp at h
    | exhausted => simp at h
    | stopped => exact .inl (by simpa using h)

/-- What follows a part and has nothing to do with overrides leaves them as they are. -/
theorem Ends.of_bind_aside {part : Run α} {next : α → Run β} (hnext : ∀ value, Aside (next value))
    (h : Ends (part >>= next) machine last) :
    ∃ after, Ends part machine after ∧ after.SameOverrides last := by
  unfold Ends at h
  cases hpart : part machine with
  | ok value after =>
    rw [bind_of_ok hpart] at h
    exact ⟨after, .inl ⟨value, hpart⟩, Ends.change h (hnext value after trivial)⟩
  | error interrupt after =>
    rw [bind_of_error hpart] at h
    obtain ⟨payload, hraised⟩ := h.resolve_left (by simp)
    injection hraised with hinterrupt hlast
    subst hinterrupt hlast
    exact ⟨after, .inr ⟨payload, hpart⟩, .refl after⟩

/-- What has nothing to do with overrides is not stopped. -/
theorem stopped_of_bind_aside {part : Run α} {next : α → Run β}
    (hnext : ∀ value, Aside (next value)) (h : (part >>= next) machine = .error .stopped moment) :
    part machine = .error .stopped moment := by
  cases hpart : part machine with
  | ok value after =>
    have hpermits := hnext value after trivial
    rw [bind_of_ok hpart] at h
    rw [h] at hpermits
    exact hpermits.elim
  | error interrupt after =>
    rw [bind_of_error hpart] at h
    injection h with hinterrupt hmoment
    rw [hinterrupt, hmoment]

/-- A part that ends does so with another interpreter as well that it agrees with. -/
theorem Ends.of_agrees {broken : Interrupt → Machine → Prop} {part same : Run α}
    (h : Ends part machine after) (hagrees : Agrees broken part same) :
    Ends same machine after := by
  rcases hagrees machine with hend | ⟨interrupt, moment, hend, hbreak, -⟩
  · unfold Ends at h ⊢
    rwa [hend] at h
  · rcases h with ⟨value, hok⟩ | ⟨payload, hraised⟩
    · cases hend.symm.trans hok
    · cases hend.symm.trans hraised
      exact absurd rfl (hbreak payload)

/-! ### Letting go of several objects -/

/-- Objects are let go one after another, each on the machine that the one before left. Each of them
returns or raises. -/
inductive LetsGo (exec : Exec) : List ObjectId → Machine → Machine → Prop
  | done (machine : Machine) : LetsGo exec [] machine machine
  | step {object : ObjectId} {rest : List ObjectId} {machine after last : Machine} :
    Ends (relinquish exec object) machine after → LetsGo exec rest after last →
      LetsGo exec (object :: rest) machine last

theorem LetsGo.of_agrees {broken : Interrupt → Machine → Prop} {objects : List ObjectId}
    (h : LetsGo exec objects machine last)
    (hagrees : ∀ task, Agrees broken (exec task) (other task)) :
    LetsGo other objects machine last := by
  induction h with
  | done machine => exact .done machine
  | step hfirst _ ih => exact .step (hfirst.of_agrees (agrees_relinquish hagrees _)) ih

/-- Letting go of objects makes further moves. -/
theorem LetsGo.reaches {moves : List (Move ObjectId)} {objects : List ObjectId} {depth : ℕ}
    (h : LetsGo (Interpreter.run depth) objects machine last) (hmachine : machine.Reaches moves) :
    last.Reaches moves := by
  have hgoverns : (Discipline.following moves False).Governs (Interpreter.run depth) :=
    Discipline.governs_run depth
  induction h with
  | done machine => exact hmachine
  | @step object rest machine after last hfirst _ ih =>
    exact ih (hfirst.change (Discipline.keeps_relinquish_uniform hgoverns object machine hmachine))

theorem letsGo_of_ends {objects : List ObjectId}
    (h : Ends (relinquishAll exec objects) machine last) : LetsGo exec objects machine last := by
  induction objects generalizing machine with
  | nil =>
    obtain rfl : machine = last := by
      rcases h with ⟨_, hend⟩ | ⟨_, hend⟩
      · exact (EStateM.Result.ok.inj hend).2
      · cases hend
    exact .done machine
  | cons object rest ih =>
    obtain ⟨after, hfirst, hrest⟩ := h.of_andFinally
    exact .step hfirst (ih hrest)

/-- Where letting go of several objects is stopped, one of them is being let go, and those before it
were. -/
theorem letsGo_of_stopped {objects : List ObjectId}
    (h : relinquishAll exec objects machine = .error .stopped moment) :
    ∃ before object rest stage, objects = before ++ object :: rest ∧
      LetsGo exec before machine stage ∧ relinquish exec object stage = .error .stopped moment := by
  induction objects generalizing machine with
  | nil => cases h
  | cons object rest ih =>
    rcases stopped_of_andFinally h with hfirst | ⟨after, hfirst, hrest⟩
    · exact ⟨[], object, rest, machine, rfl, .done machine, hfirst⟩
    · obtain ⟨before, other, left, stage, rfl, hbefore, hother⟩ := ih hrest
      exact ⟨object :: before, other, left, stage, rfl, .step hfirst hbefore, hother⟩

end Run

section Release

open Run

variable {machine moment : Machine} {guard : Guard}

/-- Where the release of a guard is, one of the removed objects is being let go on the machine that
those further out left, which were let go on the stack that was cut. -/
theorem letsGo_of_comesTo_release {depth : ℕ} {task : Task}
    (halive : machine.thread.tornDown = false) (howns : machine.thread.stack.owns guard = true)
    (hmoment : Interpreter.ComesTo (fun exec ↦ Run.release exec guard) depth machine task moment) :
    ∃ before object rest stage, machine.objectsFrom guard.depth = before ++ object :: rest ∧
      LetsGo (Interpreter.run depth) before (machine.cutTo guard.depth) stage ∧
      Interpreter.ComesTo (fun exec ↦ relinquish exec object) depth stage task moment := by
  obtain ⟨report, hreport, -, hrelease⟩ := Run.release_eq halive howns
  obtain ⟨watch, hwatch, hend⟩ := hmoment
  dsimp only at hend
  rw [hrelease] at hend
  obtain ⟨before, object, rest, stage, hsplit, hbefore, hobject⟩ :=
    letsGo_of_stopped (stopped_of_bind_aside (fun _ ↦ hreport) hend)
  exact ⟨before, object, rest, stage, hsplit,
    hbefore.of_agrees (Interpreter.agrees_runUntil watch depth), watch, hwatch, hobject⟩

end Release

/-! ### What comes after -/

/-- What a machine becomes when the running thread goes on: it performs tasks, to their end or up to
some moment, and changes that do not concern its stack happen in between. -/
inductive Machine.Onward (machine : Machine) : Machine → Prop
  | refl : Onward machine machine
  | ends {now after : Machine} {depth : ℕ} {task : Task} : Onward machine now →
    Run.Ends (Interpreter.run depth task) now after → Onward machine after
  | comesTo {now moment : Machine} {depth : ℕ} {task other : Task} : Onward machine now →
    Interpreter.ComesTo (fun exec ↦ exec task) depth now other moment → Onward machine moment
  | aside {now after : Machine} : Onward machine now → after.thread.stack = now.thread.stack →
    after.thread.tornDown = now.thread.tornDown → Onward machine after

/-- A thread that goes on makes further moves. -/
theorem Machine.Onward.reaches {machine later : Machine} {moves : List (Move ObjectId)}
    (h : machine.Onward later) (hmachine : machine.Reaches moves) : later.Reaches moves := by
  induction h with
  | refl => exact hmachine
  | @ends now after depth task _ hends ih =>
    have hgoverns : (Discipline.following moves False).Governs (Interpreter.run depth) :=
      Discipline.governs_run depth
    exact hends.change (Discipline.governs_uniform_iff.mp hgoverns task now ih)
  | @comesTo now moment depth task other _ hmoment ih =>
    exact Interpreter.reaches_of_comesTo
      (fun hexec ↦ Discipline.governs_uniform_iff.mp hexec task) ih hmoment
  | aside _ hstack htornDown ih => exact ih.imp fun _ hfollows ↦ hfollows.of_eq hstack htornDown

namespace History

variable {α : Type} {history : History α} {moves : List (Move α)} {serial : ℕ} {guard : Guard}

/-- None of some installations is in place, and no link leads to one of them. -/
def Without (history : History α) (gone : List ℕ) : Prop :=
  ∀ serial ∈ gone, serial ∉ history.serials ∧ ∀ link, history.meaning link ≠ some serial

/-- The installations in place from some height on are those that the links from there on mean. -/
theorem mem_drop_serials {height : ℕ} : serial ∈ history.serials.drop height ↔
    ∃ place ≥ height, ∃ installed : Installed (ℕ × α),
      history.stack.entries[place]? = some installed ∧ installed.override.1 = serial := by
  unfold serials
  rw [← List.map_drop, List.mem_map]
  constructor
  · rintro ⟨installed, hinstalled, rfl⟩
    obtain ⟨offset, hoffset⟩ := List.mem_iff_getElem?.mp hinstalled
    rw [List.getElem?_drop, Array.getElem?_toList] at hoffset
    exact ⟨height + offset, Nat.le_add_right _ _, installed, hoffset, rfl⟩
  · rintro ⟨place, hplace, installed, hinstalled, rfl⟩
    refine ⟨installed, List.mem_iff_getElem?.mpr ⟨place - height, ?_⟩, rfl⟩
    rwa [List.getElem?_drop, Nat.add_sub_cancel' hplace, Array.getElem?_toList]

/-- No moves bring back what the release of a guard removed. -/
theorem without_of_release (hguard : (of moves).guards[serial]? = some guard)
    (howns : (of moves).stack.owns guard = true) (more : List (Move α)) :
    (of (moves ++ [.release serial] ++ more)).Without ((of moves).serials.drop guard.depth) := by
  intro gone hgone
  have hcut : of (moves ++ [.release serial]) =
      { of moves with stack := ((of moves).stack.release guard).2 } := by
    rw [of_append_singleton]
    simp [move, hguard]
  have hnot : gone ∉ (of (moves ++ [.release serial] ++ more)).serials := by
    intro hmem
    obtain ⟨place, standing, hstanding, rfl⟩ := mem_serials.mp hmem
    obtain ⟨above, habove, removed, hremoved, hserial⟩ := mem_drop_serials.mp hgone
    have hold := (coherent_of moves).lt_of_mem (List.mem_of_mem_drop hgone)
    rw [of_append] at hstanding
    have hleft := getElem?_of_foldl hstanding (by rw [hcut]; exact hold)
    rw [hcut] at hleft
    obtain ⟨hbefore, hbelow⟩ := Stack.getElem?_entries_release.mp hleft
    -- one serial number would stand both below the cut and above it
    have hlt := (coherent_of moves).serial_lt ((hbelow howns).trans_le habove) hbefore hremoved
    exact hlt.ne hserial.symm
  exact ⟨hnot, fun link hmeaning ↦ hnot (mem_serials_of_meaning hmeaning)⟩

end History

/-! ### Removal -/

section Removal

variable {machine : Machine} {moves : List (Move ObjectId)} {guard : Guard}

/-- Assumes: a guard owns its override.
Then releasing it cuts the stack to its depth and lets go of what stood from there on, in this
order, which is one more move of the thread. However the release ends, and whatever the destructors
do:
* they have run from the outermost to the innermost, each on the machine that the one before left,
  and the first one on the stack that was cut;
* at every moment of the release, one of them is running so, and those further out have;
* from then on, whatever the thread does, none of the removed overrides is in place, no link leads
  to one of them, and what an event is handed to is something else. -/
theorem release_removes_for_good (h : machine.thread.Follows moves)
    (howns : machine.thread.stack.owns guard = true) :
    ∃ serial,
      let gone := (History.of moves).serials.drop guard.depth
      let removed := machine.objectsFrom guard.depth
      let cut := machine.cutTo guard.depth
      (History.of moves).guards[serial]? = some guard ∧ serial ∈ gone ∧
      cut.thread.Follows (moves ++ [.release serial]) ∧
      (∃ report : Run Unit, Run.Aside report ∧ ∀ exec, Run.release exec guard machine =
        (Run.relinquishAll exec removed >>= fun _ ↦ report) cut) ∧
      (∀ depth after, Run.Ends (Run.release (Interpreter.run depth) guard) machine after →
        after.Reaches (moves ++ [.release serial]) ∧
        ∃ last, Run.LetsGo (Interpreter.run depth) removed cut last ∧ last.SameOverrides after) ∧
      (∀ depth task moment,
        Interpreter.ComesTo (fun exec ↦ Run.release exec guard) depth machine task moment →
        moment.Reaches (moves ++ [.release serial]) ∧
        ∃ before object rest stage, removed = before ++ object :: rest ∧
          Run.LetsGo (Interpreter.run depth) before cut stage ∧
          Interpreter.ComesTo (fun exec ↦ Run.relinquish exec object) depth stage task moment) ∧
      ∀ now later : Machine, now.Reaches (moves ++ [.release serial]) → now.Onward later →
        ∃ more,
          let history := History.of (moves ++ [.release serial] ++ more)
          later.thread.Follows (moves ++ [.release serial] ++ more) ∧ history.Without gone ∧
          ∀ exec event link, Run.deliver exec event link later = Run.handOver exec event
            ((history.stack.resolve link).map fun found ↦ (found.1.2, found.2)) later := by
  have hhistory : (History.of moves).stack.owns guard = true := by
    rwa [h.stack, Stack.owns_map] at howns
  obtain ⟨installed, hinstalled, hgeneration⟩ := Stack.owns_eq_true_iff.mp hhistory
  have hguard := (History.coherent_of moves).guard hinstalled
  rw [hgeneration] at hguard
  have hcut : (machine.cutTo guard.depth).thread.Follows
      (moves ++ [.release installed.override.1]) := by
    have hfollows := h.release hguard
    simp only [Stack.release, howns, if_true, Array.shrink_eq_take] at hfollows
    exact hfollows
  obtain ⟨report, hreport, -, hrelease⟩ := Run.release_eq h.alive howns
  refine ⟨installed.override.1, hguard, ?_, hcut, ⟨report, hreport, hrelease⟩, ?_, ?_, ?_⟩
  · exact History.mem_drop_serials.mpr ⟨guard.depth, le_rfl, installed, hinstalled, rfl⟩
  · intro depth after hends
    refine ⟨hends.change (Run.following_release h hguard depth), ?_⟩
    unfold Run.Ends at hends
    rw [hrelease] at hends
    obtain ⟨last, hlast, hsame⟩ := Run.Ends.of_bind_aside (fun _ ↦ hreport) hends
    exact ⟨last, Run.letsGo_of_ends hlast, hsame⟩
  · intro depth task moment hmoment
    obtain ⟨before, object, rest, stage, hsplit, hbefore, hobject⟩ :=
      letsGo_of_comesTo_release h.alive howns hmoment
    refine ⟨?_, before, object, rest, stage, hsplit, hbefore, hobject⟩
    exact Interpreter.reaches_of_comesTo
      (fun hexec ↦ Discipline.keeps_relinquish_uniform hexec object)
      (hbefore.reaches (.of_follows hcut)) hobject
  · intro now later hnow honward
    obtain ⟨more, hfollows⟩ := honward.reaches hnow
    refine ⟨more, hfollows, History.without_of_release hguard hhistory more, ?_⟩
    intro exec event link
    change Run.handOver exec event (later.thread.stack.resolve link) later = _
    rw [hfollows.stack, Stack.resolve_map]

/-- Two overrides are installed, of which the lower one sends a line when it is destroyed. Releasing
the lower guard ends, and neither of them is in place any more. -/
theorem release_of_both_removes :
    let line : Op := .log { text := some "gone" } .current
    let lower : Script := { name := "lower", destructor := some { ops := [line] } }
    let machine : Machine :=
      { thread :=
        { stack :=
            { entries := #[{ generation := 0, override := 0 }, { generation := 1, override := 1 }]
              nextGeneration := 2 }
          objects := #[{ override := .script lower, owners := 1 },
            { override := .transparent, owners := 1 }] } }
    let moves : List (Move ObjectId) := [.install 0, .install 1]
    let guard : Guard := { depth := 0, generation := 0 }
    machine.thread.Follows moves ∧ machine.thread.stack.owns guard = true ∧
      ∃ serial after more, Run.Ends (Run.release (Interpreter.run 3) guard) machine after ∧
        after.thread.Follows (moves ++ [.release serial] ++ more) ∧
        (History.of (moves ++ [.release serial] ++ more)).Without [0, 1] := by
  intro line lower machine moves guard
  have hfollows : machine.thread.Follows moves := by
    refine ⟨rfl, ?_⟩
    simp [machine, moves, History.of, History.move, Stack.map, Stack.install]
  have howns : machine.thread.stack.owns guard = true := rfl
  obtain ⟨serial, -, -, -, -, hends, -, hlater⟩ := release_removes_for_good hfollows howns
  obtain ⟨after, hafter⟩ :
      ∃ after, Run.Ends (Run.release (Interpreter.run 3) guard) machine after := by
    exact ⟨_, .inr ⟨_, rfl⟩⟩
  obtain ⟨more, hmore, hwithout, -⟩ := hlater after after (hends 3 after hafter).1 .refl
  exact ⟨hfollows, howns, serial, after, more, hafter, hmore, hwithout⟩

end Removal

end Escalation
