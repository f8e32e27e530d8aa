import Escalation.Proofs.Outcome
import Escalation.Session

/-!
# Events among plain overrides

An event that is delivered to a link of a plain thread walks the chain from there outward, and comes
out at the end of the chain as it does there with the remarks of the overrides passed
(`Run.comesOut_deliver`). While it walks, the thread differs only in the owners of the overrides
that it passed, which are their handlers that are running (`Machine.Midway`); they are gone again
when it comes out.

A line needs as many levels of nesting as overrides are in place, and two more
(`Interpreter.comesOut_line`). A failure may be logged at the far end, and its text walks the whole
chain again, nested in the handlers of all the overrides that the failure passed
(`recoverable_dispatch`).
-/

set_option autoImplicit false
set_option relaxedAutoImplicit false

namespace Escalation

/-! ### The thread while an event walks -/

/-- The thread is the same, except that override objects may have more owners and silent parts were
run. -/
structure Machine.Midway (machine reached : Machine) : Prop where
  stack : reached.thread.stack = machine.thread.stack
  policies : reached.thread.policies = machine.thread.policies
  unwinding : reached.thread.unwinding = machine.thread.unwinding
  name : reached.thread.name = machine.thread.name
  owned {object : ObjectId} {override : Override} :
    machine.Owned object override → reached.Owned object override
  process : machine.process.Alike reached.process

namespace Machine.Midway

variable {machine reached : Machine}

theorem refl (machine : Machine) : machine.Midway machine := ⟨rfl, rfl, rfl, rfl, id, .refl _⟩

/-- Silent parts may be run on the way. -/
theorem behind (h : machine.Midway reached) {process : Process}
    (halike : reached.process.Alike process) : machine.Midway { reached with process } :=
  ⟨h.stack, h.policies, h.unwinding, h.name, h.owned, h.process.shows halike⟩

/-- A handler that is running is one more owner of its override. -/
theorem acquire (h : machine.Midway reached) {object : ObjectId} {held : Object}
    (hheld : reached.thread.objects[object]? = some held) :
    machine.Midway { reached with thread := { reached.thread with
      objects := reached.thread.objects.setIfInBounds object
        { held with owners := held.owners + 1 } } } :=
  ⟨h.stack, h.policies, h.unwinding, h.name, fun howned ↦ (h.owned howned).acquire hheld rfl,
    h.process⟩

/-- What comes of a line at its end does not depend on the handlers that are running. -/
theorem lineOutcome_eq (h : machine.Midway reached) (sent : Line) (stop : ChainEnd) :
    reached.lineOutcome sent stop = machine.lineOutcome sent stop := by
  unfold lineOutcome sinkOutcome withWriter
  rw [h.policies, h.process.effectiveSettings]

theorem raiseText_eq (h : machine.Midway reached) (payload : Payload) :
    Run.raiseText reached payload = Run.raiseText machine payload := by
  unfold Run.raiseText
  rw [h.process.hooked, h.name]

end Machine.Midway

namespace Run

/-! ### One override -/

section Override

variable {machine reached : Machine} {exec : Exec} {object : ObjectId} {override : Override}
  {event : Event} {next : Link} {stop : ChainEnd} {outcome : Outcome} {depth : ℕ}

/-- What is done with an event at the end of its chain. -/
def finish (exec : Exec) (event : Event) : ChainEnd → Run Unit
  | .swallowed => return
  | .forwarded level =>
    match event with
    | .line sent => forward level sent
    | .failure .. => return
  | .policy index => concludeBy exec index event
  | .root => concludeAtRoot exec event

/-- An override that is where an event ends does with it what is done there. -/
theorem comesOut_handleBy_of_end (hplain : override.Plain)
    (hend : override.endFor? event.kind = some stop)
    (hfinish : ∀ process, reached.process.Alike process →
      ComesOut (finish (Interpreter.run (depth + 1)) event stop) { reached with process } outcome) :
    ComesOut (handleBy (Interpreter.run (depth + 1)) override event next) reached outcome := by
  rcases override with _ | program | remark | level | index
  · exact absurd hend (by simp [Override.endFor?])
  · rcases hplain event.kind with hhandler | hhandler
    · exact absurd hend (by simp [Override.endFor?, hhandler])
    · have hstop : .swallowed = stop := by simpa [Override.endFor?, hhandler] using hend
      refine .behind_record ⟨rfl, rfl⟩ fun process halike ↦ ?_
      rw [hhandler]
      obtain ⟨last, hfinished, hshows⟩ := hfinish process halike
      rw [← hstop] at hfinished
      exact ⟨last, hfinished, hshows⟩
  · exact absurd hend (by simp [Override.endFor?])
  · rcases event with ⟨severity, reported⟩ | sent
    · exact absurd hend (by simp [Override.endFor?, Event.kind])
    · have hstop : .forwarded level = stop := by simpa [Override.endFor?, Event.kind] using hend
      have hfinished := hfinish reached.process (.refl _)
      rw [← hstop] at hfinished
      exact hfinished
  · have hstop : .policy index = stop := by simpa [Override.endFor?] using hend
    have hfinished := hfinish reached.process (.refl _)
    rw [← hstop] at hfinished
    exact hfinished

/-- An override that leaves an event alone sends it to the link below, with its remark. -/
theorem comesOut_handleBy_of_pass (hpass : override.endFor? event.kind = none)
    (hnext : ∀ process, reached.process.Alike process →
      ComesOut (exec (.deliver (event.passThrough override.remark?.toList) next))
        { reached with process } outcome) :
    ComesOut (handleBy exec override event next) reached outcome := by
  rcases override with _ | program | remark | level | index
  · exact hnext reached.process (.refl _)
  · have hhandler : program.handler event.kind = none := by
      simpa [Override.endFor?] using hpass
    refine .behind_record ⟨rfl, rfl⟩ fun process halike ↦ ?_
    rw [hhandler]
    exact hnext process halike
  · exact hnext reached.process (.refl _)
  · rcases event with ⟨severity, reported⟩ | sent
    · exact hnext reached.process (.refl _)
    · exact absurd hpass (by simp [Override.endFor?, Event.kind])
  · exact absurd hpass (by simp [Override.endFor?])

theorem acquire_eq {held : Object} (hheld : reached.thread.objects[object]? = some held) :
    acquire object reached = .ok (some held.override)
      { reached with thread := { reached.thread with
        objects := reached.thread.objects.setIfInBounds object
          { held with owners := held.owners + 1 } } } := by
  unfold acquire updateThread
  simp [hheld, modifyGet, MonadStateOf.modifyGet, EStateM.modifyGet]

theorem disown_eq {held : Object} (hheld : reached.thread.objects[object]? = some held) :
    disown object reached = .ok (if held.owners = 1 then some held.override else none)
      { reached with thread := { reached.thread with
        objects := reached.thread.objects.setIfInBounds object
          { held with owners := held.owners - 1 } } } := by
  unfold disown updateThread
  simp [hheld, modifyGet, MonadStateOf.modifyGet, EStateM.modifyGet]

/-- There is nothing to let go of where no object is. -/
theorem relinquish_of_none (hnone : reached.thread.objects[object]? = none) :
    relinquish exec object reached = .ok () reached := by
  have hdisown : disown object reached = .ok none reached := by
    unfold disown updateThread
    simp [hnone, modifyGet, MonadStateOf.modifyGet, EStateM.modifyGet]
  exact bind_of_ok hdisown

/-- An owner beside others lets go of an object, and that is all. -/
theorem relinquish_eq {held : Object} (hheld : reached.thread.objects[object]? = some held)
    (howners : held.owners ≠ 1) : relinquish exec object reached = .ok ()
      { reached with thread := { reached.thread with
        objects := reached.thread.objects.setIfInBounds object
          { held with owners := held.owners - 1 } } } := by
  have hdisown := disown_eq hheld
  rw [if_neg howners] at hdisown
  exact bind_of_ok hdisown

/-- An owner that was added lets go again, and the objects are as they were before. -/
theorem relinquish_acquired {held : Object} {process : Process} {thread : Thread}
    (hheld : reached.thread.objects[object]? = some held) (howners : 0 < held.owners)
    (hobjects : thread.objects = reached.thread.objects.setIfInBounds object
      { held with owners := held.owners + 1 }) :
    relinquish exec object { process, thread } =
      .ok () { process, thread := { thread with objects := reached.thread.objects } } := by
  have hlt : object < reached.thread.objects.size := (Array.getElem?_eq_some_iff.mp hheld).1
  have hinside : ({ process, thread } : Machine).thread.objects[object]? =
      some { held with owners := held.owners + 1 } := by
    rw [show ({ process, thread } : Machine).thread = thread from rfl, hobjects]
    exact Array.getElem?_setIfInBounds_self_of_lt hlt
  have hrestored : thread.objects.setIfInBounds object held = reached.thread.objects := by
    rw [hobjects, Array.setIfInBounds_setIfInBounds]
    apply Array.ext_getElem?
    intro other
    rw [Array.getElem?_setIfInBounds]
    by_cases hother : object = other
    · rw [if_pos hother, if_pos hlt, ← hother, hheld]
    · rw [if_neg hother]
  have hothers : held.owners + 1 ≠ 1 := by omega
  rw [← hrestored]
  exact relinquish_eq hinside hothers

/-- An override object that is alive handles an event, and has the owners again that it had when
that is over. -/
theorem comesOut_handOver (hmidway : machine.Midway reached)
    (howned : machine.Owned object override)
    (hhandle : ∀ {inside}, machine.Midway inside →
      ComesOut (handleBy exec override event next) inside outcome) :
    ComesOut (handOver exec event (some (object, next))) reached outcome := by
  obtain ⟨held, hheld, rfl, howners⟩ := hmidway.owned howned
  obtain ⟨process, hend, hshows⟩ := hhandle (hmidway.acquire hheld)
  refine ⟨process, (bind_of_ok (acquire_eq hheld)).trans ?_, hshows⟩
  change andFinally _ _ _ = _
  unfold andFinally
  rw [hend]
  unfold Outcome.result
  rcases outcome.raised with _ | payload
  · dsimp only
    rw [relinquish_acquired hheld howners rfl]
  · dsimp only
    rw [relinquish_acquired hheld howners rfl]

end Override

/-! ### The walk along the chain -/

section Walk

variable {machine reached : Machine} {event : Event} {link : Link} {outcome : Outcome}
  {levels depth : ℕ}

/-- An event that is delivered to a link is handed to what the link means. -/
theorem deliver_eq (hstack : reached.thread.stack = machine.thread.stack) (event : Event)
    (link : Link) (exec : Exec) : deliver exec event link reached =
      handOver exec event (machine.thread.stack.resolve link) reached := by
  have hread : thread reached = .ok reached.thread reached := rfl
  unfold deliver
  rw [bind_of_ok hread, hstack]

/-- An event that is delivered where no override is goes to the policy of the process. -/
theorem comesOut_deliver_of_none (hmidway : machine.Midway reached)
    (hresolve : machine.thread.stack.resolve link = none)
    (hroot : ComesOut (concludeAtRoot (Interpreter.run depth) event) reached outcome) :
    ComesOut (Interpreter.run (depth + 1) (.deliver event link)) reached outcome := by
  have hdeliver := deliver_eq hmidway.stack event link (Interpreter.run depth)
  rw [hresolve] at hdeliver
  obtain ⟨process, hend, hshows⟩ := hroot
  exact ⟨process, hdeliver.trans hend, hshows⟩

/-- An event that is delivered to an override in place is handled by it. -/
theorem comesOut_deliver_of_entry {height : ℕ} {installed : Installed ObjectId}
    {override : Override} (hmidway : machine.Midway reached)
    (hentry : machine.thread.stack.entries[height]? = some installed)
    (howned : machine.Owned installed.override override)
    (hhandle : ∀ {inside}, machine.Midway inside →
      ComesOut (handleBy (Interpreter.run depth) override event (Link.below height)) inside
        outcome) :
    ComesOut (Interpreter.run (depth + 1) (.deliver event (.override height))) reached outcome := by
  have hresolve : machine.thread.stack.resolve (.override height) =
      some (installed.override, Link.below height) := by
    simp [Stack.resolve, hentry]
  have hdeliver := deliver_eq hmidway.stack event (.override height) (Interpreter.run depth)
  rw [hresolve] at hdeliver
  obtain ⟨process, hend, hshows⟩ := comesOut_handOver hmidway howned hhandle
  exact ⟨process, hdeliver.trans hend, hshows⟩

/-- Assumes: whatever handlers are running and with `levels` levels of nesting left, an event comes
out in some way where its chain ends, with the remarks of the overrides that it passed. Then it
comes out in that way if it is delivered to the start of the chain, where each override on the chain
takes one level more. -/
theorem comesOut_deliver (hplain : machine.Plain)
    (hend : ∀ {reached depth}, machine.Midway reached → levels ≤ depth →
      ComesOut (finish (Interpreter.run depth)
        (event.passThrough (remarksPassed event.kind (machine.chain link)))
        (chainEnd event.kind (machine.chain link))) reached outcome)
    (hmidway : machine.Midway reached) (hdepth : levels + (machine.chain link).length < depth) :
    ComesOut (Interpreter.run depth (.deliver event link)) reached outcome := by
  obtain ⟨height, rfl⟩ := link.eq_below
  obtain ⟨depth, rfl⟩ := Nat.exists_eq_add_one_of_ne_zero (Nat.ne_zero_of_lt hdepth)
  -- The link below an override has the height of the override, so the induction is on heights.
  induction height generalizing event reached depth with
  | zero => exact comesOut_deliver_of_none hmidway rfl (hend hmidway (by omega))
  | succ height ih =>
    rcases hentry : machine.thread.stack.entries[height]? with _ | installed
    · have hresolve : machine.thread.stack.resolve (.override height) = none := by
        simp [Stack.resolve, hentry]
      have hchain := machine.chain_of_resolve_none hresolve
      refine comesOut_deliver_of_none hmidway hresolve ?_
      have hroot := hend hmidway (show levels ≤ depth by omega)
      rwa [Link.below_succ, hchain] at hroot
    · obtain ⟨override, howned, hoverride⟩ := hplain installed (Array.mem_of_getElem? hentry)
      have hchain := Machine.chain_of_entry hentry howned.overrideOf_eq
      rw [Link.below_succ, hchain] at hend hdepth
      rw [List.length_cons] at hdepth
      obtain ⟨inner, rfl⟩ := Nat.exists_eq_add_one_of_ne_zero (show depth ≠ 0 by omega)
      refine comesOut_deliver_of_entry hmidway hentry howned fun {inside} hinside ↦ ?_
      rcases hstop : override.endFor? event.kind with _ | stop
      · refine comesOut_handleBy_of_pass hstop fun process halike ↦ ?_
        refine ih (hinside.behind halike) (fun {reached depth} hreached hlevels ↦ ?_) inner ?_
        · have hlast := hend hreached hlevels
          rw [remarksPassed_cons_of_pass hstop, chainEnd_cons_of_pass hstop,
            Event.passThrough_append] at hlast
          rwa [Event.kind_passThrough]
        · omega
      · refine comesOut_handleBy_of_end hoverride hstop fun process halike ↦ ?_
        have hlast := hend (hinside.behind halike) (show levels ≤ inner + 1 by omega)
        rwa [remarksPassed_cons_of_end hstop, chainEnd_cons_of_end hstop] at hlast

end Walk

/-! ### The end of the chain -/

section Finish

variable {machine reached : Machine} {exec : Exec} {severity : Severity} {reported : Failure}

theorem comesOut_finish_line (hmidway : machine.Midway reached) (exec : Exec) (sent : Line)
    (stop : ChainEnd) :
    ComesOut (finish exec (.line sent) stop) reached (machine.lineOutcome sent stop) := by
  rw [← hmidway.lineOutcome_eq]
  rcases stop with _ | level | index | _
  · exact .of_silent rfl (.refl _)
  · exact forward_eq level sent reached
  · exact comesOut_concludeBy_line exec index sent
  · exact comesOut_concludeAtRoot_line exec sent

/-- A policy with these settings raises a failure or has its text sent as a line. -/
theorem comesOut_conclude (hmidway : machine.Midway reached) {outcome : Outcome}
    (hlog : ∀ {inside}, machine.Midway inside →
      ComesOut (exec (.deliver (.line reported.asLine) machine.thread.stack.current)) inside
        outcome)
    (settings : Settings) (write : Line → Run Unit) :
    ComesOut (conclude exec settings write (.failure severity reported)) reached
      (if settings.verdict severity (machine.thread.unwinding != 0) = .raise then
        { raised := some (.failure reported)
          written := raiseText machine (.failure reported)
          policies := machine.thread.policies }
      else outcome) := by
  rw [← hmidway.unwinding, ← hmidway.raiseText_eq, ← hmidway.policies]
  refine comesOut_conclude_failure settings write fun process halike ↦ ?_
  rw [hmidway.stack]
  exact hlog (hmidway.behind halike)

theorem comesOut_finish_failure (hmidway : machine.Midway reached)
    (hlog : ∀ {inside}, machine.Midway inside →
      ComesOut (exec (.deliver (.line reported.asLine) machine.thread.stack.current)) inside
        (machine.sentOutcome reported.asLine machine.thread.stack.current))
    (stop : ChainEnd) :
    ComesOut (finish exec (.failure severity reported) stop) reached
      (machine.failureOutcome severity reported stop) := by
  have hnothing : ComesOut (return) reached { policies := machine.thread.policies } := by
    rw [← hmidway.policies]
    exact .of_silent rfl (.refl _)
  rcases stop with _ | level | index | _
  · exact hnothing
  · exact hnothing
  · have hread : thread reached = .ok reached.thread reached := rfl
    refine .behind hread (.refl _) ?_
    have hsettings : machine.settingsAt (.policy index) =
        machine.thread.policies[index]?.map Policy.settings := rfl
    unfold Machine.failureOutcome
    rw [hmidway.policies, hsettings]
    rcases machine.thread.policies[index]? with _ | policy
    · exact hnothing
    · exact comesOut_conclude hmidway hlog policy.settings _
  · obtain ⟨process, hsettings, halike⟩ := rootSettings_eq reached
    refine .behind hsettings halike ?_
    have heffective := hmidway.process.effectiveSettings
    unfold Machine.failureOutcome Machine.settingsAt
    rw [← heffective]
    exact comesOut_conclude (hmidway.behind halike) hlog _ _

end Finish

end Run

section Dispatch

variable {machine reached : Machine} {link : Link} {depth : ℕ}

/-- A line that is sent to a link of a plain thread comes out at the end of its chain, nested once
for each annotating override on the way. -/
theorem Interpreter.comesOut_line (hplain : machine.Plain) (hmidway : machine.Midway reached)
    (sent : Line) (hdepth : (machine.chain link).length < depth) :
    Run.ComesOut (run depth (.deliver (.line sent) link)) reached
      (machine.sentOutcome sent link) := by
  have hlevels : 0 + (machine.chain link).length < depth := by omega
  refine Run.comesOut_deliver hplain (fun {reached depth} hreached _ ↦ ?_) hmidway hlevels
  rw [Event.passThrough_line]
  exact Run.comesOut_finish_line hreached _ _ _

/-- A failure that is delivered to a link of a plain thread comes out at the end of its chain, with
the remarks of the overrides that it passed in front of its own. -/
theorem Interpreter.comesOut_failure (hplain : machine.Plain) (severity : Severity)
    (reported : Failure) (link : Link)
    (hdepth : machine.thread.stack.height + 1 + (machine.chain link).length < depth) :
    let chain := machine.chain link
    let kind := EventKind.failure severity
    Run.ComesOut (run depth (.deliver (.failure severity reported) link)) machine
      (machine.failureOutcome severity
        { reported with context := (remarksPassed kind chain).reverse ++ reported.context }
        (chainEnd kind chain)) := by
  refine Run.comesOut_deliver hplain (fun {reached depth} hreached hlevels ↦ ?_) (.refl machine)
    hdepth
  rw [Event.passThrough_failure]
  refine Run.comesOut_finish_failure hreached (fun {inside} hinside ↦ ?_) _
  have hheight := machine.length_chain_le machine.thread.stack.current
  exact comesOut_line hplain hinside _ (by omega)

/-- A recoverable failure that is delivered to a link of a plain thread, with enough levels of
nesting left, ends at the first override from there outward that is a policy or swallows it, and at
the policy of the process if there is none. It arrives there with the remarks of exactly the
annotating overrides on the way in front of its own, the outermost first. Where it is swallowed,
nothing comes of it. A policy raises it as it arrived, and shows nothing but what the hook reports,
if it may raise and the thread is not unwinding; otherwise nothing comes of it but a single line
with its text, sent to the top of the chain. -/
theorem recoverable_dispatch (hplain : machine.Plain) (reported : Failure) (link : Link)
    (hdepth : 2 * machine.thread.stack.height + 2 ≤ depth) :
    let kind := EventKind.failure .recoverable
    let chain := machine.chain link
    let arrived : Failure :=
      { reported with context := (remarksPassed kind chain).reverse ++ reported.context }
    Run.ComesOut (Interpreter.run depth (.deliver (.failure .recoverable reported) link)) machine
      (match machine.settingsAt (chainEnd kind chain) with
      | none => { policies := machine.thread.policies }
      | some settings =>
        if settings.throwing = true ∧ machine.thread.unwinding = 0 then
          { raised := some (.failure arrived)
            written := Run.raiseText machine (.failure arrived)
            policies := machine.thread.policies }
        else machine.sentOutcome
          { site := arrived.site, depth := 0, text := arrived.text ++ "\n" }
          machine.thread.stack.current) := by
  have hlength := machine.length_chain_le link
  have houtcome := Interpreter.comesOut_failure hplain .recoverable reported link
    (show _ < depth by omega)
  unfold Machine.failureOutcome at houtcome
  simp only [Settings.verdict_eq_raise_iff, forall_const, bne_eq_false_iff_eq] at houtcome
  exact houtcome

/-- A failure that is delivered to the top of the chain passes an annotating override and is raised
with its remark by the policy below it. -/
theorem recoverable_dispatch_annotated :
    let remark : Remark := { site := { file := "a.rs", line := 1 }, description := "reading" }
    let reported : Failure :=
      { site := { file := "b.rs", line := 2 }, nature := .osError, durability := .permanent
        description := "broken", trace := .ofAddresses [] }
    let machine : Machine :=
      { thread :=
        { stack :=
          { entries := #[{ generation := 0, override := 0 }, { generation := 1, override := 1 }]
            nextGeneration := 2 }
          objects := #[{ override := .policy 0, owners := 1 },
            { override := .context remark, owners := 1 }]
          policies := #[{ settings := .standard true, sink := .diagnostics }] } }
    machine.Plain ∧ 2 * machine.thread.stack.height + 2 ≤ 6 ∧
      Run.ComesOut (Interpreter.run 6
        (.deliver (.failure .recoverable reported) machine.thread.stack.current)) machine
        { raised := some (.failure { reported with context := [remark] })
          policies := machine.thread.policies } := by
  intro remark reported machine
  have hplain : machine.Plain := by
    intro installed hinstalled
    have hcases : installed = { generation := 0, override := 0 } ∨
        installed = { generation := 1, override := 1 } := by
      simpa [machine] using hinstalled
    rcases hcases with rfl | rfl
    · exact ⟨.policy 0, ⟨_, rfl, rfl, Nat.one_pos⟩, trivial⟩
    · exact ⟨.context remark, ⟨_, rfl, rfl, Nat.one_pos⟩, trivial⟩
  have hdepth : 2 * machine.thread.stack.height + 2 ≤ 6 := by decide
  exact ⟨hplain, hdepth, recoverable_dispatch hplain reported machine.thread.stack.current hdepth⟩

end Dispatch

end Escalation
