import Escalation.Proofs.Course
import Escalation.Proofs.Moments
import Escalation.Proofs.Relay

/-!
# Catching what was raised

A catch hands over the value of what it runs, or a failure. A failure that was raised is handed over
as it was raised, and whatever else was raised as an unclassified failure of an unknown place
(`Run.catching_of_ok`, `Run.catching_of_failure`, `Run.catching_of_plain`). A failure that was
caught and is raised again is caught as the same failure, any number of times
(`Run.catching_iterate_rethrowing`).

On its way to the catch a payload leaves the parts of the run that surround the raise
(`Run.Surrounds`), each of which may only clean up. So it leaves each of them as it was raised, or
the run is over (`Run.Surrounds.surfaces`). Scopes, lists with an override installed, overrides that
leave an event to the link below and handlers that are running surround what happens inside
(`Call.Encloses.surrounds`), in any nesting (`Call.surfaces_of_reflTransGen`). Annotating overrides
among them add their remark to an event that is delivered to them, and nothing to what is raised
past them.
-/

set_option autoImplicit false
set_option relaxedAutoImplicit false

namespace Escalation

/-! ### What a catch hands over -/

/-- The text of a payload that is not a failure. -/
def Payload.plainText? : Payload → Option String
  | .failure _ => none
  | .message text => some text
  | .opaqueValue => some ""

/-- The machine with one more open list. -/
def Machine.opened (machine : Machine) : Machine :=
  { machine with thread := { machine.thread with frames := [] :: machine.thread.frames } }

namespace Run

variable {α β : Type} {body : Run α} {machine after : Machine} {value : α} {payload : Payload}

/-- A payload that is not a failure becomes an unclassified one of an unknown place. -/
theorem absorb_of_plain {text : String} (h : payload.plainText? = some text) (machine : Machine) :
    ∃ process, absorb payload machine =
      .ok { site := unknownSite, nature := .unclassified, durability := .permanent
            description := text, trace := .ofAddresses machine.process.captured }
        { machine with process } ∧ machine.process.Alike process := by
  have habsorb : absorb payload = build { site := unknownSite, origin := .unclassified text } := by
    cases payload with
    | failure failure => cases h
    | message other =>
      cases h
      rfl
    | opaqueValue =>
      cases h
      rfl
  rw [habsorb]
  exact ⟨_, build_eq _ machine, alike_drafted _ machine⟩

theorem catching_of_ok (h : body machine = .ok value after) :
    catching body machine = .ok (.ok value) after := bind_of_ok (intercept_of_ok h)

theorem catching_of_raised (h : body machine = .error (.raised payload) after) :
    catching body machine =
      (absorb payload >>= fun failure ↦ pure (Except.error failure)) after.caught :=
  bind_of_ok (intercept_of_raised h)

theorem catching_of_failure {failure : Failure}
    (h : body machine = .error (.raised (.failure failure)) after) :
    catching body machine = .ok (.error failure) after.caught := catching_of_raised h

theorem catching_of_plain {text : String} (htext : payload.plainText? = some text)
    (h : body machine = .error (.raised payload) after) : ∃ process,
    catching body machine =
      .ok (.error
          { site := unknownSite, nature := .unclassified, durability := .permanent
            description := text, trace := .ofAddresses after.process.captured })
        { after.caught with process } ∧ after.process.Alike process := by
  obtain ⟨process, habsorb, halike⟩ := absorb_of_plain htext after.caught
  exact ⟨process, (catching_of_raised h).trans (bind_of_ok habsorb), halike⟩

theorem catching_of_break {interrupt : Interrupt} (hbreak : ∀ payload, interrupt ≠ .raised payload)
    (h : body machine = .error interrupt after) :
    catching body machine = .error interrupt after :=
  bind_of_error (intercept_of_break hbreak h)

/-- A catch returns a value exactly where what it runs returns it. -/
theorem catching_eq_ok_ok_iff :
    catching body machine = .ok (.ok value) after ↔ body machine = .ok value after := by
  constructor
  · intro h
    rcases hbody : body machine with ⟨other, last⟩ | ⟨interrupt, last⟩
    · rw [catching_of_ok hbody] at h
      cases h
      rfl
    · by_cases hraised : ∃ payload, interrupt = .raised payload
      · obtain ⟨payload, rfl⟩ := hraised
        rw [catching_of_raised hbody] at h
        rcases habsorb : absorb payload last.caught with ⟨failure, loaded⟩ | ⟨other, loaded⟩
        · rw [bind_of_ok habsorb] at h
          cases h
        · rw [bind_of_error habsorb] at h
          cases h
      · rw [catching_of_break (fun payload hpayload ↦ hraised ⟨payload, hpayload⟩) hbody] at h
        cases h
  · exact catching_of_ok

/-! ### Raising again what was caught -/

/-- Runs a part behind a catch and raises again what was caught. -/
def rethrowing (body : Run α) : Run α := do
  match ← catching body with
  | .ok value => return value
  | .error failure => raise (.failure failure)

/-- What the hook writes where the outcome of a catch is raised again. -/
def rethrownText (machine : Machine) : Except Failure α → String
  | .ok _ => ""
  | .error failure => raiseText machine (.failure failure)

/-- What was caught and is raised again is caught as it was, and only the hook shows of it. -/
theorem catching_rethrowing {outcome : Except Failure α}
    (h : catching body machine = .ok outcome after) : ∃ process,
      catching (rethrowing body) machine = .ok outcome { after with process } ∧
        after.process.Shows process (rethrownText after outcome) [] := by
  cases outcome with
  | ok value =>
    have hagain : rethrowing body machine = .ok value after := bind_of_ok h
    exact ⟨after.process, catching_of_ok hagain, Process.Alike.refl _⟩
  | error failure =>
    obtain ⟨process, hraise, hshows⟩ := raise_eq (α := α) (.failure failure) after
    have hagain : rethrowing body machine = raise (.failure failure) after := bind_of_ok h
    rw [hraise] at hagain
    exact ⟨process, catching_of_failure hagain, hshows⟩

/-- The same goes for raising it again any number of times. -/
theorem catching_iterate_rethrowing {outcome : Except Failure α}
    (h : catching body machine = .ok outcome after) (times : ℕ) : ∃ process,
      catching (rethrowing^[times] body) machine = .ok outcome { after with process } ∧
        after.process.Shows process
          (String.join (List.replicate times (rethrownText after outcome))) [] := by
  induction times with
  | zero => exact ⟨after.process, h, Process.Alike.refl _⟩
  | succ times ih =>
    obtain ⟨reached, hcaught, hshows⟩ := ih
    obtain ⟨process, hagain, hlast⟩ := catching_rethrowing hcaught
    have htext : rethrownText { after with process := reached } outcome =
        rethrownText after outcome := by
      cases outcome with
      | ok value => rfl
      | error failure => simp only [rethrownText, raiseText, hshows.hooked]
    rw [Function.iterate_succ_apply']
    refine ⟨process, hagain, ?_⟩
    have hboth := hshows.trans hlast
    rw [htext] at hboth
    simpa [List.replicate_succ', String.join] using hboth

/-- What breaks off behind a catch breaks off. -/
theorem iterate_rethrowing_of_break {interrupt : Interrupt}
    (hbreak : ∀ payload, interrupt ≠ .raised payload) (h : body machine = .error interrupt after)
    (times : ℕ) : (rethrowing^[times] body) machine = .error interrupt after := by
  induction times with
  | zero => exact h
  | succ times ih =>
    rw [Function.iterate_succ_apply']
    exact bind_of_error (catching_of_break hbreak ih)

/-! ### What surrounds a raise -/

/-- A part of a run comes to another one inside, with no catch around it. -/
inductive Surrounds {β : Type} (inner : Run β) (moment : Machine) :
    {α : Type} → Run α → Machine → Prop
  /-- It is the part itself. -/
  | itself : Surrounds inner moment inner moment
  /-- It is in the first of two parts. -/
  | first {α γ : Type} {part : Run α} {next : α → Run γ} {machine : Machine} :
    Surrounds inner moment part machine → Surrounds inner moment (part >>= next) machine
  /-- It is in what follows a part that returns. -/
  | next {α γ : Type} {part : Run α} {next : α → Run γ} {value : α} {machine after : Machine} :
    part machine = .ok value after → Surrounds inner moment (next value) after →
      Surrounds inner moment (part >>= next) machine
  /-- It is in a part that is cleaned up after. -/
  | body {α : Type} {body : Run α} {cleanup : Run Unit} {machine : Machine} :
    Surrounds inner moment body machine → Surrounds inner moment (andFinally body cleanup) machine

/-- A payload is raised out of a part, or the part breaks off. -/
def Surfaces (payload : Payload) (part : Run α) (machine : Machine) : Prop :=
  ∃ interrupt after, part machine = .error interrupt after ∧
    ∀ other, interrupt = .raised other → other = payload

/-- A payload that is raised inside is raised out of what surrounds it, or that breaks off. -/
theorem Surrounds.surfaces {inner : Run β} {moment : Machine} {part : Run α}
    (h : Surrounds inner moment part machine) (hinner : Surfaces payload inner moment) :
    Surfaces payload part machine := by
  induction h with
  | itself => exact hinner
  | first _ ih =>
    obtain ⟨interrupt, after, hend, hpayload⟩ := ih
    exact ⟨interrupt, after, bind_of_error hend, hpayload⟩
  | next hfirst _ ih =>
    obtain ⟨interrupt, after, hend, hpayload⟩ := ih
    exact ⟨interrupt, after, (bind_of_ok hfirst).trans hend, hpayload⟩
  | @body _ body cleanup machine _ ih =>
    obtain ⟨interrupt, after, hend, hpayload⟩ := ih
    by_cases hraised : ∃ other, interrupt = .raised other
    · obtain ⟨other, rfl⟩ := hraised
      rcases hcleanup : cleanup after with ⟨_, last⟩ | ⟨second, last⟩
      · exact ⟨_, _, andFinally_of_raised hend hcleanup, hpayload⟩
      · -- A raise out of the cleanup ends the run, and so does all else that breaks it off.
        unfold Surfaces andFinally
        rw [hend]
        dsimp only
        rw [hcleanup]
        cases second with
        | raised second => exact ⟨_, _, rfl, fun _ h ↦ by cases h⟩
        | _ => exact ⟨_, _, rfl, fun _ h ↦ by cases h⟩
    · have hbreak (other : Payload) : interrupt ≠ .raised other := fun h ↦ hraised ⟨other, h⟩
      exact ⟨interrupt, after, andFinally_of_break hbreak hend, hpayload⟩

namespace Surrounds

variable {γ : Type} {inner : Run β} {moment : Machine} {part : Run α} {exec : Exec} {op : Op}
  {before behind : List Op}

/-- An operation of a list, once those before it have returned. -/
theorem performAll (hbefore : Escalation.performAll before exec machine = .ok () after) :
    Surrounds (exec (.perform op)) after (Escalation.performAll (before ++ op :: behind) exec)
      machine := by
  have hsplit : Escalation.performAll (before ++ op :: behind) exec =
      (Escalation.performAll before exec >>= fun _ ↦
        exec (.perform op) >>= fun _ ↦ Escalation.performAll behind exec) := by
    unfold Escalation.performAll
    rw [List.forM_eq_forM, List.forM_append, List.forM_cons]
  rw [hsplit]
  exact .next hbefore (.first .itself)

/-- An operation of a list in a frame of its own. -/
theorem runList (hbefore : Escalation.performAll before exec machine.opened = .ok () after) :
    Surrounds (exec (.perform op)) after (runList exec (before ++ op :: behind)) machine :=
  .next rfl (.body (performAll hbefore))

theorem run_bind {part : Attempt α} {next : α → Attempt γ}
    (hpart : part.run machine = .ok (.ok value) after)
    (h : Surrounds inner moment (next value).run after) :
    Surrounds inner moment (part >>= next).run machine := by
  rw [ExceptT.run_bind]
  exact .next hpart h

theorem run_liftM (h : Surrounds inner moment part machine) :
    Surrounds inner moment (liftM part : Attempt α).run machine := by
  change Surrounds inner moment (Except.ok <$> part) machine
  rw [map_eq_pure_bind]
  exact h.first

theorem run_liftM_bind {next : α → Attempt γ} (h : Surrounds inner moment part machine) :
    Surrounds inner moment (liftM part >>= next : Attempt γ).run machine := by
  rw [ExceptT.run_bind]
  exact h.run_liftM.first

end Surrounds

end Run

/-! ### Nested tasks -/

/-- A task that is about to be performed, with the levels of nesting that are left for it. -/
structure Call where
  /-- The levels of nesting that the tasks inside may use, this one included. -/
  levels : ℕ
  /-- The task. -/
  task : Task
  /-- The machine at the moment. -/
  machine : Machine

namespace Call

/-- The part of a run that performs the task. -/
def part (call : Call) : Run Unit := Interpreter.run call.levels call.task

/-- A task is performed inside another one, in a scope, with an override installed, or as an event
that is delivered. -/
inductive Encloses : Call → Call → Prop
  /-- The list of a scope comes to it. -/
  | scope {levels : ℕ} {before behind : List Op} {op : Op} {deferred : Option Cleanup}
    {machine moment : Machine} :
    performAll before (Interpreter.run levels) machine.opened = .ok () moment →
      Encloses ⟨levels + 1, .perform (.scope (before ++ op :: behind) deferred), machine⟩
        ⟨levels, .perform op, moment⟩
  /-- A list with an override installed comes to it. -/
  | within {levels : ℕ} {recipe : Recipe} {object : ObjectId} {guard : Guard}
    {before behind : List Op} {op : Op} {machine found installed moment : Machine} :
    (Run.obtain recipe).run machine = .ok (.ok object) found →
    Run.install (Interpreter.run levels) object found = .ok guard installed →
    performAll before (Interpreter.run levels) installed.opened = .ok () moment →
      Encloses ⟨levels + 1, .perform (.within recipe (before ++ op :: behind)), machine⟩
        ⟨levels, .perform op, moment⟩
  /-- A failure is reported. -/
  | report {levels : ℕ} {severity : Severity} {source : Source} {destination : Destination}
    {reported : Failure} {link : Link} {machine found sent : Machine} :
    (Run.findFailure source).run machine = .ok (.ok reported) found →
    (Run.findLink destination).run found = .ok (.ok link) sent →
      Encloses ⟨levels + 1, .perform (.report severity source destination), machine⟩
        ⟨levels, .deliver (.failure severity reported) link, sent⟩
  /-- A line is sent. -/
  | log {levels : ℕ} {recipe : LineRecipe} {destination : Destination} {line : Line} {link : Link}
    {machine found sent : Machine} :
    (Run.buildLine recipe).run machine = .ok (.ok line) found →
    (Run.findLink destination).run found = .ok (.ok link) sent →
      Encloses ⟨levels + 1, .perform (.log recipe destination), machine⟩
        ⟨levels, .deliver (.line line) link, sent⟩
  /-- A handler sends its event on. -/
  | delegate {levels : ℕ} {source : Source} {recipe : LineRecipe} {handling : Handling}
    {passed : Event} {machine sent : Machine} :
    machine.thread.handling = some handling →
    (Run.findEvent handling.event.kind source recipe).run machine = .ok (.ok passed) sent →
      Encloses ⟨levels + 1, .perform (.delegate source recipe), machine⟩
        ⟨levels, .deliver passed handling.next, sent⟩
  /-- A statement reports that what it expects does not hold. -/
  | expect {levels : ℕ} {nature : Nature} {condition : String} {message : Option String}
    {slot : String} {keep : Bool} {reported : Failure} {machine sent : Machine} :
    Run.build
        { site := machine.process.statementSite
          origin :=
            .classified nature .permanent (Statement.expectation condition message) } machine =
      .ok reported sent →
      Encloses ⟨levels + 1, .perform (.state (.expect nature false condition message) slot keep),
          machine⟩
        ⟨levels, .deliver (.failure .recoverable reported) sent.thread.stack.current, sent⟩
  /-- A statement reports a fatal failure. -/
  | fatal {levels : ℕ} {nature : Nature} {durability : Durability} {description slot : String}
    {keep : Bool} {reported : Failure} {machine sent : Machine} :
    Run.build
        { site := machine.process.statementSite
          origin := .classified nature durability description } machine = .ok reported sent →
      Encloses ⟨levels + 1, .perform (.state (.fatal nature durability description) slot keep),
          machine⟩
        ⟨levels, .deliver (.failure .fatal reported) sent.thread.stack.current, sent⟩
  /-- An override leaves an event to the link below, with its remark if it has one. -/
  | passes {levels : ℕ} {event : Event} {link next : Link} {object : ObjectId}
    {override : Override} {machine acquired : Machine} :
    machine.thread.stack.resolve link = some (object, next) →
    Run.acquire object machine = .ok (some override) acquired →
    (∀ script, override ≠ .script script) → override.endFor? event.kind = none →
      Encloses ⟨levels + 1, .deliver event link, machine⟩
        ⟨levels, .deliver (event.passThrough override.remark?.toList) next, acquired⟩
  /-- A scripted override has no handler for an event. -/
  | unhandled {levels : ℕ} {event : Event} {link next : Link} {object : ObjectId}
    {script : Script} {machine acquired recorded : Machine} :
    machine.thread.stack.resolve link = some (object, next) →
    Run.acquire object machine = .ok (some (.script script)) acquired →
    Run.record (.received script.name event next) acquired = .ok () recorded →
    script.handler event.kind = none →
      Encloses ⟨levels + 1, .deliver event link, machine⟩ ⟨levels, .deliver event next, recorded⟩
  /-- The handler of a scripted override comes to it. -/
  | handles {levels : ℕ} {event : Event} {link next : Link} {object : ObjectId} {script : Script}
    {before behind : List Op} {op : Op} {machine acquired recorded moment : Machine} :
    machine.thread.stack.resolve link = some (object, next) →
    Run.acquire object machine = .ok (some (.script script)) acquired →
    Run.record (.received script.name event next) acquired = .ok () recorded →
    script.handler event.kind = some (before ++ op :: behind) →
    performAll before (Interpreter.run levels) (recorded.handling event next) = .ok () moment →
      Encloses ⟨levels + 1, .deliver event link, machine⟩ ⟨levels, .perform op, moment⟩

section Encloses

open Run

variable {outer inner : Call} {payload : Payload}

/-- An override that a link means surrounds what it does with an event. -/
theorem surrounds_deliver {exec : Exec} {event : Event} {link next : Link} {object : ObjectId}
    {override : Override} {machine acquired moment : Machine} {part : Run Unit}
    (hresolve : machine.thread.stack.resolve link = some (object, next))
    (hacquire : acquire object machine = .ok (some override) acquired)
    (h : Surrounds part moment (handleBy exec override event next) acquired) :
    Surrounds part moment (deliver exec event link) machine := by
  refine .next (show thread machine = .ok machine.thread machine from rfl) ?_
  rw [hresolve]
  exact .next hacquire h.body

/-- What is performed inside is surrounded by no catch. -/
theorem Encloses.surrounds (h : outer.Encloses inner) :
    Surrounds inner.part inner.machine outer.part outer.machine := by
  cases h with
  | scope hbefore =>
    refine Surrounds.first (Surrounds.run_liftM_bind ?_)
    exact .next rfl (.body (.performAll hbefore))
  | within hobtain hinstall hbefore =>
    refine Surrounds.first (Surrounds.run_bind hobtain (Surrounds.run_liftM ?_))
    exact .next hinstall (.first (.body (.first (.runList hbefore))))
  | report hfailure hlink =>
    refine Surrounds.first (Surrounds.run_bind hfailure (Surrounds.run_bind hlink ?_))
    exact Surrounds.run_liftM_bind .itself
  | log hline hlink =>
    refine Surrounds.first (Surrounds.run_bind hline (Surrounds.run_bind hlink ?_))
    exact Surrounds.run_liftM_bind .itself
  | @delegate levels source recipe handling passed machine sent hhandling hevent =>
    have hrequire : (require .notHandling machine.thread.handling).run machine =
        .ok (.ok handling) machine := by
      rw [hhandling]
      rfl
    have hthread : (liftM thread : Attempt Thread).run machine = .ok (.ok machine.thread) machine :=
      run_liftM_of_ok rfl
    refine Surrounds.first (Surrounds.run_bind hthread (Surrounds.run_bind hrequire ?_))
    exact Surrounds.run_bind hevent (Surrounds.run_liftM_bind .itself)
  | expect hbuild =>
    refine Surrounds.first (Surrounds.run_liftM (.next rfl ?_))
    exact .next hbuild (.next rfl (.first .itself))
  | fatal hbuild =>
    refine Surrounds.first (Surrounds.run_liftM (.next rfl ?_))
    exact .next hbuild (.next rfl (.first .itself))
  | @passes levels event link next object override machine acquired hresolve hacquire hscript
      hpass =>
    refine surrounds_deliver hresolve hacquire ?_
    rcases override with _ | script | remark | level | index
    · exact .itself
    · exact absurd rfl (hscript script)
    · exact .itself
    · rcases event with ⟨severity, reported⟩ | sent
      · exact .itself
      · exact absurd hpass (by simp [Override.endFor?, Event.kind])
    · exact absurd hpass (by simp [Override.endFor?])
  | unhandled hresolve hacquire hrecord hhandler =>
    refine surrounds_deliver hresolve hacquire (.next hrecord ?_)
    rw [hhandler]
    exact .itself
  | handles hresolve hacquire hrecord hhandler hbefore =>
    refine surrounds_deliver hresolve hacquire (.next hrecord ?_)
    rw [hhandler]
    exact .next rfl (.next rfl (.body (.next rfl (.body (.performAll hbefore)))))

/-- What is raised in any nesting of tasks is raised out of the outermost one, or that breaks
off. -/
theorem surfaces_of_reflTransGen (h : Relation.ReflTransGen Encloses outer inner)
    (hinner : Surfaces payload inner.part inner.machine) :
    Surfaces payload outer.part outer.machine := by
  induction h using Relation.ReflTransGen.head_induction_on with
  | refl => exact hinner
  | head hfirst _ ih => exact hfirst.surrounds.surfaces ih

end Encloses

end Call

/-- A catch returns a value exactly where what it runs returns it. A failure that is raised is
handed over as it is, and anything else that is raised as an unclassified, permanent failure of an
unknown place with its message, empty if it has none, and without remarks. What was caught, raised
again and caught again, any number of times, is handed over as it was the first time, on the same
thread, and nothing shows of that but what the hook reports; what breaks off does so in the same
way.

In any nesting of scopes, lists with an override installed, overrides that an event passes, and
handlers, what is raised innermost is raised outermost as it is, whatever the annotating overrides
on the way, unless a raise out of a cleanup or the depth of nesting ends the run. -/
theorem catching_hands_over {α : Type} (body : Run α) (machine : Machine) :
    (∀ value after, Run.catching body machine = .ok (.ok value) after ↔
      body machine = .ok value after) ∧
    (∀ failure after, body machine = .error (.raised (.failure failure)) after →
      Run.catching body machine = .ok (.error failure) after.caught) ∧
    (∀ payload text after, payload.plainText? = some text →
      body machine = .error (.raised payload) after → ∃ process,
        Run.catching body machine =
          .ok (.error
              { site := { file := "(unknown)", line := 0 }, nature := .unclassified
                durability := .permanent, description := text
                trace := .ofAddresses after.process.captured, context := [] })
            { after.caught with process } ∧
          after.process.Alike process) ∧
    (∀ outcome after, Run.catching body machine = .ok outcome after → ∀ times, ∃ process,
      Run.catching (Run.rethrowing^[times] body) machine = .ok outcome { after with process } ∧
        after.process.Shows process
          (String.join (List.replicate times (Run.rethrownText after outcome))) []) ∧
    (∀ interrupt after, (∀ payload, interrupt ≠ .raised payload) →
      body machine = .error interrupt after →
        ∀ times, Run.catching (Run.rethrowing^[times] body) machine = .error interrupt after) ∧
    ∀ (outer inner : Call) payload last, Relation.ReflTransGen Call.Encloses outer inner →
      inner.part inner.machine = .error (.raised payload) last →
        ∃ after, outer.part outer.machine = .error (.raised payload) after ∨
          outer.part outer.machine = .error .aborted after ∨
          outer.part outer.machine = .error .exhausted after := by
  refine ⟨fun value after ↦ Run.catching_eq_ok_ok_iff, fun failure after h ↦ ?_,
    fun payload text after htext h ↦ ?_, fun outcome after h times ↦ ?_,
    fun interrupt after hbreak h times ↦ ?_, fun outer inner payload last hnest hinner ↦ ?_⟩
  · exact Run.catching_of_failure h
  · exact Run.catching_of_plain htext h
  · exact Run.catching_iterate_rethrowing h times
  · exact Run.catching_of_break hbreak (Run.iterate_rethrowing_of_break hbreak h times)
  · obtain ⟨interrupt, after, hend, hpayload⟩ := Call.surfaces_of_reflTransGen hnest
      ⟨_, last, hinner, fun other h ↦ by cases h; rfl⟩
    refine ⟨after, ?_⟩
    cases interrupt with
    | raised other =>
      rw [hpayload other rfl] at hend
      exact .inl hend
    | aborted => exact .inr (.inl hend)
    | exhausted => exact .inr (.inr hend)
    | stopped =>
      have hunstopped := Interpreter.unstopped_run outer.levels outer.task outer.machine trivial
      rw [show Interpreter.run outer.levels outer.task outer.machine = _ from hend] at hunstopped
      exact hunstopped.elim

/-- A failure that is raised in a list with an annotating override installed is caught without a
remark. -/
theorem catching_hands_over_unannotated :
    let remark : Remark := { site := { file := "a.rs", line := 1 }, description := "reading" }
    let failure : Failure :=
      { site := { file := "b.rs", line := 2 }, nature := .osError, durability := .permanent
        description := "broken", trace := .ofAddresses [] }
    let outer : Call :=
      { levels := 6, task := .perform (.within (.context remark) [.throw (.slot "e")])
        machine := { thread := { slots := ({} : Table Failure).insert "e" failure } } }
    (∃ inner last, Relation.ReflTransGen Call.Encloses outer inner ∧
      inner.part inner.machine = .error (.raised (.failure failure)) last) ∧
      ∃ after, outer.part outer.machine = .error (.raised (.failure failure)) after ∧
        Run.catching outer.part outer.machine = .ok (.error failure) after.caught := by
  intro remark failure outer
  let installing := ({} : Stack ObjectId).install 0
  let found : Machine :=
    { thread := { outer.machine.thread with
      objects := #[{ override := .context remark, owners := 1 }] } }
  let installed : Machine := { thread := { found.thread with stack := installing.2 } }
  let inner : Call := ⟨5, .perform (.throw (.slot "e")), installed.opened⟩
  have hencloses : outer.Encloses inner :=
    @Call.Encloses.within 5 (.context remark) 0 installing.1 [] [] _ outer.machine found installed
      installed.opened rfl rfl rfl
  have hinner : ∃ last,
      inner.part inner.machine = .error (.raised (.failure failure)) last := ⟨_, rfl⟩
  obtain ⟨last, hlast⟩ := hinner
  have hcatch := catching_hands_over outer.part outer.machine
  have hraises : ∃ after, outer.part outer.machine = .error (.raised (.failure failure)) after :=
    ⟨_, rfl⟩
  obtain ⟨after, hafter⟩ := hraises
  exact ⟨⟨inner, last, .single hencloses, hlast⟩, after, hafter, hcatch.2.1 failure after hafter⟩

end Escalation
