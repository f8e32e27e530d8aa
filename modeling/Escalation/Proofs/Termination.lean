import Escalation.Proofs.Dispatch
import Escalation.Proofs.Finishing
import Escalation.Proofs.Relay

/-!
# Dispatches that end

A handler that sends events outward only, to the link handed on with what it handles, makes
finitely many dispatches, each of them one step closer to the root (`Op.Outward`,
`Machine.Outward`). Were the root to keep what it gets, every dispatch would end by induction on the
depth of its link. But the policy of the process sends the text of a failure that it logs to the top
of the stack, as a line, and what the handlers make of that line may be a failure again.

Which kinds of events an event may turn into on its way to the root is told by the programs of the
overrides (`EventKind.ComesThrough`). If every failure that a line from the top can come to there is
raised, lines from the top end, and with them every dispatch (`outward_dispatches_terminate`).

That cannot be left out: where failures are logged, a line that is answered with a failure comes
back as a line, at every depth of nesting (`not_terminates_of_logged_echo`).
-/

set_option autoImplicit false
set_option relaxedAutoImplicit false

namespace Escalation

open Filter

/-! ### Handlers that send events outward only -/

/-- The cleanup contains what it raises, and its operations have no tasks. -/
def Cleanup.Local (cleanup : Cleanup) : Prop :=
  cleanup.contained = true ∧ ∀ op ∈ cleanup.ops, op.Local

/-- The operation sends events to the link handed on with what is being handled and nowhere else,
and leaves overrides and guards alone. -/
inductive Op.Outward : Op → Prop
  | plain {op : Op} : op.Local → Outward op
  | report (severity : Severity) (source : Source) : Outward (.report severity source .next)
  | log (line : LineRecipe) : Outward (.log line .next)
  | delegate (source : Source) (line : LineRecipe) : Outward (.delegate source line)
  | scope {body : List Op} {deferred : Option Cleanup} : (∀ op ∈ body, Outward op) →
    (∀ cleanup ∈ deferred, cleanup.Local) → Outward (.scope body deferred)
  | guarded {body : List Op} {deferred : Option Cleanup} (slot : String) :
    (∀ op ∈ body, Outward op) → (∀ cleanup ∈ deferred, cleanup.Local) →
      Outward (.guarded body deferred slot)

/-- While an event of a kind is handled, the operation may send one of a kind to the link handed on
with it. -/
inductive Op.Sends (kind : EventKind) : Op → EventKind → Prop
  | report (severity : Severity) (source : Source) :
    Sends kind (.report severity source .next) (.failure severity)
  | log (line : LineRecipe) : Sends kind (.log line .next) .line
  | delegate (source : Source) (line : LineRecipe) : Sends kind (.delegate source line) kind
  | scope {body : List Op} {op : Op} {sent : EventKind} (deferred : Option Cleanup) : op ∈ body →
    Sends kind op sent → Sends kind (.scope body deferred) sent
  | guarded {body : List Op} {op : Op} {sent : EventKind} (deferred : Option Cleanup)
    (slot : String) : op ∈ body → Sends kind op sent → Sends kind (.guarded body deferred slot) sent

namespace Override

/-- Whatever the event, the override sends events outward only. A policy does not: it sends the text
of what it logs to the top of the stack. -/
def Outward : Override → Prop
  | .script program => ∀ kind ops, program.handler kind = some ops → ∀ op ∈ ops, op.Outward
  | .transparent | .context _ | .bridge _ => True
  | .policy _ => False

/-- Given an event of a kind, the override may send one of a kind to the link below. -/
inductive Sends (kind : EventKind) : Override → EventKind → Prop
  | transparent : Sends kind .transparent kind
  | context (remark : Remark) : Sends kind (.context remark) kind
  | bridge (level : Level) : kind ≠ .line → Sends kind (.bridge level) kind
  | unhandled {program : Script} : program.handler kind = none → Sends kind (.script program) kind
  | handled {program : Script} {ops : List Op} {op : Op} {sent : EventKind} :
    program.handler kind = some ops → op ∈ ops → op.Sends kind sent →
      Sends kind (.script program) sent

end Override

/-- An event of one kind that is sent to a chain of overrides may come to the root as an event of
another kind, or of the same. -/
inductive EventKind.ComesThrough : List Override → EventKind → EventKind → Prop
  | root (kind : EventKind) : ComesThrough [] kind kind
  | sent {override : Override} {rest : List Override} {kind sent last : EventKind} :
    override.Sends kind sent → ComesThrough rest sent last →
      ComesThrough (override :: rest) kind last

/-- All overrides in place are alive and send events outward only. -/
def Machine.Outward (machine : Machine) : Prop :=
  ∀ installed ∈ machine.thread.stack.entries, ∃ override,
    machine.Owned installed.override override ∧ override.Outward

/-! ### Dispatches from within handlers -/

/-- Handlers may be running: the stack and the raises that are not caught yet are those of `base`,
and what is alive there is alive. -/
structure Machine.Amid (base reached : Machine) : Prop where
  stack : reached.thread.stack = base.thread.stack
  unwinding : reached.thread.unwinding = base.thread.unwinding
  effectiveSettings : reached.process.effectiveSettings = base.process.effectiveSettings
  owned {object : ObjectId} {override : Override} :
    base.Owned object override → reached.Owned object override

namespace Machine.Amid

variable {base reached after : Machine}

theorem refl (base : Machine) : base.Amid base := ⟨rfl, rfl, rfl, id⟩

theorem resumes (h : base.Amid reached) (hresumes : reached.Resumes after 0) : base.Amid after where
  stack := hresumes.stack.trans h.stack
  unwinding := hresumes.unwinding.trans h.unwinding
  effectiveSettings := hresumes.effectiveSettings.trans h.effectiveSettings
  owned howned := by
    unfold Machine.Owned
    rw [hresumes.objects]
    exact h.owned howned

/-- A handler is one more owner of its override. -/
theorem acquire (h : base.Amid reached) {object : ObjectId} {held : Object}
    (hheld : reached.thread.objects[object]? = some held) :
    base.Amid { reached with thread := { reached.thread with
      objects := reached.thread.objects.setIfInBounds object
        { held with owners := held.owners + 1 } } } :=
  ⟨h.stack, h.unwinding, h.effectiveSettings, fun howned ↦ (h.owned howned).acquire hheld rfl⟩

/-- The list of a handler runs in a frame of its own. -/
theorem handling (h : base.Amid reached) (event : Event) (next : Link) :
    base.Amid (reached.handling event next) :=
  ⟨h.stack, h.unwinding, h.effectiveSettings, h.owned⟩

/-- A scope has a frame of its own. -/
theorem openFrame (h : base.Amid reached) : base.Amid { reached with
    thread := { reached.thread with frames := [] :: reached.thread.frames } } :=
  ⟨h.stack, h.unwinding, h.effectiveSettings, h.owned⟩

end Machine.Amid

/-- From some depth of nesting on, events of a kind that are sent to a link finish, whatever
handlers are running. -/
def Machine.Settles (base : Machine) (kind : EventKind) (link : Link) : Prop :=
  ∀ᶠ depth in atTop, ∀ reached event, base.Amid reached → event.kind = kind →
    Run.Finishes (Interpreter.run depth (.deliver event link)) reached

namespace Run

variable {base : Machine} {kind : EventKind} {next : Link}

/-- What holds behind one level of nesting holds from some depth on. -/
theorem eventually_of_succ {holds : ℕ → Prop} (h : ∀ᶠ depth in atTop, holds (depth + 1)) :
    ∀ᶠ depth in atTop, holds depth := by
  have hmap := eventually_map.mpr h
  rwa [map_add_atTop_eq_nat 1] at hmap

/-! ### Operations -/

theorem closesEmpty_run (depth : ℕ) : ClosesEmpty (Interpreter.run (depth + 1)) := by
  intro machine rest hframes
  have hread : thread machine = .ok machine.thread machine := rfl
  change Run.closeFrame (Interpreter.run depth) machine = _
  unfold Run.closeFrame
  rw [bind_of_ok hread, hframes]
  rfl

theorem eventually_closesEmpty : ∀ᶠ depth in atTop, ClosesEmpty (Interpreter.run depth) :=
  eventually_of_succ (.of_forall closesEmpty_run)

/-- Operations without tasks finish one after another. -/
theorem finishes_performAll_of_local {ops : List Op} (hops : ∀ op ∈ ops, op.Local) (depth : ℕ)
    (machine : Machine) : Finishes (performAll ops (Interpreter.run (depth + 1))) machine :=
  .forM fun op hop {after} _ ↦ finishes_perform_of_local after (hops op hop) (Interpreter.run depth)

/-- What a scope does on leaving returns. -/
theorem returns_runDeferred {deferred : Option Cleanup} (h : ∀ cleanup ∈ deferred, cleanup.Local)
    (depth : ℕ) (machine : Machine) :
    Returns (runDeferred (Interpreter.run (depth + 1)) deferred) machine := by
  cases deferred with
  | none => exact .pure _
  | some cleanup =>
    obtain ⟨hcontained, hops⟩ := h cleanup rfl
    refine (returns_isUnwinding machine).bind fun {unwinding after} _ _ ↦ ?_
    refine (returns_record after _).bind fun {_ after} _ _ ↦ ?_
    unfold runCleanup
    rw [if_pos hcontained]
    have hlist (start : Machine) :
        Finishes (runList (Interpreter.run (depth + 1)) cleanup.ops) start :=
      finishes_runList (closesEmpty_run depth) (finishes_performAll_of_local hops depth _)
    refine (hlist _).withHandling.catching.bind fun {outcome after} _ _ ↦ ?_
    cases outcome with
    | ok value => exact .pure _
    | error failure => exact returns_record after _

/-- The link that was handed on with what is being handled. -/
theorem findLink_next {machine : Machine} (h : machine.route = some (kind, next)) :
    (findLink .next).run machine = .ok (.ok next) machine := by
  obtain ⟨handling, hhandling, hroute⟩ := Option.map_eq_some_iff.mp h
  cases hroute
  have hread : (liftM thread : Attempt Thread).run machine = .ok (.ok machine.thread) machine := rfl
  unfold findLink
  rw [ExceptT.run_bind, bind_of_ok hread]
  dsimp only
  rw [hhandling]
  rfl

/-- What an operation makes of a value that it found. -/
theorem exists_of_run_map {α β : Type} {part : Attempt α} {make : α → β} {machine after : Machine}
    {made : β} (h : (do return make (← part) : Attempt β).run machine = .ok (.ok made) after) :
    ∃ value, made = make value := by
  rw [ExceptT.run_bind] at h
  rcases hend : part.run machine with ⟨refusal | value, last⟩ | ⟨interrupt, last⟩
  · rw [bind_of_ok hend] at h
    cases h
  · rw [bind_of_ok hend] at h
    cases h
    exact ⟨_, rfl⟩
  · rw [bind_of_error hend] at h
    cases h

/-- The event that is made to be sent on is of the kind of the one that is handled. -/
theorem kind_findEvent {machine after : Machine} {source : Source} {line : LineRecipe}
    {event : Event} (h : (findEvent kind source line).run machine = .ok (.ok event) after) :
    event.kind = kind := by
  cases kind with
  | failure severity =>
    obtain ⟨reported, rfl⟩ : ∃ reported, event = .failure severity reported := exists_of_run_map h
    rfl
  | line =>
    obtain ⟨sent, rfl⟩ : ∃ sent, event = .line sent := exists_of_run_map h
    rfl

/-- While an event of a kind is handled, the part finishes from some depth of nesting on, whatever
handlers are running. -/
def FinishesHandling (base : Machine) (kind : EventKind) (next : Link)
    (part : Exec → Run Unit) : Prop :=
  ∀ᶠ depth in atTop, ∀ reached, base.Amid reached → reached.route = some (kind, next) →
    Finishes (part (Interpreter.run depth)) reached

/-- Operations of a list finish one after another. -/
theorem eventually_finishes_performAll {ops : List Op}
    (h : ∀ op ∈ ops, FinishesHandling base kind next fun exec ↦ exec (.perform op)) :
    FinishesHandling base kind next (performAll ops) := by
  have hall := (eventually_all_finite (List.finite_toSet ops)).mpr h
  filter_upwards [hall] with depth hops reached hamid hroute
  refine .forM fun op hop {after} hresumes ↦ ?_
  exact hops op hop after (hamid.resumes hresumes) (hresumes.route.trans hroute)

theorem eventually_finishes_runScope {body : List Op} {deferred : Option Cleanup}
    (hbody : ∀ op ∈ body, FinishesHandling base kind next fun exec ↦ exec (.perform op))
    (hdeferred : ∀ cleanup ∈ deferred, cleanup.Local) :
    FinishesHandling base kind next fun exec ↦ runScope exec body deferred := by
  filter_upwards [eventually_finishes_performAll hbody, eventually_ge_atTop 1]
    with depth hops hdepth reached hamid hroute
  obtain ⟨inner, rfl⟩ := Nat.exists_eq_add_of_le' hdepth
  exact finishes_runScope (closesEmpty_run inner) (returns_runDeferred hdeferred inner)
    (hops _ hamid.openFrame hroute)

/-- An event that is sent to a link finishes, and so does the operation that sends it. -/
theorem finishes_send {exec : Exec} {machine : Machine} {event : Event}
    (h : Finishes (exec (.deliver event next)) machine) :
    Finishes (do exec (.deliver event next); return .returned : Attempt Answer).run machine :=
  h.run_liftM.run_bind fun _ _ ↦ .run_pure _

/-- The same where the link is the one handed on with what is being handled. -/
theorem finishes_send_next {exec : Exec} {machine : Machine} {event : Event}
    (hroute : machine.route = some (kind, next))
    (h : Finishes (exec (.deliver event next)) machine) :
    Finishes (do exec (.deliver event (← findLink .next)); return .returned : Attempt Answer).run
      machine := by
  rw [ExceptT.run_bind]
  exact .behind (findLink_next hroute) (finishes_send h)

/-- An event that is sent on is of the kind of the one that is being handled. -/
theorem finishes_delegate {exec : Exec} {machine : Machine} {source : Source} {line : LineRecipe}
    (hroute : machine.route = some (kind, next))
    (h : ∀ event after, event.kind = kind → machine.Resumes after 0 →
      Finishes (exec (.deliver event next)) after) :
    Finishes (perform exec (.delegate source line)) machine := by
  obtain ⟨handling, hhandling, hroute⟩ := Option.map_eq_some_iff.mp hroute
  cases hroute
  have hread : (liftM thread : Attempt Thread).run machine = .ok (.ok machine.thread) machine := rfl
  refine .attempt ?_
  rw [ExceptT.run_bind]
  refine .behind hread ?_
  dsimp only
  rw [hhandling]
  refine (finishes_findEvent machine _ source line).run_bind fun {event after} hend hresumes ↦ ?_
  exact finishes_send (h event after (kind_findEvent hend) hresumes)

/-- Assumes: events of the kinds that an operation may send to the link handed on with what is being
handled finish there. Then the operation does. -/
theorem eventually_finishes_perform {op : Op} (hop : op.Outward)
    (hsent : ∀ sent, op.Sends kind sent → base.Settles sent next) :
    FinishesHandling base kind next fun exec ↦ exec (.perform op) := by
  refine eventually_of_succ (?_ : FinishesHandling base kind next fun exec ↦ perform exec op)
  induction hop with
  | @plain op hlocal =>
    exact .of_forall fun depth reached _ _ ↦ finishes_perform_of_local reached hlocal _
  | report severity source =>
    filter_upwards [hsent _ (.report severity source)] with depth hdeliver reached hamid hroute
    refine .attempt ((finishes_findFailure reached source).run_bind
      fun {failure after} _ hresumes ↦ ?_)
    exact finishes_send_next (hresumes.route.trans hroute)
      (hdeliver after _ (hamid.resumes hresumes) rfl)
  | log line =>
    filter_upwards [hsent _ (.log line)] with depth hdeliver reached hamid hroute
    refine .attempt ((finishes_buildLine reached line).run_bind fun {sent after} _ hresumes ↦ ?_)
    exact finishes_send_next (hresumes.route.trans hroute)
      (hdeliver after _ (hamid.resumes hresumes) rfl)
  | delegate source line =>
    filter_upwards [hsent _ (.delegate source line)] with depth hdeliver reached hamid hroute
    exact finishes_delegate hroute fun event after hkind hresumes ↦
      hdeliver after event (hamid.resumes hresumes) hkind
  | @scope body deferred hbody hdeferred ih =>
    have hops (op : Op) (hop : op ∈ body) :
        FinishesHandling base kind next fun exec ↦ exec (.perform op) :=
      eventually_of_succ (ih op hop fun sent h ↦ hsent sent (.scope deferred hop h))
    filter_upwards [eventually_finishes_runScope hops hdeferred]
      with depth hscope reached hamid hroute
    exact .attempt ((hscope reached hamid hroute).run_liftM.run_bind fun _ _ ↦ .run_pure _)
  | @guarded body deferred slot hbody hdeferred ih =>
    have hops (op : Op) (hop : op ∈ body) :
        FinishesHandling base kind next fun exec ↦ exec (.perform op) :=
      eventually_of_succ (ih op hop fun sent h ↦ hsent sent (.guarded deferred slot hop h))
    filter_upwards [eventually_finishes_runScope hops hdeferred]
      with depth hscope reached hamid hroute
    refine .attempt (((hscope reached hamid hroute).catching.finishes.run_liftM).run_bind
      fun {outcome after} _ _ ↦ ?_)
    cases outcome with
    | ok value => exact .run_pure _
    | error failure =>
      exact (returns_store after slot failure).finishes.run_liftM.run_bind fun _ _ ↦ .run_pure _

/-! ### Overrides -/

section Overrides

variable {reached : Machine} {exec : Exec} {override : Override} {event : Event} {object : ObjectId}
  {severity : Severity} {height : ℕ} {link : Link}

/-- Assumes: events of the kinds that an override may send to the link below finish there. Then it
finishes with the event that it is given. -/
theorem eventually_finishes_handleBy (houtward : override.Outward)
    (hsent : ∀ sent, override.Sends kind sent → base.Settles sent next) :
    ∀ᶠ depth in atTop, ∀ reached event, base.Amid reached → event.kind = kind →
      Finishes (handleBy (Interpreter.run depth) override event next) reached := by
  rcases override with _ | program | remark | level | index
  · exact hsent kind .transparent
  · rcases hhandler : program.handler kind with _ | ops
    · filter_upwards [hsent kind (.unhandled hhandler)]
        with depth hdeliver reached event hamid hkind
      refine (returns_record reached _).finishes.bind fun {_ after} _ hresumes ↦ ?_
      rw [hkind, hhandler]
      exact hdeliver after event (hamid.resumes hresumes) hkind
    · have hops (op : Op) (hop : op ∈ ops) :
          FinishesHandling base kind next fun exec ↦ exec (.perform op) :=
        eventually_finishes_perform (houtward kind ops hhandler op hop) fun sent h ↦
          hsent sent (.handled hhandler hop h)
      filter_upwards [eventually_finishes_performAll hops, eventually_closesEmpty]
        with depth hlist hclose reached event hamid hkind
      refine (returns_record reached _).finishes.bind fun {_ after} _ hresumes ↦ ?_
      rw [hkind, hhandler]
      refine Finishes.withHandling (finishes_runList hclose ?_)
      refine hlist (after.handling event next) ((hamid.resumes hresumes).handling event next) ?_
      exact congrArg (fun kind ↦ some (kind, next)) hkind
  · filter_upwards [hsent kind (.context remark)] with depth hdeliver reached event hamid hkind
    exact hdeliver reached _ hamid ((event.kind_annotate remark).trans hkind)
  · by_cases hline : kind = .line
    · refine .of_forall fun depth reached event _ hkind ↦ ?_
      rcases event with ⟨severity, reported⟩ | sent
      · exact absurd (hkind.trans hline) (by simp [Event.kind])
      · exact (returns_forward reached level sent).finishes
    · filter_upwards [hsent kind (.bridge level hline)]
        with depth hdeliver reached event hamid hkind
      rcases event with ⟨severity, reported⟩ | sent
      · exact hdeliver reached _ hamid hkind
      · exact absurd hkind.symm hline
  · exact houtward.elim

/-- An override object that is alive handles an event, and has the owners again that it had
before. -/
theorem finishes_handOver (hamid : base.Amid reached) (howned : base.Owned object override)
    (hhandle : ∀ inside, base.Amid inside → Finishes (handleBy exec override event next) inside) :
    Finishes (handOver exec event (some (object, next))) reached := by
  obtain ⟨held, hheld, rfl, howners⟩ := hamid.owned howned
  have hinside := hhandle _ (hamid.acquire hheld)
  refine .behind (acquire_eq hheld) ?_
  refine Machine.Finished.andFinally hinside fun {after raises} h ↦
    ⟨_, relinquish_acquired hheld howners h.objects, ?_⟩
  exact ⟨h.stack, h.frames, rfl, h.route, h.unwinding, h.effectiveSettings⟩

/-- Events that are sent to an override in place finish if it does with them. -/
theorem settles_of_entry {installed : Installed ObjectId}
    (hentry : base.thread.stack.entries[height]? = some installed)
    (howned : base.Owned installed.override override) (houtward : override.Outward)
    (hsent : ∀ sent, override.Sends kind sent → base.Settles sent (Link.below height)) :
    base.Settles kind (.override height) := by
  have hresolve : base.thread.stack.resolve (.override height) =
      some (installed.override, Link.below height) := by
    simp [Stack.resolve, hentry]
  refine eventually_of_succ ?_
  filter_upwards [eventually_finishes_handleBy houtward hsent]
    with depth hhandle reached event hamid hkind
  have hdeliver := deliver_eq hamid.stack event (.override height) (Interpreter.run depth)
  rw [hresolve] at hdeliver
  change reached.Finished (deliver (Interpreter.run depth) event (.override height) reached)
  rw [hdeliver]
  exact finishes_handOver hamid howned fun inside hinside ↦ hhandle inside event hinside hkind

/-- A link that means nothing leads to the root. -/
theorem settles_of_resolve_none (hresolve : base.thread.stack.resolve link = none)
    (hroot : base.Settles kind .root) : base.Settles kind link := by
  filter_upwards [hroot] with depth hdeliver reached event hamid hkind
  have hsame : Interpreter.run depth (.deliver event link) reached =
      Interpreter.run depth (.deliver event .root) reached := by
    cases depth with
    | zero => rfl
    | succ depth =>
      have hlink := deliver_eq hamid.stack event link (Interpreter.run depth)
      rw [hresolve] at hlink
      exact hlink
  unfold Finishes at hdeliver ⊢
  rw [hsame]
  exact hdeliver reached event hamid hkind

/-! ### The root -/

/-- A policy raises a failure, or finishes if the text that it logs does at the top of the stack. -/
theorem finishes_conclude {settings : Settings} {write : Line → Run Unit} {reported : Failure}
    (hlog : settings.verdict severity (reached.thread.unwinding != 0) ≠ .raise →
      ∀ after, reached.Resumes after 0 → Finishes (logFailure exec reported) after) :
    Finishes (conclude exec settings write (.failure severity reported)) reached := by
  have hread : isUnwinding reached = .ok (reached.thread.unwinding != 0) reached := rfl
  have htrace (level : Level) (text : String) :
      Returns (traceEvent level rootTarget text) reached :=
    returns_traceEvent reached level (by decide) text
  refine .behind hread ?_
  cases hverdict : settings.verdict severity (reached.thread.unwinding != 0) with
  | raise => exact (htrace _ _).finishes.bind fun {_ after} _ _ ↦ finishes_raise after _
  | log => exact hlog (by simp [hverdict]) reached (.refl reached)
  | logWhileUnwinding =>
    exact (htrace _ _).finishes.bind fun {_ after} _ hresumes ↦
      hlog (by simp [hverdict]) after hresumes

/-- A line is written at the root. -/
theorem settles_root_line : base.Settles .line .root := by
  refine eventually_of_succ (.of_forall fun depth reached event _ hkind ↦ ?_)
  rcases event with ⟨severity, reported⟩ | sent
  · exact absurd hkind (by simp [Event.kind])
  · exact (returns_rootSettings reached).finishes.bind fun {settings after} _ _ ↦
      (returns_writeDiagnostics after _).finishes

/-- A failure finishes at the root if it is raised there, or its text does at the top of the
stack. -/
theorem settles_root_failure (h : base.process.effectiveSettings.verdict severity
      (base.thread.unwinding != 0) ≠ .raise → base.Settles .line base.thread.stack.current) :
    base.Settles (.failure severity) .root := by
  refine eventually_of_succ ?_
  filter_upwards [eventually_imp_distrib_left.mpr h] with depth hline reached event hamid hkind
  rcases event with ⟨_, reported⟩ | sent
  · cases hkind
    obtain ⟨process, hsettings, halike⟩ := rootSettings_eq reached
    have hresumes : reached.Resumes { reached with process } 0 := .of_shows halike
    change Finishes (concludeAtRoot (Interpreter.run depth) (.failure severity reported)) reached
    refine .behind hsettings ?_
    refine .of_resumes hresumes (finishes_conclude fun hlogged after hafter ↦ ?_)
    have hthere : base.Amid after := (hamid.resumes hresumes).resumes hafter
    have hnever : base.process.effectiveSettings.verdict severity (base.thread.unwinding != 0) ≠
        .raise := by
      rw [← hamid.effectiveSettings, ← hamid.unwinding]
      exact hlogged
    have hread : current after = .ok base.thread.stack.current after := by
      rw [← hthere.stack]
      rfl
    exact .behind hread (hline hnever after _ hthere rfl)
  · exact absurd hkind (by simp [Event.kind])

/-! ### The walk along the chain -/

/-- Assumes: all overrides in place send events outward only, and what an event of a kind may come
to at the root of a chain finishes there. Then the event finishes where the chain starts. -/
theorem settles_of_root (houtward : base.Outward)
    (hroot : ∀ last, EventKind.ComesThrough (base.chain link) kind last → base.Settles last .root) :
    base.Settles kind link := by
  obtain ⟨height, rfl⟩ := link.eq_below
  -- The link below an override has the height of the override, so the induction is on heights.
  induction height generalizing kind with
  | zero => exact hroot kind (.root kind)
  | succ height ih =>
    rw [Link.below_succ] at hroot ⊢
    rcases hentry : base.thread.stack.entries[height]? with _ | installed
    · have hresolve : base.thread.stack.resolve (.override height) = none := by
        simp [Stack.resolve, hentry]
      rw [base.chain_of_resolve_none hresolve] at hroot
      exact settles_of_resolve_none hresolve (hroot kind (.root kind))
    · obtain ⟨override, howned, hoverride⟩ := houtward installed (Array.mem_of_getElem? hentry)
      rw [Machine.chain_of_entry hentry howned.overrideOf_eq] at hroot
      exact settles_of_entry hentry howned hoverride fun sent hsends ↦
        ih fun last hlast ↦ hroot last (.sent hsends hlast)

end Overrides

end Run

/-! ### Termination -/

/-- At some depth of nesting, the task returns or raises. -/
def Interpreter.Terminates (task : Task) (machine : Machine) : Prop :=
  ∃ depth after, Run.Ends (run depth task) machine after

theorem Run.Finishes.exists_ends {α : Type} {part : Run α} {machine : Machine}
    (h : Finishes part machine) : ∃ after, Ends part machine after := by
  unfold Finishes at h
  rcases hend : part machine with ⟨value, after⟩ | ⟨payload | _ | _ | _, after⟩
  · exact ⟨after, .inl ⟨value, hend⟩⟩
  · exact ⟨after, .inr ⟨payload, hend⟩⟩
  all_goals
    rw [hend] at h
    exact h.elim

/-- Assumes: all overrides in place send events outward only, and every failure that a line from the
top of the stack may come to at the root is raised there, as the settings and the raises that are
not caught yet have it. Then every dispatch of an event to a link returns or raises. -/
theorem outward_dispatches_terminate {machine : Machine} (houtward : machine.Outward)
    (hraised : ∀ severity, EventKind.ComesThrough (machine.chain machine.thread.stack.current) .line
      (.failure severity) → machine.process.effectiveSettings.verdict severity
        (machine.thread.unwinding != 0) = .raise)
    (event : Event) (link : Link) : Interpreter.Terminates (.deliver event link) machine := by
  -- Lines from the top come first, as everything that is logged becomes one of them.
  have hlines : machine.Settles .line machine.thread.stack.current :=
    Run.settles_of_root houtward fun last hlast ↦ by
      cases last with
      | line => exact Run.settles_root_line
      | failure severity =>
        exact Run.settles_root_failure fun hlogged ↦ absurd (hraised severity hlast) hlogged
  have hall : machine.Settles event.kind link :=
    Run.settles_of_root houtward fun last _ ↦ by
      cases last with
      | line => exact Run.settles_root_line
      | failure severity => exact Run.settles_root_failure fun _ ↦ hlines
  obtain ⟨depth, hfinishes⟩ := hall.exists
  exact ⟨depth, (hfinishes machine event (.refl machine) rfl).exists_ends⟩

/-! ### Failures that answer lines -/

/-- A failure that is always the same. -/
def Draft.again : Draft := { site := { file := "f.rs", line := 1 }, origin := .bug "again" }

/-- Sends that failure outward. -/
def Op.again : Op := .report .recoverable (.made .again) .next

/-- A script that answers every line with a failure, and leaves failures alone. -/
def Script.echo : Script := { name := "echo", onLine := some [.again] }

/-- A thread with such a script in place, in a build that raises failures or does not. -/
def Machine.echoing (throwing : Bool) : Machine :=
  { process := { Process.initial with throwing }
    thread :=
      { stack := { entries := #[{ generation := 0, override := 0 }], nextGeneration := 1 }
        objects := #[{ override := .script .echo, owners := 1 }] } }

namespace Machine

variable (throwing : Bool)

theorem throwing_echoing :
    (echoing throwing).process.effectiveSettings.throwing = throwing := by
  cases throwing <;> rfl

theorem owned_echoing : (echoing throwing).Owned 0 (.script .echo) := ⟨_, rfl, rfl, Nat.one_pos⟩

theorem outward_echoing : (echoing throwing).Outward := by
  intro installed hinstalled
  obtain rfl : installed = { generation := 0, override := 0 } := by
    simpa [echoing] using hinstalled
  refine ⟨.script .echo, owned_echoing throwing, fun kind ops hhandler op hop ↦ ?_⟩
  have hops : ops = [.again] := by
    rcases kind with (_ | _) | _
    · cases hhandler
    · cases hhandler
    · exact (Option.some.inj hhandler).symm
  rw [hops] at hop
  obtain rfl := List.mem_singleton.mp hop
  exact .report .recoverable (.made .again)

end Machine

/-- Where failures are raised, each line that is answered with a failure ends with the first one. -/
theorem raised_echo_terminates :
    let machine := Machine.echoing true
    let sent : Line := { site := { file := "l.rs", line := 2 }, depth := 0, text := "hello\n" }
    machine.Outward ∧
      (∀ severity, EventKind.ComesThrough (machine.chain machine.thread.stack.current) .line
        (.failure severity) → machine.process.effectiveSettings.verdict severity
          (machine.thread.unwinding != 0) = .raise) ∧
      Interpreter.Terminates (.deliver (.line sent) machine.thread.stack.current) machine := by
  intro machine sent
  have houtward : machine.Outward := Machine.outward_echoing true
  have hraised (severity : Severity) : machine.process.effectiveSettings.verdict severity
      (machine.thread.unwinding != 0) = .raise :=
    Settings.verdict_eq_raise_iff.mpr ⟨Machine.throwing_echoing true, fun _ ↦ rfl⟩
  exact ⟨houtward, fun severity _ ↦ hraised severity,
    outward_dispatches_terminate houtward (fun severity _ ↦ hraised severity) _ _⟩

namespace Run

/-- The part uses up its depth of nesting. -/
def Exhausts {α : Type} (part : Run α) (machine : Machine) : Prop :=
  ∃ after, part machine = .error .exhausted after

namespace Exhausts

variable {α β : Type} {machine after : Machine}

theorem bind {part : Run α} {next : α → Run β} (h : Exhausts part machine) :
    Exhausts (part >>= next) machine := h.imp fun _ ↦ bind_of_error

theorem behind {part : Run α} {next : α → Run β} {value : α} (hend : part machine = .ok value after)
    (h : Exhausts (next value) after) : Exhausts (part >>= next) machine :=
  h.imp fun _ hlast ↦ (bind_of_ok hend).trans hlast

theorem andFinally {body : Run α} {cleanup : Run Unit} (h : Exhausts body machine) :
    Exhausts (Run.andFinally body cleanup) machine :=
  h.imp fun _ ↦ andFinally_of_break fun _ ↦ nofun

theorem withHandling {handling : Option Handling} {body : Run α}
    (h : Exhausts body { machine with thread := { machine.thread with handling } }) :
    Exhausts (Run.withHandling handling body) machine := by
  unfold Exhausts
  rw [withHandling_eq]
  exact h.andFinally

/-- A list that uses up the depth of nesting in its first operation. -/
theorem runList {exec : Exec} {op : Op} {rest : List Op}
    (h : Exhausts (exec (.perform op)) { machine with
      thread := { machine.thread with frames := [] :: machine.thread.frames } }) :
    Exhausts (Run.runList exec (op :: rest)) machine := by
  unfold Exhausts
  rw [runList_eq, List.forM_eq_forM, List.forM_cons]
  exact h.bind.andFinally

/-- A failure that uses up the depth of nesting where it is sent on to. -/
theorem report {exec : Exec} {kind : EventKind} {next : Link} {severity : Severity} {draft : Draft}
    (hroute : machine.route = some (kind, next))
    (h : ∀ failure after, machine.Resumes after 0 →
      Exhausts (exec (.deliver (.failure severity failure) next)) after) :
    Exhausts (perform exec (.report severity (.made draft) .next)) machine := by
  obtain ⟨failure, after, hbuild, hresumes⟩ := returns_build machine draft
  have hfind : (findFailure (.made draft)).run machine = .ok (.ok failure) after := by
    change (Except.ok <$> build draft) machine = _
    rw [map_eq_pure_bind, bind_of_ok hbuild]
    rfl
  have hsent : Exhausts (Except.ok <$> exec (.deliver (.failure severity failure) next) :
      Run (Except Refusal Unit)) after := by
    rw [map_eq_pure_bind]
    exact (h failure after hresumes).bind
  refine Exhausts.bind ?_
  rw [ExceptT.run_bind]
  refine .behind hfind ?_
  dsimp only
  rw [ExceptT.run_bind]
  refine .behind (findLink_next (hresumes.route.trans hroute)) ?_
  dsimp only
  rw [ExceptT.run_bind]
  exact hsent.bind

end Exhausts

end Run

section Echo

open Run

/-- The tasks that call each other without end use up a depth of nesting, whatever handlers are
running: a line at the top, the answer of the script to it, and the failure at the root. -/
structure Interpreter.Echoes (depth : ℕ) : Prop where
  line {reached : Machine} (sent : Line) : (Machine.echoing false).Amid reached →
    Exhausts (run depth (.deliver (.line sent) (.override 0))) reached
  answer {reached : Machine} : (Machine.echoing false).Amid reached →
    reached.route = some (.line, .root) → Exhausts (run depth (.perform .again)) reached
  failure {reached : Machine} (reported : Failure) : (Machine.echoing false).Amid reached →
    Exhausts (run depth (.deliver (.failure .recoverable reported) .root)) reached

namespace Interpreter.Echoes

variable {depth : ℕ} {reached : Machine}

/-- The script answers a line. -/
theorem exhausts_line (h : Echoes depth) (sent : Line)
    (hamid : (Machine.echoing false).Amid reached) :
    Exhausts (run (depth + 1) (.deliver (.line sent) (.override 0))) reached := by
  obtain ⟨held, hheld, hoverride, -⟩ := hamid.owned (Machine.owned_echoing false)
  have hdeliver := deliver_eq hamid.stack (.line sent) (.override 0) (run depth)
  have hhandled (inside : Machine) (hinside : (Machine.echoing false).Amid inside) :
      Exhausts (handleBy (run depth) held.override (.line sent) .root) inside := by
    rw [hoverride]
    have hthere := hinside.resumes (.of_shows (inside.process.shows_recorded
      (.received Script.echo.name (.line sent) .root)))
    refine .behind (record_eq _ inside) (.withHandling (.runList ?_))
    exact h.answer (hthere.handling (.line sent) .root) rfl
  change ∃ after, deliver (run depth) (.line sent) (.override 0) reached = _
  rw [hdeliver]
  exact Exhausts.behind (acquire_eq hheld) (hhandled _ (hamid.acquire hheld)).andFinally

/-- The answer is a failure at the root. -/
theorem exhausts_answer (h : Echoes depth) (hamid : (Machine.echoing false).Amid reached)
    (hroute : reached.route = some (.line, .root)) :
    Exhausts (run (depth + 1) (.perform .again)) reached :=
  .report hroute fun failure _ hresumes ↦ h.failure failure (hamid.resumes hresumes)

/-- The failure may not be raised, so it comes back to the top as a line. -/
theorem exhausts_failure (h : Echoes depth) (reported : Failure)
    (hamid : (Machine.echoing false).Amid reached) :
    Exhausts (run (depth + 1) (.deliver (.failure .recoverable reported) .root)) reached := by
  obtain ⟨process, hsettings, halike⟩ := rootSettings_eq reached
  have hthere : (Machine.echoing false).Amid { reached with process } :=
    hamid.resumes (.of_shows halike)
  have hverdict : reached.process.effectiveSettings.verdict .recoverable
      (reached.thread.unwinding != 0) = .log := by
    unfold Settings.verdict
    rw [hamid.effectiveSettings, Machine.throwing_echoing]
    rfl
  have hread : isUnwinding { reached with process } =
      .ok (reached.thread.unwinding != 0) { reached with process } := rfl
  have hcurrent : current { reached with process } =
      .ok (.override 0) { reached with process } := by
    change EStateM.Result.ok reached.thread.stack.current _ = _
    rw [hamid.stack]
    rfl
  change Exhausts (concludeAtRoot (run depth) (.failure .recoverable reported)) reached
  refine .behind hsettings (.behind hread ?_)
  rw [hverdict]
  exact .behind hcurrent (h.line reported.asLine hthere)

end Interpreter.Echoes

theorem Interpreter.echoes (depth : ℕ) : Echoes depth := by
  induction depth with
  | zero => exact ⟨fun _ _ ↦ ⟨_, rfl⟩, fun _ _ ↦ ⟨_, rfl⟩, fun _ _ ↦ ⟨_, rfl⟩⟩
  | succ depth ih => exact ⟨ih.exhausts_line, ih.exhausts_answer, ih.exhausts_failure⟩

/-- Where failures are logged, a line that is answered with a failure never ends: the failure is
logged as a line, which is answered with a failure. -/
theorem not_terminates_of_logged_echo :
    let machine := Machine.echoing false
    let sent : Line := { site := { file := "l.rs", line := 2 }, depth := 0, text := "hello\n" }
    machine.Outward ∧
      ¬ Interpreter.Terminates (.deliver (.line sent) machine.thread.stack.current) machine := by
  intro machine sent
  refine ⟨Machine.outward_echoing false, fun hterminates ↦ ?_⟩
  obtain ⟨depth, after, hends⟩ := hterminates
  obtain ⟨last, hexhausted⟩ := (Interpreter.echoes depth).line sent (.refl machine)
  unfold Ends at hends
  rw [show machine.thread.stack.current = .override 0 from rfl, hexhausted] at hends
  simp at hends

end Echo

end Escalation
