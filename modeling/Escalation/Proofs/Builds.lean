import Escalation.Proofs.Layers
import Escalation.Proofs.Variables

/-!
# One program in two builds

What a part of a run comes to is an account, with the signs of its emissions in the transcript, and
what the hook reports of a failure that is raised (`Run.Gives`). Parts one after another come to
their accounts one after another (`Run.Gives.bind`), and a list in a frame of its own closes its
scopes silently on every way out (`Run.Gives.bracket`).

A narrative that runs on a thread with open scopes comes to the account of its reports there
(`Narrative.gives`), by induction over its blocks. Two builds of one program have the same reports,
since nothing in them depends on whether failures are raised. So the build with raising shows what
the other one shows before its first failure, and then raises that failure as it arrives outside of
all scopes; its text is what the other build shows next, as a line of the scopes that are open
(`builds_agree`).
-/

set_option autoImplicit false
set_option relaxedAutoImplicit false

namespace Escalation

/-! ### What a part tells -/

/-- A process is reached from another one by records, text on the diagnostic stream, other hooks,
loading the settings and making its policy. -/
def Process.LeadsTo (process after : Process) : Prop :=
  ∀ (leads : Process → Process → Prop) [Process.Course leads], leads process after

instance : Process.Course Process.LeadsTo where
  refl process _ _ := Process.Course.refl process
  trans h hlast leads _ := Process.Course.trans (h leads) (hlast leads)
  recorded process entry _ _ := Process.Course.recorded process entry
  written process text _ _ := Process.Course.written process text
  hooked process hook hookSetup _ _ := Process.Course.hooked process hook hookSetup
  loaded process h _ _ := Process.Course.loaded process h
  rooted process _ _ := Process.Course.rooted process

/-- The place of statements stays. -/
instance : Process.Course fun process after ↦ after.statementSite = process.statementSite where
  refl _ := rfl
  trans h hlast := hlast.trans h
  recorded process entry := by
    obtain ⟨records, diagnostics, hrecorded⟩ := process.exists_recorded entry
    rw [hrecorded]
  written _ _ := rfl
  hooked _ _ _ := rfl
  loaded _ _ := rfl
  rooted _ := rfl

/-- The transcript has these signs more, and nothing has changed that statements and the hook go
by. -/
structure Machine.Tells (machine after : Machine) (signs : List Sign) : Prop where
  transcript : after.process.transcript = machine.process.transcript ++ signs
  effectiveSettings : after.process.effectiveSettings = machine.process.effectiveSettings
  statementSite : after.process.statementSite = machine.process.statementSite
  hooked : after.process.hooked = machine.process.hooked
  name : after.thread.name = machine.thread.name

namespace Machine.Tells

variable {machine after last : Machine} {signs more : List Sign}

theorem trans (h : machine.Tells after signs) (hlast : after.Tells last more) :
    machine.Tells last (signs ++ more) where
  transcript := by rw [hlast.transcript, h.transcript, List.append_assoc]
  effectiveSettings := hlast.effectiveSettings.trans h.effectiveSettings
  statementSite := hlast.statementSite.trans h.statementSite
  hooked := hlast.hooked.trans h.hooked
  name := hlast.name.trans h.name

/-- A part that has to do with the thread alone. -/
theorem of_process_eq (hprocess : after.process = machine.process)
    (hname : after.thread.name = machine.thread.name) : machine.Tells after [] := by
  constructor <;> first | exact hname | rw [hprocess]
  rw [List.append_nil]

theorem raiseText_eq (h : machine.Tells after signs) (payload : Payload) :
    Run.raiseText after payload = Run.raiseText machine payload := by
  unfold Run.raiseText
  rw [h.hooked, h.name]

section Shows

variable {process : Process} {thread : Thread} (hleads : machine.process.LeadsTo process)
  (hname : thread.name = machine.thread.name)
include hleads hname

/-- A part that only writes to the diagnostic stream. -/
theorem of_written {text : String} (h : machine.process.Shows process text []) :
    machine.Tells { process, thread } (writtenSigns text) where
  transcript := h.transcript_of_written
    (hleads fun process after ↦ process.transcript <+: after.transcript)
  effectiveSettings := h.effectiveSettings
  statementSite := hleads fun process after ↦ after.statementSite = process.statementSite
  hooked := h.hooked
  name := hname

/-- A part that is silent. -/
theorem of_alike (h : machine.process.Alike process) : machine.Tells { process, thread } [] :=
  of_written hleads hname h

/-- A part that shows an emission. -/
theorem of_shown {emission : Emission} (h : emission.Shown machine.process process) :
    machine.Tells { process, thread } emission.signs := by
  cases emission with
  | diagnostics text => exact of_written hleads hname h
  | log level text =>
    exact
      { transcript := Process.Shows.transcript_of_forwarded h
          (hleads fun process after ↦ process.transcript <+: after.transcript)
        effectiveSettings := h.effectiveSettings
        statementSite := hleads fun process after ↦ after.statementSite = process.statementSite
        hooked := h.hooked
        name := hname }
  | writer index text => exact h.elim

end Shows

end Machine.Tells

/-! ### What a part comes to -/

/-- The signs of emissions one after another. -/
def signsOf (emissions : List Emission) : List Sign := emissions.flatMap Emission.signs

@[simp] theorem signsOf_cons (emission : Emission) (more : List Emission) :
    signsOf (emission :: more) = emission.signs ++ signsOf more := List.flatMap_cons

@[simp] theorem signsOf_append (emissions more : List Emission) :
    signsOf (emissions ++ more) = signsOf emissions ++ signsOf more := List.flatMap_append

/-- A part comes to an account: it returns, or raises what the account says, with the emissions of
the account, and leaves such a machine. -/
inductive Run.Gives {α : Type} (part : Run α) (machine : Machine) (place : Machine → Prop) :
    Account → Prop
  | returned {emissions : List Emission} {value : α} {after : Machine} :
    part machine = .ok value after → machine.Tells after (signsOf emissions) →
      after.thread.unwinding = machine.thread.unwinding → place after →
        Gives part machine place { emissions }
  | raised {emissions : List Emission} {raised : Failure} {after : Machine} :
    part machine = .error (.raised (.failure raised)) after →
      machine.Tells after
        (signsOf emissions ++ writtenSigns (Run.raiseText machine (.failure raised))) →
      after.thread.unwinding = machine.thread.unwinding + 1 → place after →
        Gives part machine place { emissions, raised := some raised }

namespace Run.Gives

variable {α β : Type} {machine : Machine} {place target : Machine → Prop}
  {account later : Account}

/-- A part that does the same comes to the same. -/
theorem congr {part other : Run α} (h : part machine = other machine)
    (hother : Gives other machine place account) : Gives part machine place account := by
  cases hother with
  | returned hend htells hcalm hplace => exact .returned (h.trans hend) htells hcalm hplace
  | raised hend htells hcalm hplace => exact .raised (h.trans hend) htells hcalm hplace

theorem mono {part : Run α} (h : Gives part machine place account)
    (hplace : ∀ {after}, place after → target after) : Gives part machine target account := by
  cases h with
  | returned hend htells hcalm hafter => exact .returned hend htells hcalm (hplace hafter)
  | raised hend htells hcalm hafter => exact .raised hend htells hcalm (hplace hafter)

/-- A silent part. -/
theorem of_ok {part : Run α} {value : α} {after : Machine} (hend : part machine = .ok value after)
    (htells : machine.Tells after []) (hcalm : after.thread.unwinding = machine.thread.unwinding)
    (hplace : place after) : Gives part machine place {} := .returned hend htells hcalm hplace

/-- A silent part that leaves the thread alone. -/
theorem of_alike {part : Run α} {value : α} {process : Process}
    (hend : part machine = .ok value { machine with process })
    (halike : machine.process.Alike process) (hfollows : Follows Process.LeadsTo part)
    (hplace : place { machine with process }) : Gives part machine place {} := by
  have hleads := hfollows machine
  rw [hend] at hleads
  exact .of_ok hend (.of_alike hleads rfl halike) rfl hplace

/-- What follows a part that returns. -/
theorem behind {part : Run α} {next : α → Run β} {value : α} {after : Machine}
    {emissions : List Emission} (hend : part machine = .ok value after)
    (htells : machine.Tells after (signsOf emissions))
    (hcalm : after.thread.unwinding = machine.thread.unwinding)
    (hnext : Gives (next value) after place account) :
    Gives (part >>= next) machine place (Account.andThen { emissions } account) := by
  cases hnext with
  | returned hlast htellsLast hcalmLast hplaceLast =>
    refine .returned ((bind_of_ok hend).trans hlast) ?_ (hcalmLast.trans hcalm) hplaceLast
    rw [signsOf_append]
    exact htells.trans htellsLast
  | raised hlast htellsLast hcalmLast hplaceLast =>
    refine .raised ((bind_of_ok hend).trans hlast) ?_ (by rw [hcalmLast, hcalm]) hplaceLast
    rw [htells.raiseText_eq] at htellsLast
    rw [signsOf_append, List.append_assoc]
    exact htells.trans htellsLast

/-- What follows a silent part. -/
theorem silently {part : Run α} {next : α → Run β} {value : α} {after : Machine}
    (hend : part machine = .ok value after) (htells : machine.Tells after [])
    (hcalm : after.thread.unwinding = machine.thread.unwinding)
    (hnext : Gives (next value) after place account) :
    Gives (part >>= next) machine place account := by
  have hsigns : machine.Tells after (signsOf []) := htells
  exact behind hend hsigns hcalm hnext

/-- Parts one after another. -/
theorem bind {part : Run α} {next : α → Run β} (hpart : Gives part machine place account)
    (hplace : ∀ {after}, place after → target after)
    (hnext : ∀ {value after signs}, machine.Tells after signs →
      after.thread.unwinding = machine.thread.unwinding → place after →
        Gives (next value) after target later) :
    Gives (part >>= next) machine target (account.andThen later) := by
  cases hpart with
  | returned hend htells hcalm hafter =>
    exact behind hend htells hcalm (hnext htells hcalm hafter)
  | raised hend htells hcalm hafter =>
    exact .raised (bind_of_error hend) htells hcalm (hplace hafter)

/-- What is done with the value of a part is silent. -/
theorem map {part : Run α} (change : α → β) (h : Gives part machine place account) :
    Gives (change <$> part) machine place account := by
  rw [map_eq_pure_bind, ← account.andThen_nil]
  refine h.bind id fun {_ after _} _ _ hafter ↦ .of_ok rfl ?_ rfl hafter
  exact .of_process_eq rfl rfl

/-- An operation that always gives the same answer. -/
theorem answered {part : Run Unit} (h : Gives part machine place account) (answer : Answer) :
    Gives (do part; return answer : Attempt Answer).run machine place account := by
  rw [ExceptT.run_bind, ← account.andThen_nil]
  refine (h.map Except.ok).bind id fun {outcome after _} _ _ hafter ↦ ?_
  cases outcome <;> exact .of_ok rfl (.of_process_eq rfl rfl) rfl hafter

/-- A silent cleanup changes nothing about what a part comes to. -/
theorem andFinally {body : Run α} {cleanup : Run Unit} (hbody : Gives body machine place account)
    (hcleanup : ∀ {after}, place after → Gives cleanup after target {}) :
    Gives (Run.andFinally body cleanup) machine target account := by
  cases hbody with
  | returned hend htells hcalm hafter =>
    cases hcleanup hafter with
    | returned hlast htellsLast hcalmLast hplaceLast =>
      refine .returned (andFinally_of_ok hend hlast) ?_ (hcalmLast.trans hcalm) hplaceLast
      simpa [signsOf] using htells.trans htellsLast
  | raised hend htells hcalm hafter =>
    cases hcleanup hafter with
    | returned hlast htellsLast hcalmLast hplaceLast =>
      refine .raised (andFinally_of_raised hend hlast) ?_ (by rw [hcalmLast, hcalm]) hplaceLast
      simpa [signsOf] using htells.trans htellsLast


/-- The record of an operation is silent, whether it was refused or not. -/
theorem attempt {op : Op} {action : Attempt Answer} (h : Gives action.run machine place account)
    (hplace : ∀ {after} process, place after → place { after with process }) :
    Gives (Run.attempt op action) machine place account := by
  rw [← account.andThen_nil]
  refine Gives.bind h id fun {outcome after _} _ _ hafter ↦ ?_
  have hrecord (entry : Record) (hsilent : entry.Silent) : Gives (record entry) after place {} :=
    .of_alike (record_eq entry after) (after.process.alike_recorded hsilent) (.record entry)
      (hplace _ hafter)
  cases outcome with
  | ok answer => exact hrecord _ ⟨rfl, rfl⟩
  | error refusal => exact hrecord _ ⟨rfl, rfl⟩

end Run.Gives

/-! ### Statements -/

section Statements

variable {machine : Machine} {depth : ℕ}

/-- The thread is the same, raises that are not caught apart. -/
def Machine.Stands (machine after : Machine) : Prop :=
  after.thread = { machine.thread with unwinding := after.thread.unwinding }

theorem Machine.Stands.grown {after : Machine} (h : machine.Stands after)
    (hlayered : machine.Layered) : machine.Grown 0 after := by
  unfold Stands at h
  refine .of_eq hlayered ?_ ?_ (fun _ _ _ ↦ ?_) fun _ _ ↦ ?_ <;> rw [h]

/-- Where no addresses are captured, making a failure is silent. -/
theorem Run.build_of_uncaptured (h : machine.process.effectiveSettings.capturing = false)
    (draft : Draft) :
    ∃ process, build draft machine = .ok (draft.build []) { machine with process } ∧
      machine.Tells { machine with process } [] := by
  have hcaptured : machine.process.captured = [] := by simp [Process.captured, h]
  have hbuild := build_eq draft machine
  have hfollows : machine.process.LeadsTo (left (build draft machine)).process :=
    Follows.build draft machine
  rw [hbuild] at hfollows
  rw [hcaptured] at hbuild
  exact ⟨_, hbuild, .of_alike hfollows rfl (alike_drafted draft machine)⟩

/-- Assumes: nothing is being raised on a thread with open scopes. What comes of an event that is
delivered to the top of the chain is the account of a report from inside the scopes. -/
theorem Machine.Layered.deliver (hlayered : machine.Layered) (hcalm : machine.thread.unwinding = 0)
    (event : Event) (hdepth : 2 * machine.thread.stack.height + 1 < depth) :
    Run.Gives (Interpreter.run depth (.deliver event machine.thread.stack.current)) machine
      machine.Stands
      (Report.account machine.process.effectiveSettings
        { scopes := machine.chain machine.thread.stack.current, event }) := by
  have hlength := machine.length_chain_le machine.thread.stack.current
  have hleads : machine.process.LeadsTo (Run.left (Interpreter.run depth
      (.deliver event machine.thread.stack.current) machine)).process :=
    Interpreter.follows_run depth _ machine
  have hemitted {process : Process} {sent : Line}
      (hend : Interpreter.run depth (.deliver event machine.thread.stack.current) machine =
        .ok () { machine with process })
      (hshown : (emissionOn machine.process.effectiveSettings #[]
        (machine.chain machine.thread.stack.current) sent).Shown machine.process process) :
      Run.Gives (Interpreter.run depth (.deliver event machine.thread.stack.current)) machine
        machine.Stands { emissions := [emissionOn machine.process.effectiveSettings #[]
          (machine.chain machine.thread.stack.current) sent] } := by
    rw [hend] at hleads
    refine .returned hend ?_ rfl rfl
    rw [signsOf, List.flatMap_singleton]
    exact .of_shown hleads rfl hshown
  rcases event with ⟨severity, reported⟩ | sent
  · have hlayers (override : Override)
        (hmem : override ∈ machine.chain machine.thread.stack.current) : override.IsLayer :=
      hlayered.isLayer_of_mem_chain _ hmem
    have hcomes := Interpreter.comesOut_failure hlayered.plain severity reported
      machine.thread.stack.current (show _ < depth by omega)
    dsimp only at hcomes
    rw [chainEnd_failure_of_layers hlayers, remarksPassed_failure_of_layers hlayers] at hcomes
    have hverdict : machine.process.effectiveSettings.verdict severity
        (machine.thread.unwinding != 0) = .raise ↔
          machine.process.effectiveSettings.throwing = true := by
      rw [Settings.verdict_eq_raise_iff, hcalm]
      simp
    unfold Machine.failureOutcome Machine.settingsAt at hcomes
    simp only [hverdict] at hcomes
    unfold Report.account
    dsimp only
    by_cases hthrowing : machine.process.effectiveSettings.throwing = true
    · rw [if_pos hthrowing] at hcomes ⊢
      obtain ⟨process, hend, hshows⟩ := hcomes
      let raised := arrived (machine.chain machine.thread.stack.current) reported
      let after : Machine :=
        { process, thread := { machine.thread with unwinding := machine.thread.unwinding + 1 } }
      have hraised : Interpreter.run depth
          (.deliver (.failure severity reported) machine.thread.stack.current) machine =
          .error (.raised (.failure raised)) after := hend
      rw [hraised] at hleads
      have hname : after.thread.name = machine.thread.name := rfl
      exact .raised hraised (.of_written hleads hname hshows) rfl rfl
    · rw [if_neg hthrowing] at hcomes ⊢
      obtain ⟨process, hend, hshown⟩ := hlayered.exists_of_comesOut hcomes
      exact hemitted hend hshown
  · obtain ⟨process, hend, hshown⟩ := hlayered.exists_of_comesOut
      (Interpreter.comesOut_line hlayered.plain (.refl machine) sent
        (show (machine.chain machine.thread.stack.current).length < depth by omega))
    exact hemitted hend hshown

/-- A failure that is made and delivered to the top of the chain. -/
theorem Machine.Layered.report (hlayered : machine.Layered) (hcalm : machine.thread.unwinding = 0)
    (hcapturing : machine.process.effectiveSettings.capturing = false) (severity : Severity)
    (draft : Draft) (hdepth : 2 * machine.thread.stack.height + 1 < depth) :
    Run.Gives (do
        let failure ← Run.build draft
        Interpreter.run depth (.deliver (.failure severity failure) (← Run.current)))
      machine (machine.Grown 0)
      (Report.account machine.process.effectiveSettings
        { scopes := machine.chain machine.thread.stack.current
          event := .failure severity (draft.build []) }) := by
  obtain ⟨process, hbuild, htells⟩ := Run.build_of_uncaptured hcapturing draft
  let built : Machine := { machine with process }
  have hbuilt : built.Layered := ⟨hlayered.alive, hlayered.distinct, hlayered.layers⟩
  refine .silently hbuild htells rfl (.congr (Run.bind_of_ok rfl) ?_)
  have hdeliver := hbuilt.deliver hcalm (.failure severity (draft.build [])) hdepth
  rw [htells.effectiveSettings] at hdeliver
  exact hdeliver.mono fun {after} hafter ↦ Machine.Stands.grown hafter hlayered

/-- A line that is sent to the top of the chain. -/
theorem Machine.Layered.line (hlayered : machine.Layered) (hcalm : machine.thread.unwinding = 0)
    (sent : Line) (hdepth : 2 * machine.thread.stack.height + 1 < depth) :
    Run.Gives (do Interpreter.run depth (.deliver (.line sent) (← Run.current))) machine
      (machine.Grown 0)
      (Report.account machine.process.effectiveSettings
        { scopes := machine.chain machine.thread.stack.current, event := .line sent }) := by
  refine .congr (Run.bind_of_ok rfl) ?_
  exact (hlayered.deliver hcalm (.line sent) hdepth).mono fun hafter ↦ hafter.grown hlayered

/-- A line of which everything is said is what is said. -/
theorem Run.buildLine_of_said (site : Site) (text : String) (machine : Machine) :
    (buildLine { file := some site.file, line := some site.line, depth := some 0
                 text := some text }).run machine = .ok (.ok { site, depth := 0, text }) machine := by
  have htaken : ∃ taken, handledLine? machine = .ok taken machine := by
    unfold handledLine?
    rw [bind_of_ok (show thread machine = .ok machine.thread machine from rfl)]
    rcases machine.thread.handling with _ | ⟨_ | _, _⟩ <;> exact ⟨_, rfl⟩
  obtain ⟨taken, htaken⟩ := htaken
  unfold buildLine
  rw [run_bind_of_ok (run_liftM_of_ok htaken)]
  change EStateM.Result.ok (Except.ok _) machine = _
  simp

/-- Assumes: nothing is being raised on a thread with open scopes, and no addresses are captured.
What comes of a statement is the account of what it reports. -/
theorem Told.gives (told : Told) (hlayered : machine.Layered)
    (hcalm : machine.thread.unwinding = 0)
    (hcapturing : machine.process.effectiveSettings.capturing = false)
    (hdepth : 2 * machine.thread.stack.height + 2 < depth) :
    Run.Gives (Interpreter.run depth (.perform told.op)) machine (machine.Grown 0)
      (accountOf machine.process.effectiveSettings
        ((told.event? machine.process.statementSite).toList.map fun event ↦
          { scopes := machine.chain machine.thread.stack.current, event })) := by
  obtain ⟨depth, rfl⟩ := Nat.exists_eq_add_one_of_ne_zero (Nat.ne_zero_of_lt hdepth)
  have hinner : 2 * machine.thread.stack.height + 1 < depth := by omega
  have hreport (severity : Severity) (draft : Draft) :=
    hlayered.report hcalm hcapturing severity draft hinner
  have hline (sent : Line) := hlayered.line hcalm sent hinner
  have hone (report : Report) : accountOf machine.process.effectiveSettings [report] =
      report.account machine.process.effectiveSettings := Account.andThen_nil _
  have hstate {statement : Statement} {part : Run Unit} {account : Account}
      (hpart : Run.Gives part machine (machine.Grown 0) account)
      (hexecute : Run.execute (Interpreter.run depth) statement "" false machine =
        ((fun _ ↦ Answer.returned) <$> part) machine) :
      Run.Gives (Interpreter.run (depth + 1) (.perform (.state statement "" false))) machine
        (machine.Grown 0) account :=
    .attempt (.map Except.ok (.congr hexecute (hpart.map _))) fun process h ↦ h.withProcess process
  cases told with
  | expect nature holds condition message =>
    cases holds with
    | true =>
      have hnothing : Run.Gives (return) machine (machine.Grown 0) {} :=
        .of_ok rfl (.of_process_eq rfl rfl) rfl (.refl hlayered)
      exact hstate hnothing rfl
    | false =>
      rw [show (Told.expect nature false condition message).event? machine.process.statementSite =
        some _ from rfl]
      exact hstate (hone _ ▸ hreport .recoverable _) (by
        refine (Run.bind_of_ok rfl).trans ?_
        simp only [map_eq_pure_bind, bind_assoc]
        rfl)
  | fatal nature durability description =>
    exact hstate (hone _ ▸ hreport .fatal _) (by
      refine (Run.bind_of_ok rfl).trans ?_
      simp only [map_eq_pure_bind, bind_assoc])
  | line text =>
    exact hstate (hone _ ▸ hline _) (by
      refine (Run.bind_of_ok rfl).trans ?_
      simp only [map_eq_pure_bind, bind_assoc])
  | report severity draft =>
    refine .attempt (.congr ?_ ((hone _ ▸ hreport severity draft).answered .returned))
      fun process h ↦ h.withProcess process
    simp only [liftM_bind, bind_assoc]
    rfl
  | lineFrom site text =>
    refine .attempt (.congr ?_ ((hone _ ▸ hline _).answered .returned))
      fun process h ↦ h.withProcess process
    refine (Run.run_bind_of_ok (Run.buildLine_of_said site (text ++ "\n") machine)).trans ?_
    simp only [liftM_bind, bind_assoc]
    rfl

end Statements

/-! ### Scopes -/

section Scopes

variable {machine : Machine} {depth : ℕ}

/-- A new override was installed on top, as the only owner of which the stack is left. -/
structure Machine.Topped (machine : Machine) (override : Override) (guard : Guard)
    (after : Machine) : Prop where
  layered : after.Layered
  frames : after.thread.frames = machine.thread.frames
  top : guard.OnTop after.thread.stack.entries machine.thread.stack.entries
  objects : ∀ installed ∈ machine.thread.stack.entries,
    after.thread.objects[installed.override]? = machine.thread.objects[installed.override]?
  chain : after.chain after.thread.stack.current =
    override :: machine.chain machine.thread.stack.current

theorem Machine.Topped.height_eq {override : Override} {guard : Guard} {after : Machine}
    (h : machine.Topped override guard after) :
    after.thread.stack.height = machine.thread.stack.height + 1 := by
  obtain ⟨installed, hentries, -⟩ := h.top
  simp [Stack.height, hentries]

/-- Installing the override of a scope is silent. -/
theorem Machine.Layered.install (hlayered : machine.Layered) {override : Override}
    (hlayer : override.IsLayer) : ∃ guard after,
      (Run.newObject override >>= Run.install (Interpreter.run depth)) machine = .ok guard after ∧
        machine.Tells after [] ∧ after.thread.unwinding = machine.thread.unwinding ∧
          machine.Topped override guard after := by
  let made : Machine := { machine with thread := { machine.thread with
    objects := machine.thread.objects.push { override, owners := 1 } } }
  let object := machine.thread.objects.size
  obtain ⟨process, hinstall, halike⟩ :=
    @Run.install_of_alive (Interpreter.run depth) made hlayered.alive object
  have hleads : made.process.LeadsTo
      (Run.left (Run.install (Interpreter.run depth) object made)).process :=
    Run.follows_install (Interpreter.follows_run depth) object made
  rw [hinstall] at hleads
  let after : Machine :=
    { process, thread := { made.thread with stack := (made.thread.stack.install object).2 } }
  have hmade : Run.newObject override machine = .ok object made := rfl
  have hentries : after.thread.stack.entries = machine.thread.stack.entries.push
      { generation := machine.thread.stack.nextGeneration, override := object } := rfl
  have hobjects : after.thread.objects =
      machine.thread.objects.push { override, owners := 1 } := rfl
  have halive : after.thread.tornDown = machine.thread.tornDown := rfl
  obtain ⟨hafter, hold⟩ := hlayered.push hlayer halive hentries hobjects
  refine ⟨_, after, (Run.bind_of_ok hmade).trans hinstall, .of_alike hleads rfl halike, rfl,
    hafter, rfl, ⟨_, hentries, rfl⟩, hold, ?_⟩
  refine Machine.chain_current_of_push hentries ?_ fun earlier hearlier ↦ ?_
  · unfold Machine.overrideOf?
    rw [hobjects, Array.getElem?_push_size]
    rfl
  · unfold Machine.overrideOf?
    rw [hold earlier hearlier]

/-- A guard is kept on top of the innermost open list. -/
theorem Run.keepGuard_eq (name : String) (guard : Guard) (machine : Machine) : ∃ frames,
    keepGuard name guard false machine =
      .ok () { machine with thread := { machine.thread with frames } } ∧
      ∀ frame outer, machine.thread.frames = frame :: outer →
        frames = ({ name, guard } :: frame) :: outer := by
  rcases hframes : machine.thread.frames with _ | ⟨first, others⟩
  · refine ⟨_, rfl, fun _ _ h ↦ nomatch h⟩
  · refine ⟨_, rfl, fun frame outer h ↦ ?_⟩
    cases h
    simp [hframes]

/-- Opening a scope is silent, and puts its override in front of the chain. -/
theorem Machine.Layered.open (hlayered : machine.Layered) {override : Override}
    (hlayer : override.IsLayer) (name : String) :
    Run.Gives (do
        let object ← Run.newObject override
        Run.pushObject (Interpreter.run depth) object name false)
      machine
      (fun after ↦ machine.Grown 1 after ∧
        after.chain after.thread.stack.current =
          override :: machine.chain machine.thread.stack.current) {} := by
  obtain ⟨guard, after, hinstall, htells, hcalm, htopped⟩ := hlayered.install hlayer
  obtain ⟨frames, hkeep, hframes⟩ := Run.keepGuard_eq name guard after
  let kept : Machine := { after with thread := { after.thread with frames } }
  have hend : (do
      let object ← Run.newObject override
      Run.pushObject (Interpreter.run depth) object name false : Run Answer) machine =
      .ok (.depth guard.depth) kept := by
    unfold Run.pushObject
    rw [← bind_assoc, Run.bind_of_ok hinstall, Run.bind_of_ok hkeep]
    rfl
  let held : Held := { name, guard }
  have hpiled : Piled machine.thread.stack.entries [held] kept.thread.stack.entries := by
    obtain ⟨installed, hentries, rfl⟩ := htopped.top
    rw [show kept.thread.stack.entries = after.thread.stack.entries from rfl, hentries]
    exact .cons .nil
  have hkept : kept.Layered :=
    ⟨htopped.layered.alive, htopped.layered.distinct, htopped.layered.layers⟩
  have hlists (frame : Frame) (outer : List Frame) (h : machine.thread.frames = frame :: outer) :
      kept.thread.frames = ([held] ++ frame) :: outer :=
    hframes frame outer (htopped.frames.trans h)
  have hsame : after.Tells kept [] := .of_process_eq rfl rfl
  exact .of_ok hend (htells.trans hsame) hcalm
    ⟨⟨hkept, ⟨_, le_rfl, hpiled, hlists⟩, htopped.objects⟩, htopped.chain⟩

/-- Scopes were closed: these lists are open yet, and this is in place yet, as it was. -/
structure Machine.Shrunk (machine : Machine) (frames : List Frame)
    (base : Array (Installed ObjectId)) (after : Machine) : Prop where
  layered : after.Layered
  frames : after.thread.frames = frames
  entries : after.thread.stack.entries = base
  objects : ∀ installed ∈ base,
    after.thread.objects[installed.override]? = machine.thread.objects[installed.override]?

/-- Closing the scope on top is silent. -/
theorem Machine.Layered.release (hlayered : machine.Layered) {guard : Guard}
    {base : Array (Installed ObjectId)} (htop : guard.OnTop machine.thread.stack.entries base) :
    Run.Gives (Interpreter.run (depth + 1) (.release guard)) machine
      (machine.Shrunk machine.thread.frames base) {} := by
  obtain ⟨installed, hentries, rfl⟩ := htop
  obtain ⟨override, hheld, hlayer⟩ := hlayered.layers installed (by simp [hentries])
  let cut : Machine := { machine with thread :=
    { machine.thread with stack := { machine.thread.stack with entries := base } } }
  let last : Object := { override, owners := 0 }
  let freed : Machine := { cut with thread := { cut.thread with
    objects := machine.thread.objects.setIfInBounds installed.override last } }
  have hdisown : Run.disown installed.override cut = .ok (some override) freed := by
    unfold Run.disown Run.updateThread
    simp [cut, freed, last, hheld, modifyGet, MonadStateOf.modifyGet, EStateM.modifyGet]
  have hdestroy : Run.destroy (Interpreter.run depth) override freed = .ok () freed := by
    cases override <;> first | exact hlayer.elim | rfl
  have hrelinquish : Run.relinquishAll (Interpreter.run depth) [installed.override] cut =
      .ok () freed :=
    Run.andFinally_of_ok ((Run.bind_of_ok hdisown).trans hdestroy) rfl
  obtain ⟨process, htrace, halike⟩ := Run.traceEvent_eq .trace
    (show Run.stackTarget ≠ Run.bridgeTarget by decide)
    ("exception callback released depth=" ++ toString base.size) freed
  have hleads : freed.process.LeadsTo (Run.left (Run.traceEvent .trace Run.stackTarget
      ("exception callback released depth=" ++ toString base.size) freed)).process :=
    Run.Follows.traceEvent _ _ _ freed
  rw [htrace] at hleads
  have hend : Interpreter.run (depth + 1)
      (.release { depth := base.size, generation := installed.generation }) machine =
      .ok () { freed with process } := by
    refine (Run.release_of_alive hlayered.alive _).trans ?_
    rw [Stack.release_of_top hentries]
    exact (Run.bind_of_ok hrelinquish).trans htrace
  obtain ⟨hafter, hold⟩ := @Machine.Layered.pop machine { freed with process } hlayered base
    installed last rfl hentries rfl rfl
  exact .of_ok hend (.of_alike hleads rfl halike) rfl ⟨hafter, rfl, rfl, hold⟩

theorem Run.closeFrame_of_nil (exec : Exec) {outer : List Frame}
    (h : machine.thread.frames = [] :: outer) : Run.closeFrame exec machine =
      .ok () { machine with thread := { machine.thread with frames := outer } } := by
  unfold Run.closeFrame
  rw [bind_of_ok (show thread machine = .ok machine.thread machine from rfl), h]
  rfl

theorem Run.closeFrame_of_cons (exec : Exec) {held : Held} {rest : Frame} {outer : List Frame}
    (h : machine.thread.frames = (held :: rest) :: outer) : Run.closeFrame exec machine = (do
      modifyThread fun thread ↦ { thread with frames := rest :: outer }
      Run.andFinally (exec (.release held.guard)) (exec .closeFrame)) machine := by
  unfold Run.closeFrame
  rw [bind_of_ok (show thread machine = .ok machine.thread machine from rfl), h]

/-- Closing the innermost open list is silent, and closes its scopes. -/
theorem Machine.Layered.closeFrame (hlayered : machine.Layered) {frame : Frame}
    {outer : List Frame} {base : Array (Installed ObjectId)}
    (hframes : machine.thread.frames = frame :: outer)
    (hpiled : Piled base frame machine.thread.stack.entries) (hdepth : frame.length < depth) :
    Run.Gives (Interpreter.run depth .closeFrame) machine (machine.Shrunk outer base) {} := by
  induction frame generalizing machine depth with
  | nil =>
    obtain ⟨depth, rfl⟩ := Nat.exists_eq_add_one_of_ne_zero (Nat.ne_zero_of_lt hdepth)
    refine .of_ok (Run.closeFrame_of_nil _ hframes) (.of_process_eq rfl rfl) rfl ⟨?_, rfl, ?_, ?_⟩
    · exact ⟨hlayered.alive, hlayered.distinct, hlayered.layers⟩
    · exact hpiled.eq_of_nil
    · exact fun _ _ ↦ rfl
  | cons held rest ih =>
    obtain ⟨depth, rfl⟩ := Nat.exists_eq_add_one_of_ne_zero (Nat.ne_zero_of_lt hdepth)
    rw [List.length_cons] at hdepth
    obtain ⟨inner, rfl⟩ := Nat.exists_eq_add_one_of_ne_zero (show depth ≠ 0 by omega)
    obtain ⟨lower, htop, hrest⟩ := hpiled.exists_onTop
    refine .congr (Run.closeFrame_of_cons _ hframes) ?_
    have hopened : Machine.Layered { machine with
        thread := { machine.thread with frames := rest :: outer } } :=
      ⟨hlayered.alive, hlayered.distinct, hlayered.layers⟩
    refine .silently rfl (.of_process_eq rfl rfl) rfl ?_
    refine (hopened.release htop).andFinally fun {after} hafter ↦ ?_
    have hlast := ih hafter.layered hafter.frames (hafter.entries ▸ hrest)
      (show rest.length < inner + 1 by omega)
    refine hlast.mono fun {last} hclosed ↦
      ⟨hclosed.layered, hclosed.frames, hclosed.entries, fun installed hinstalled ↦ ?_⟩
    rw [hclosed.objects installed hinstalled]
    exact hafter.objects installed (hrest.mem_of_mem hinstalled)

/-- Without anything to do on leaving, a scope is a list in a frame of its own. -/
theorem Run.runScope_none (exec : Exec) (ops : List Op) :
    runScope exec ops none = runList exec ops := by
  unfold runScope runList runDeferred
  rw [andFinally_pure]

/-- A list in a frame of its own comes to what its operations come to, and its scopes are closed
silently on every way out. -/
theorem Machine.Layered.runList (hlayered : machine.Layered) {ops : List Op} {account : Account}
    {most : ℕ}
    (hops : ∀ {opened : Machine}, opened.Layered → machine.Tells opened [] →
      opened.thread.unwinding = machine.thread.unwinding →
      opened.thread.stack = machine.thread.stack →
      opened.chain = machine.chain →
      Run.Gives (ops.forM fun op ↦ Interpreter.run depth (.perform op)) opened (opened.Grown most)
        account)
    (hdepth : most < depth) :
    Run.Gives (Run.runList (Interpreter.run depth) ops) machine (machine.Grown 0) account := by
  let opened : Machine := { machine with thread := { machine.thread with
    frames := [] :: machine.thread.frames } }
  have hopened : opened.Layered := ⟨hlayered.alive, hlayered.distinct, hlayered.layers⟩
  have hsame : machine.Tells opened [] := .of_process_eq rfl rfl
  have hbody := hops hopened hsame rfl rfl (by funext link; cases link <;> rfl)
  refine .silently (show Run.openFrame machine = .ok () opened from rfl) hsame rfl ?_
  refine hbody.andFinally fun {after} hafter ↦ ?_
  obtain ⟨more, hmore, hpiled, hframes⟩ := hafter.piled
  have hframe := hframes [] machine.thread.frames rfl
  rw [List.append_nil] at hframe
  refine (hafter.layered.closeFrame hframe hpiled (by omega)).mono fun {last} hclosed ↦ ?_
  refine .of_eq hlayered ?_ hclosed.entries (fun _ _ _ ↦ hclosed.frames)
    fun installed hinstalled ↦ ?_
  · rw [hclosed.layered.alive, hlayered.alive]
  · rw [hclosed.objects installed hinstalled]
    exact hafter.objects installed hinstalled

/-- A list that runs with the override of a scope installed comes to what it comes to in the scope,
and the scope is closed silently on every way out. -/
theorem Machine.Layered.within (hlayered : machine.Layered) {override : Override}
    (hlayer : override.IsLayer) {ops : List Op} {account : Account}
    (hops : ∀ {guard : Guard} {inside : Machine}, machine.Topped override guard inside →
      machine.Tells inside [] → inside.thread.unwinding = machine.thread.unwinding →
      Run.Gives (Run.runList (Interpreter.run (depth + 1)) ops) inside (inside.Grown 0) account) :
    Run.Gives (do
        let object ← Run.newObject override
        Run.runWithin (Interpreter.run (depth + 1)) object ops)
      machine (machine.Grown 0) account := by
  obtain ⟨guard, inside, hinstall, htells, hcalm, htopped⟩ := hlayered.install hlayer
  unfold Run.runWithin
  rw [← bind_assoc, ← account.andThen_nil]
  refine .silently hinstall htells hcalm ?_
  have hheight {α : Type} {after : Machine} {target : Machine → Prop} (answer : ℕ → α)
      (hafter : target after) : Run.Gives (do return answer (← Run.height)) after target {} :=
    .of_ok rfl (.of_process_eq rfl rfl) rfl hafter
  have hbody : Run.Gives (do Run.runList (Interpreter.run (depth + 1)) ops; Run.height) inside
      (inside.Grown 0) account := by
    rw [← account.andThen_nil]
    exact (hops htopped htells hcalm).bind id fun _ _ hafter ↦ hheight id hafter
  refine (hbody.andFinally fun {after} hafter ↦ ?_).bind id fun _ _ hlast ↦ hheight _ hlast
  have htop : guard.OnTop after.thread.stack.entries machine.thread.stack.entries :=
    hafter.entries_eq ▸ htopped.top
  refine (hafter.layered.release htop).mono fun {last} hclosed ↦ ?_
  obtain ⟨more, hmore, -, hframes⟩ := hafter.piled
  rw [List.eq_nil_of_length_eq_zero (Nat.le_zero.mp hmore)] at hframes
  refine .of_eq hlayered ?_ hclosed.entries (fun frame outer hframe ↦ ?_)
    fun installed hinstalled ↦ ?_
  · rw [hclosed.layered.alive, hlayered.alive]
  · rw [hclosed.frames, hframes frame outer (htopped.frames.trans hframe), hframe]
    rfl
  · obtain ⟨top, hentries, -⟩ := htopped.top
    rw [hclosed.objects installed hinstalled, ← htopped.objects installed hinstalled]
    exact hafter.objects installed (by rw [hentries]; exact Array.mem_push.mpr (.inl hinstalled))

/-- An operation that opens a scope is silent. -/
theorem Scope.gives (scope : Scope) (hlayered : machine.Layered) :
    Run.Gives (Interpreter.run (depth + 1) (.perform scope.op)) machine
      (fun after ↦ machine.Grown 1 after ∧ after.chain after.thread.stack.current =
        scope.override machine.process.statementSite ::
          machine.chain machine.thread.stack.current) {} := by
  have hopen {override : Override} (hlayer : override.IsLayer) {op : Op} {action : Attempt Answer}
      (haction : action.run machine = (Except.ok <$> (do
        let object ← Run.newObject override
        Run.pushObject (Interpreter.run depth) object Scope.guardName false) : Run _) machine) :
      Run.Gives (Run.attempt op action) machine
        (fun after ↦ machine.Grown 1 after ∧ after.chain after.thread.stack.current =
          override :: machine.chain machine.thread.stack.current) {} :=
    .attempt (.congr haction ((hlayered.open hlayer Scope.guardName).map Except.ok))
      fun process h ↦ ⟨h.1.withProcess process, h.2⟩
  cases scope with
  | context description =>
    let remark : Remark := { site := machine.process.statementSite, description }
    exact @hopen (.context remark) trivial _ _ rfl
  | contextFrom remark => exact @hopen (.context remark) trivial _ _ rfl
  | bridge level => exact @hopen (.bridge level) trivial _ _ rfl

/-- What the operations of a block come to is the account of what it reports from inside the scopes
that are open, wherever nothing is being raised, no addresses are captured and there are enough
levels of nesting. -/
def Narrative.Accounted (program : Narrative) (depth : ℕ) : Prop :=
  ∀ machine : Machine, machine.Layered → machine.thread.unwinding = 0 →
    machine.process.effectiveSettings.capturing = false →
      3 * program.size + 2 * machine.thread.stack.height + 4 ≤ depth →
        Run.Gives (program.ops.forM fun op ↦ Interpreter.run depth (.perform op)) machine
          (machine.Grown program.size)
          (accountOf machine.process.effectiveSettings
            (program.reports machine.process.statementSite
              (machine.chain machine.thread.stack.current)))

/-- An operation and the rest of its block. -/
theorem Narrative.Accounted.behind {rest : Narrative} (hrest : rest.Accounted depth) {op : Op}
    {account : Account} {most : ℕ} {scopes : List Override}
    (hop : Run.Gives (Interpreter.run depth (.perform op)) machine
      (fun after ↦ machine.Grown most after ∧ after.chain after.thread.stack.current = scopes)
      account)
    (hcalm : machine.thread.unwinding = 0)
    (hcapturing : machine.process.effectiveSettings.capturing = false)
    (hdepth : 3 * rest.size + 2 * (machine.thread.stack.height + most) + 4 ≤ depth) :
    Run.Gives ((op :: rest.ops).forM fun op ↦ Interpreter.run depth (.perform op)) machine
      (machine.Grown (most + rest.size))
      (account.andThen (accountOf machine.process.effectiveSettings
        (rest.reports machine.process.statementSite scopes))) := by
  rw [List.forM_eq_forM, List.forM_cons]
  refine hop.bind (fun h ↦ h.1.mono (Nat.le_add_right _ _)) fun {_ after signs} htells hsame h ↦ ?_
  obtain ⟨hgrown, hchain⟩ := h
  have hheight := hgrown.height_le
  have hafter := hrest after hgrown.layered (hsame.trans hcalm)
    (htells.effectiveSettings ▸ hcapturing) (by omega)
  rw [htells.effectiveSettings, htells.statementSite, hchain] at hafter
  exact hafter.mono hgrown.trans

/-- A block as a list of its own, whose scopes are closed on every way out. -/
theorem Narrative.Accounted.runList {program : Narrative} (hprogram : program.Accounted depth)
    (hlayered : machine.Layered) (hcalm : machine.thread.unwinding = 0)
    (hcapturing : machine.process.effectiveSettings.capturing = false)
    (hdepth : 3 * program.size + 2 * machine.thread.stack.height + 4 ≤ depth) :
    Run.Gives (Run.runList (Interpreter.run depth) program.ops) machine (machine.Grown 0)
      (accountOf machine.process.effectiveSettings
        (program.reports machine.process.statementSite
          (machine.chain machine.thread.stack.current))) := by
  refine hlayered.runList (fun {opened} hopened htells hsame hstack hchain ↦ ?_)
    (show program.size < depth by omega)
  have hops := hprogram opened hopened (hsame.trans hcalm)
    (htells.effectiveSettings ▸ hcapturing) (hstack ▸ hdepth)
  rwa [htells.effectiveSettings, htells.statementSite, hchain, hstack] at hops

/-- What the operations of a block come to is the account of its reports. -/
theorem Narrative.accounted (program : Narrative) (depth : ℕ) : program.Accounted depth := by
  induction program generalizing depth with
  | done => exact fun _ hlayered _ _ _ ↦ .of_ok rfl (.of_process_eq rfl rfl) rfl (.refl hlayered)
  | state told rest ih =>
    intro machine hlayered hcalm hcapturing hdepth
    rw [Narrative.size] at hdepth
    have hstate := told.gives hlayered hcalm hcapturing (show _ < depth by omega)
    rw [Narrative.reports, accountOf_append]
    refine ((ih depth).behind (hstate.mono fun h ↦ ⟨h, h.chain_eq⟩) hcalm hcapturing ?_).mono ?_
    · omega
    · exact fun h ↦ h.mono (by rw [Narrative.size]; omega)
  | enter scope rest ih =>
    intro machine hlayered hcalm hcapturing hdepth
    rw [Narrative.size] at hdepth
    obtain ⟨depth, rfl⟩ := Nat.exists_eq_add_one_of_ne_zero (show depth ≠ 0 by omega)
    have hscope := @Scope.gives machine depth scope hlayered
    refine ((ih _).behind hscope hcalm hcapturing ?_).mono ?_
    · omega
    · exact fun h ↦ h.mono (by rw [Narrative.size]; omega)
  | block body rest ihBody ihRest =>
    intro machine hlayered hcalm hcapturing hdepth
    rw [Narrative.size] at hdepth
    obtain ⟨depth, rfl⟩ := Nat.exists_eq_add_one_of_ne_zero (show depth ≠ 0 by omega)
    have hbody := (ihBody depth).runList hlayered hcalm hcapturing (by omega)
    rw [← Run.runScope_none] at hbody
    have hblock : Run.Gives (Interpreter.run (depth + 1) (.perform (.scope body.ops none))) machine
        (machine.Grown 0) _ :=
      .attempt (hbody.answered .completed) fun process h ↦ h.withProcess process
    rw [Narrative.reports, accountOf_append]
    refine ((ihRest _).behind (hblock.mono fun h ↦ ⟨h, h.chain_eq⟩) hcalm hcapturing ?_).mono ?_
    · omega
    · exact fun h ↦ h.mono (by rw [Narrative.size]; omega)
  | within level body rest ihBody ihRest =>
    intro machine hlayered hcalm hcapturing hdepth
    rw [Narrative.size] at hdepth
    obtain ⟨depth, rfl⟩ := Nat.exists_eq_add_one_of_ne_zero (show depth ≠ 0 by omega)
    obtain ⟨depth, rfl⟩ := Nat.exists_eq_add_one_of_ne_zero (show depth ≠ 0 by omega)
    have hbody := @Machine.Layered.within machine depth hlayered (.bridge level) trivial body.ops
      (accountOf machine.process.effectiveSettings (body.reports machine.process.statementSite
        (.bridge level :: machine.chain machine.thread.stack.current)))
      fun {guard inside} htopped htells hsame ↦ by
        have hheight := htopped.height_eq
        have hinside := (ihBody _).runList htopped.layered (hsame.trans hcalm)
          (htells.effectiveSettings ▸ hcapturing) (show _ ≤ depth + 1 by omega)
        rwa [htells.effectiveSettings, htells.statementSite, htopped.chain] at hinside
    have hwithin : Run.Gives
        (Interpreter.run (depth + 2) (.perform (.within (.bridge level) body.ops))) machine
        (machine.Grown 0) _ :=
      .attempt (.congr rfl (hbody.map Except.ok)) fun process h ↦ h.withProcess process
    rw [Narrative.reports, accountOf_append]
    refine ((ihRest _).behind (hwithin.mono fun h ↦ ⟨h, h.chain_eq⟩) hcalm hcapturing ?_).mono ?_
    · omega
    · exact fun h ↦ h.mono (by rw [Narrative.size]; omega)

end Scopes

/-! ### Two builds of one program -/

/-- The process in a build that raises failures or does not. -/
def Process.inBuild (process : Process) (throwing : Bool) : Process :=
  { process with
    throwing
    settings := process.settings.map fun settings ↦ { settings with throwing }
    root := process.root.map fun settings ↦ { settings with throwing }
    root_eq := process.root_eq.imp (fun h ↦ by rw [h]; rfl) fun h ↦ by rw [h] }

/-- The machine in a build that raises failures or does not. -/
def Machine.inBuild (machine : Machine) (throwing : Bool) : Machine :=
  { machine with process := machine.process.inBuild throwing }

theorem Process.effectiveSettings_inBuild (process : Process) (throwing : Bool) :
    (process.inBuild throwing).effectiveSettings =
      { process.effectiveSettings with throwing } := by
  have hmapped : (process.inBuild throwing).settings =
      process.settings.map fun settings ↦ { settings with throwing } := rfl
  have hconsulted : (process.inBuild throwing).consulted =
      process.consulted.map fun settings ↦ { settings with throwing } :=
    Settings.load_throwing throwing process.throwing _
  cases hsettings : process.settings with
  | none =>
    have hfresh : (process.inBuild throwing).settings = none := by rw [hmapped, hsettings]; rfl
    rw [effectiveSettings_of_fresh hfresh, effectiveSettings_of_fresh hsettings, hconsulted]
    cases process.consulted <;> rfl
  | some loaded => simp [effectiveSettings, hmapped, hsettings]

/-- What is shown of reports one after another where nothing is raised. -/
def shownOf (settings : Settings) (reports : List Report) : List Sign :=
  signsOf (reports.map (Report.emission settings))

/-- **Both builds tell the same up to the first failure.** Assumes: a thread is not unwinding, no
override is installed, no addresses are captured, and there are enough levels of nesting for the
program. Then the build without raising runs the whole program, and shows each report in order. The
build with raising shows the same if all reports are lines. Otherwise it shows the lines before the
first failure, and raises that failure with the remarks of the open scopes, the outermost first; the
text of what it raises is what the other build shows next, as a line of the open scopes. What the
hook reports of the raise stands last. -/
theorem builds_agree (program : Narrative) (machine : Machine) {depth : ℕ}
    (halive : machine.thread.tornDown = false) (hempty : machine.thread.stack.entries = #[])
    (hcalm : machine.thread.unwinding = 0)
    (huncaptured : machine.process.effectiveSettings.capturing = false)
    (hdepth : 3 * program.size + 4 ≤ depth) :
    let part := Run.runList (Interpreter.run depth) program.ops
    let settings := machine.process.effectiveSettings
    let reports := program.reports machine.process.statementSite []
    ∃ quiet, part (machine.inBuild false) = .ok () quiet ∧
      quiet.process.transcript = machine.process.transcript ++ shownOf settings reports ∧
      ((∀ report ∈ reports, report.event.kind = .line) →
        ∃ loud, part (machine.inBuild true) = .ok () loud ∧
          loud.process.transcript = quiet.process.transcript) ∧
      ∀ before scopes severity reported later,
        reports = before ++ { scopes, event := .failure severity reported } :: later →
        (∀ report ∈ before, report.event.kind = .line) →
        let raised := arrived scopes reported
        ∃ loud, part (machine.inBuild true) = .error (.raised (.failure raised)) loud ∧
          loud.process.transcript = machine.process.transcript ++ shownOf settings before ++
            writtenSigns (Run.raiseText machine (.failure raised)) ∧
          quiet.process.transcript = machine.process.transcript ++ shownOf settings before ++
            (emissionOn settings #[] scopes
              { site := raised.site, depth := 0, text := raised.text ++ "\n" }).signs ++
            shownOf settings later := by
  intro part settings reports
  have hstart (throwing : Bool) : Run.Gives part (machine.inBuild throwing)
      ((machine.inBuild throwing).Grown 0) (accountOf { settings with throwing } reports) := by
    have hlayered : (machine.inBuild throwing).Layered := by
      have hentries : (machine.inBuild throwing).thread.stack.entries = #[] := hempty
      exact ⟨halive, by simp [hentries], by simp [hentries]⟩
    have hheight : (machine.inBuild throwing).thread.stack.height = 0 := by
      change machine.thread.stack.entries.size = 0
      rw [hempty]
      rfl
    have hchain : (machine.inBuild throwing).chain
        (machine.inBuild throwing).thread.stack.current = [] := by
      unfold Stack.current
      rw [hheight]
      rfl
    have heffective : (machine.inBuild throwing).process.effectiveSettings =
        { settings with throwing } := machine.process.effectiveSettings_inBuild throwing
    have hgives := (program.accounted depth).runList hlayered hcalm
      (by rw [heffective]; exact huncaptured) (by rw [hheight]; exact hdepth)
    rwa [heffective, hchain] at hgives
  have hquiet := hstart false
  rw [accountOf_quiet rfl, Report.emission_throwing] at hquiet
  obtain ⟨quiet, hend, htells⟩ : ∃ quiet, part (machine.inBuild false) = .ok () quiet ∧
      (machine.inBuild false).Tells quiet (shownOf settings reports) := by
    cases hquiet with
    | returned hend htells hsame hplace => exact ⟨_, hend, htells⟩
  refine ⟨quiet, hend, htells.transcript, fun hlines ↦ ?_, ?_⟩
  · have hloud := hstart true
    rw [accountOf_of_lines hlines, Report.emission_throwing] at hloud
    cases hloud with
    | returned hend htellsLoud hsame hplace =>
      exact ⟨_, hend, htellsLoud.transcript.trans htells.transcript.symm⟩
  · intro before scopes severity reported later hreports hlines raised
    have hloud := hstart true
    rw [hreports, accountOf_of_first rfl hlines, Report.emission_throwing] at hloud
    cases hloud with
    | raised hend htellsLoud hsame hplace =>
      refine ⟨_, hend, ?_, ?_⟩
      · rw [htellsLoud.transcript, List.append_assoc]
        rfl
      · rw [htells.transcript, hreports]
        unfold shownOf
        rw [List.map_append, List.map_cons, signsOf_append, signsOf_cons, List.append_assoc,
          List.append_assoc]
        rfl

/-- A requirement that fails in a scope that annotates, in a scope that forwards: the build with
raising stops behind the line before it, and the other build shows its text next, moved in once, and
goes on. -/
theorem builds_agree_in_scopes :
    let program : Narrative :=
      .enter (.bridge .info) (.state (.line "begins") (.block
        (.enter (.context "reading") (.state (.expect .preconditionViolation true "ready" none)
          (.state (.expect .preconditionViolation false "open" (some "no file")) .done)))
        (.state (.line "ends") .done)))
    let site : Site := { file := "s.rs", line := 10 }
    let machine : Machine :=
      { process :=
        { settings := some { throwing := true, capturing := false }, statementSite := site } }
    let remark : Remark := { site, description := "reading" }
    let raised : Failure :=
      { site, nature := .preconditionViolation, durability := .permanent
        description := "expected open; no file", trace := .ofAddresses [], context := [remark] }
    machine.thread.tornDown = false ∧ machine.thread.stack.entries = #[] ∧
      machine.thread.unwinding = 0 ∧ machine.process.effectiveSettings.capturing = false ∧
      3 * program.size + 4 ≤ 25 ∧
      (∃ loud, Run.runList (Interpreter.run 25) program.ops (machine.inBuild true) =
          .error (.raised (.failure raised)) loud ∧
        loud.process.transcript = [.inr (.info, "s.rs:10: begins")]) ∧
      ∃ quiet, Run.runList (Interpreter.run 25) program.ops (machine.inBuild false) =
          .ok () quiet ∧
        quiet.process.transcript = [.inr (.info, "s.rs:10: begins"),
          .inr (.info, "s.rs:10: _" ++ raised.text), .inr (.info, "s.rs:10: ends")] := by
  intro program site machine remark raised
  have hdepth : 3 * program.size + 4 ≤ 25 := by decide
  obtain ⟨quiet, hquiet, -, -, hfirst⟩ := builds_agree program machine rfl rfl rfl rfl hdepth
  let expected : Failure := { raised with context := [] }
  obtain ⟨loud, hend, htranscript, hnext⟩ := hfirst
    [{ scopes := [.bridge .info], event := .line { site, depth := 0, text := "begins\n" } }]
    [.context remark, .bridge .info] .recoverable expected
    [{ scopes := [.bridge .info], event := .line { site, depth := 0, text := "ends\n" } }] rfl
    (fun report h ↦ by rw [List.mem_singleton.mp h]; rfl)
  have hshown : shownOf { throwing := true, capturing := false }
      [{ scopes := [.bridge .info]
         event := .line
          { site := { file := "s.rs", line := 10 }, depth := 0, text := "begins\n" } }] =
      [.inr (.info, "s.rs:10: begins")] := by decide +kernel
  have hlogged : (emissionOn { throwing := true, capturing := false } #[]
      [.context { site := { file := "s.rs", line := 10 }, description := "reading" }, .bridge .info]
      { site, depth := 0, text := raised.text ++ "\n" }).signs =
      [.inr (.info, "s.rs:10: _" ++ raised.text)] := by decide +kernel
  have hlater : shownOf { throwing := true, capturing := false }
      [{ scopes := [.bridge .info]
         event := .line
          { site := { file := "s.rs", line := 10 }, depth := 0, text := "ends\n" } }] =
      [.inr (.info, "s.rs:10: ends")] := by decide +kernel
  refine ⟨rfl, rfl, rfl, rfl, hdepth, ⟨loud, hend, htranscript.trans hshown⟩, quiet, hquiet, ?_⟩
  exact hnext.trans (congrArg₂ (· ++ ·) (congrArg₂ (· ++ ·) hshown hlogged) hlater)

end Escalation
