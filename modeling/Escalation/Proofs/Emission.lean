import Escalation.Proofs.Dispatch
import Escalation.Proofs.Termination
import Escalation.Proofs.Transcript

/-!
# What comes out of a line

A line that is sent to a link comes out once (`Machine.emission`): at the first override from there
outward that forwards lines or is a policy, and at the policy of the process if there is none
(`outlet`). It is moved in by its own level of nesting and one level more for each annotating
override on the way (`contextsPassed`), up to the deepest level there is. A forwarding override
moves it by the mark of the process and drops the line ends at its end, all of them and nothing else
(`Text.withoutLineEnds_eq_iff`); a policy moves it by its own mark and leaves the text as it is.

This is so among overrides that leave lines alone, say by a handler that hands every line on, or put
them out, as long as the writers of their policies take everything (`Machine.Conducts`). Sending
lines to such a thread returns, and what comes out is one emission for each line, in order
(`lines_come_out`): the transcript of the process and what each writer has taken grow by just that
(`Machine.Puts`).
-/

set_option autoImplicit false
set_option relaxedAutoImplicit false

namespace Escalation

/-! ### Emissions -/

/-- A text where it comes out. -/
inductive Emission
  /-- It is written to the diagnostic stream. -/
  | diagnostics (text : String)
  /-- It is sent to the log of the program. -/
  | log (level : Level) (text : String)
  /-- It is written to the writer of a policy. -/
  | writer (index : ℕ) (text : String)
  deriving DecidableEq

namespace Emission

/-- What the transcript of the process gets. -/
def signs : Emission → List Sign
  | .diagnostics text => writtenSigns text
  | .log level text => [.inr (level, text)]
  | .writer .. => []

/-- What the writer of a policy gets. -/
def bytesFor (index : ℕ) : Emission → List UInt8
  | .writer other text => if other = index then utf8Bytes text else []
  | .diagnostics _ | .log .. => []

end Emission

namespace Override

/-- Where a line comes out that reaches the override; otherwise it goes on to the link below. -/
def outlet? : Override → Option ChainEnd
  | .bridge level => some (.forwarded level)
  | .policy index => some (.policy index)
  | .transparent | .script _ | .context _ => none

/-- The override annotates what passes it. -/
def isContext : Override → Bool
  | .context _ => true
  | .transparent | .script _ | .bridge _ | .policy _ => false

end Override

/-- Where a line comes out on a chain of overrides. -/
def outlet (chain : List Override) : ChainEnd :=
  (chain.findSome? Override.outlet?).getD .root

/-- The number of annotating overrides that a line passes on a chain. -/
def contextsPassed (chain : List Override) : ℕ :=
  (chain.takeWhile fun override ↦ override.outlet?.isNone).countP Override.isContext

/-- The emission of a text at the policy of an index. -/
def Policy.emission (policy : Policy) (index : ℕ) (text : String) : Emission :=
  match policy.sink with
  | .diagnostics => .diagnostics text
  | .writer _ => .writer index text

/-- The emission of a line that comes out at a level of nesting, where the process and the thread
have these settings and policies. In front of its text stands a mark for each level. A forwarding
override puts the place of the line before that, and leaves out the line ends at the end of the
text. -/
def emissionAt (settings : Settings) (policies : Array Policy) (sent : Line) (depth : ℕ) :
    ChainEnd → Emission
  | .forwarded level =>
    .log level (sent.site.file ++ ":" ++ toString sent.site.line.toNat ++ ": " ++
      (String.ofList (List.replicate depth settings.indent) ++
        String.ofList (sent.text.toList.rdropWhile (· == '\n'))))
  | .policy index =>
    match policies[index]? with
    | some policy => policy.emission index
        (String.ofList (List.replicate depth policy.settings.indent) ++ sent.text)
    | none => .writer index ""
  | .root | .swallowed =>
    .diagnostics (String.ofList (List.replicate depth settings.indent) ++ sent.text)

/-- The emission of a line that is sent along a chain of overrides. No line is nested deeper than
`2 ^ 32 - 1`. -/
def emissionOn (settings : Settings) (policies : Array Policy) (chain : List Override)
    (sent : Line) : Emission :=
  emissionAt settings policies sent (min (sent.depth.toNat + contextsPassed chain) (2 ^ 32 - 1))
    (outlet chain)

/-- The emission of a line that is sent to a link. -/
def Machine.emission (machine : Machine) (sent : Line) (link : Link) : Emission :=
  emissionOn machine.process.effectiveSettings machine.thread.policies (machine.chain link) sent

/-! ### Line ends -/

/-- A text without its line ends is what stands in front of the line ends at its end, and does not
end in one. -/
theorem Text.withoutLineEnds_eq_iff {text body : String} : withoutLineEnds text = body ↔
    body.toList.getLast? ≠ some '\n' ∧
      ∃ count, text = body ++ String.ofList (List.replicate count '\n') := by
  have hdrop : withoutLineEnds text = String.ofList (text.toList.rdropWhile (· == '\n')) := rfl
  rw [hdrop]
  constructor
  · rintro rfl
    rw [String.toList_ofList]
    refine ⟨fun hlast ↦ ?_, (text.toList.rtakeWhile (· == '\n')).length, ?_⟩
    · obtain ⟨front, hfront⟩ := List.getLast?_eq_some_iff.mp hlast
      have hnot := List.rdropWhile_last_not (· == '\n') text.toList (by simp [hfront])
      simp [hfront] at hnot
    · have hends := List.eq_replicate_of_mem (a := '\n') (l := text.toList.rtakeWhile (· == '\n'))
        fun c hc ↦ by simpa using List.mem_rtakeWhile_imp hc
      rw [← hends, ← String.ofList_append, List.rdropWhile_append_rtakeWhile, String.ofList_toList]
  · rintro ⟨hlast, count, rfl⟩
    rw [String.toList_append, String.toList_ofList]
    clear hdrop
    induction count with
    | zero =>
      have hbody : body.toList.rdropWhile (· == '\n') = body.toList :=
        List.rdropWhile_eq_self_iff.mpr fun hne hend ↦
          hlast (by rw [List.getLast?_eq_some_getLast hne]; simpa using hend)
      simp [hbody]
    | succ count ih =>
      rw [List.replicate_succ', ← List.append_assoc, List.rdropWhile_concat_pos _ _ _ (by rfl)]
      exact ih

/-! ### The level of nesting -/

theorem toNat_deeper (depth : UInt32) :
    (deeper depth).toNat = min (depth.toNat + 1) (2 ^ 32 - 1) := by
  have hlt : depth.toNat < 2 ^ 32 := depth.toNat_lt
  unfold deeper
  split
  case isTrue hlast =>
    rw [hlast]
    rfl
  case isFalse hless =>
    have hne : depth.toNat ≠ 2 ^ 32 - 1 := fun heq ↦ hless (UInt32.toNat_inj.mp heq)
    rw [UInt32.toNat_add]
    change (depth.toNat + 1) % 2 ^ 32 = _
    omega

/-- Levels of nesting add up until the deepest one is reached. -/
theorem toNat_iterate_deeper (times : ℕ) (depth : UInt32) :
    (deeper^[times] depth).toNat = min (depth.toNat + times) (2 ^ 32 - 1) := by
  induction times generalizing depth with
  | zero =>
    have hlt : depth.toNat < 2 ^ 32 := depth.toNat_lt
    change depth.toNat = _
    omega
  | succ times ih =>
    rw [Function.iterate_succ_apply, ih, toNat_deeper]
    omega

/-! ### Writers that take everything -/

/-- A writer with this plan takes everything: no call goes wrong, and each takes some of what is
offered and claims no more. -/
structure WriterPlan.TakesAll (plan : WriterPlan) : Prop where
  goesRight (call : ℕ) : ScriptedWriter.goesWrong plan call = false
  chunk : plan.chunk ≠ some 0
  overclaim : plan.overclaim = 0

theorem WriterPlan.TakesAll.taken_cons {plan : WriterPlan} (h : plan.TakesAll) (byte : UInt8)
    (rest : List UInt8) :
    ∃ more, ScriptedWriter.taken plan (byte :: rest) = byte :: rest.take more := by
  unfold ScriptedWriter.taken
  rcases hchunk : plan.chunk with _ | most
  · exact ⟨rest.length, by simp⟩
  · obtain ⟨more, rfl⟩ := Nat.exists_eq_add_one_of_ne_zero (n := most)
      fun hzero ↦ h.chunk (by rw [hchunk, hzero])
    exact ⟨more, rfl⟩

/-- A writer that takes everything has taken all bytes in the end. -/
theorem ScriptedWriter.receive_of_takesAll {writer : ScriptedWriter} (h : writer.plan.TakesAll)
    (bytes : List UInt8) : ∃ after, receive bytes writer = .ok () after ∧
      after.plan = writer.plan ∧ after.data.toList = writer.data.toList ++ bytes := by
  induction hlength : bytes.length using Nat.strong_induction_on generalizing bytes writer with
  | _ length ih =>
    rcases bytes with _ | ⟨byte, rest⟩
    · refine ⟨writer.flush, ?_, rfl, by simp [flush]⟩
      unfold receive
      rw [writeFully_nil]
      rfl
    · obtain ⟨more, htaken⟩ := h.taken_cons byte rest
      have hanswer : writer.answer (byte :: rest) =
          .given (.accepted ((rest.take more).length + 1)) := by
        simp [answer, h.goesRight, htaken, h.overclaim]
      have hwritten : (writer.write (byte :: rest)).plan = writer.plan ∧
          (writer.write (byte :: rest)).data.toList =
            writer.data.toList ++ byte :: rest.take more := by
        simp [write, h.goesRight, htaken]
      have hdrop : rest.drop (rest.take more).length = rest.drop more := by
        rw [List.length_take]
        rcases le_total more rest.length with hle | hle
        · rw [Nat.min_eq_left hle]
        · rw [Nat.min_eq_right hle, List.drop_length, List.drop_of_length_le hle]
      have htakes : (writer.write (byte :: rest)).plan.TakesAll := hwritten.1.symm ▸ h
      obtain ⟨after, hafter, hplan, hdata⟩ := ih (rest.drop more).length
        (by rw [← hlength, List.length_drop, List.length_cons]; omega) htakes (rest.drop more) rfl
      refine ⟨after, ?_, hplan.trans hwritten.1, ?_⟩
      · rw [receive_of_given hanswer]
        dsimp only
        rw [hdrop]
        exact hafter
      · rw [hdata, hwritten.2]
        simp [List.take_append_drop]

/-! ### Threads that let lines through -/

namespace Policy

/-- The policy takes every line that reaches it. -/
def TakesAll : Policy → Prop
  | { sink := .diagnostics, .. } => True
  | { sink := .writer writer, .. } => writer.plan.TakesAll

/-- What the writer of a policy has taken so far. -/
def taken : Policy → List UInt8
  | { sink := .diagnostics, .. } => []
  | { sink := .writer writer, .. } => writer.data.toList

/-- The policy as it was made, before its writer took anything. -/
def fresh : Policy → Policy
  | { settings, sink := .diagnostics } => { settings, sink := .diagnostics }
  | { settings, sink := .writer writer } => { settings, sink := .writer { plan := writer.plan } }

section Fresh

variable (policy : Policy)

@[simp] theorem settings_fresh : policy.fresh.settings = policy.settings := by
  rcases policy with ⟨settings, _ | writer⟩ <;> rfl

@[simp] theorem takesAll_fresh : policy.fresh.TakesAll ↔ policy.TakesAll := by
  rcases policy with ⟨settings, _ | writer⟩ <;> rfl

@[simp] theorem emission_fresh : policy.fresh.emission = policy.emission := by
  rcases policy with ⟨settings, _ | writer⟩ <;> rfl

end Fresh

end Policy

/-- The override leaves every line to the link below, or puts it out. A script leaves lines alone,
or handles them by handing them on as they are. -/
def Override.Conducts : Override → Prop
  | .script program =>
    program.onLine = none ∨ ∃ source, program.onLine = some [.delegate source {}]
  | .transparent | .context _ | .bridge _ | .policy _ => True

namespace Machine

/-- What the writer of a policy has taken so far. -/
def taken (machine : Machine) (index : ℕ) : List UInt8 :=
  (machine.thread.policies[index]?.map Policy.taken).getD []

/-- All overrides in place are alive, leave lines alone or put them out, and the policies among them
take every line. -/
structure Conducts (machine : Machine) : Prop where
  /-- The overrides are alive, and no line ends at a script. -/
  overrides : ∀ installed ∈ machine.thread.stack.entries, ∃ override,
    machine.Owned installed.override override ∧ override.Conducts
  /-- The policies are there and take everything. -/
  policies : ∀ installed ∈ machine.thread.stack.entries, ∀ index,
    machine.Owned installed.override (.policy index) →
      ∃ policy, machine.thread.policies[index]? = some policy ∧ policy.TakesAll

/-- A part puts out just these emissions, in order: the transcript and what the writers have taken
grow by them. Policies and the settings of the process are as before. -/
structure Puts (machine after : Machine) (emissions : List Emission) : Prop where
  transcript : after.process.transcript =
    machine.process.transcript ++ emissions.flatMap Emission.signs
  taken (index : ℕ) : after.taken index =
    machine.taken index ++ emissions.flatMap (Emission.bytesFor index)
  policies : after.thread.policies.map Policy.fresh = machine.thread.policies.map Policy.fresh
  effectiveSettings : after.process.effectiveSettings = machine.process.effectiveSettings
  hooked : after.process.hooked = machine.process.hooked

namespace Puts

variable {machine after last : Machine} {emissions more : List Emission}

theorem refl (machine : Machine) : machine.Puts machine [] :=
  ⟨by simp, by simp, rfl, rfl, rfl⟩

theorem trans (h : machine.Puts after emissions) (hlast : after.Puts last more) :
    machine.Puts last (emissions ++ more) where
  transcript := by simp [hlast.transcript, h.transcript]
  taken index := by simp [hlast.taken, h.taken]
  policies := hlast.policies.trans h.policies
  effectiveSettings := hlast.effectiveSettings.trans h.effectiveSettings
  hooked := hlast.hooked.trans h.hooked

/-- Text on the diagnostic stream. -/
theorem of_written {process : Process} {text : String}
    (h : machine.process.Shows process text [])
    (hgrows : machine.process.transcript <+: process.transcript) :
    machine.Puts { machine with process } [.diagnostics text] where
  transcript := by
    rw [List.flatMap_singleton]
    exact h.transcript_of_written hgrows
  taken index := (List.append_nil _).symm
  policies := rfl
  effectiveSettings := h.effectiveSettings
  hooked := h.hooked

/-- A line in the log of the program. -/
theorem of_forwarded {process : Process} {level : Level} {text : String}
    (h : machine.process.Shows process "" [(level, text)])
    (hgrows : machine.process.transcript <+: process.transcript) :
    machine.Puts { machine with process } [.log level text] where
  transcript := by
    rw [List.flatMap_singleton]
    exact h.transcript_of_forwarded hgrows
  taken index := (List.append_nil _).symm
  policies := rfl
  effectiveSettings := h.effectiveSettings
  hooked := h.hooked

end Puts

end Machine

/-! ### The end of a line -/

section Outlet

variable {machine : Machine} {sent : Line} {stop : ChainEnd}

/-- The outlet of a chain that conducts lines takes them. -/
def Machine.Takes (machine : Machine) : ChainEnd → Prop
  | .policy index => ∃ policy, machine.thread.policies[index]? = some policy ∧ policy.TakesAll
  | .swallowed => False
  | .forwarded _ | .root => True

/-- Assumes: an outlet takes lines. Then nothing is raised there. -/
theorem Machine.raised_lineOutcome (htakes : machine.Takes stop) (sent : Line) :
    (machine.lineOutcome sent stop).raised = none := by
  rcases stop with _ | level | index | _
  · exact htakes.elim
  · rfl
  · obtain ⟨⟨settings, _ | writer⟩, hpolicy, htakes⟩ := htakes
    · simp [lineOutcome, hpolicy, sinkOutcome]
    · obtain ⟨after, hafter, -⟩ := ScriptedWriter.receive_of_takesAll htakes
        (utf8Bytes (String.ofList (List.replicate sent.depth.toNat settings.indent) ++ sent.text))
      simp [lineOutcome, hpolicy, sinkOutcome, hafter]
  · rfl

/-- A writer that takes a line is the only thing that changes among the policies. -/
theorem Machine.puts_withWriter {index : ℕ} {settings : Settings} {writer taken : ScriptedWriter}
    {text : String} {process : Process}
    (hpolicy : machine.thread.policies[index]? = some { settings, sink := .writer writer })
    (hplan : taken.plan = writer.plan)
    (hdata : taken.data.toList = writer.data.toList ++ utf8Bytes text)
    (hprocess : machine.process.Alike process)
    (hgrows : machine.process.transcript <+: process.transcript) :
    machine.Puts { process, thread := { machine.thread with
      policies := (machine.withWriter index settings taken).thread.policies } }
      [.writer index text] where
  transcript := hprocess.transcript_of_written hgrows
  taken other := by
    have hwritten := policies_withWriter hpolicy taken
    unfold Machine.taken
    dsimp only
    by_cases hother : index = other
    · rw [← hother, hwritten, hpolicy]
      simp [Emission.bytesFor, Policy.taken, hdata]
    · have hkept : (machine.withWriter index settings taken).thread.policies[other]? =
          machine.thread.policies[other]? := Array.getElem?_setIfInBounds_ne hother
      rw [hkept]
      simp [Emission.bytesFor, hother]
  policies := by
    have hlt : index < machine.thread.policies.size := (Array.getElem?_eq_some_iff.mp hpolicy).1
    apply Array.ext_getElem?
    intro other
    rw [Array.getElem?_map, Array.getElem?_map]
    by_cases hother : index = other
    · have hwritten := policies_withWriter hpolicy taken
      dsimp only
      rw [← hother, hwritten, hpolicy]
      simp [Policy.fresh, hplan]
    · have hkept : (machine.withWriter index settings taken).thread.policies[other]? =
          machine.thread.policies[other]? := Array.getElem?_setIfInBounds_ne hother
      dsimp only
      rw [hkept]
  effectiveSettings := hprocess.effectiveSettings
  hooked := hprocess.hooked

/-- What comes of a line at an outlet that takes it is its emission. -/
theorem Machine.puts_lineOutcome (htakes : machine.Takes stop) {process : Process}
    (hshows : machine.process.Shows process (machine.lineOutcome sent stop).written
      (machine.lineOutcome sent stop).forwarded)
    (hgrows : machine.process.transcript <+: process.transcript) :
    machine.Puts { process, thread := { machine.thread with
      policies := (machine.lineOutcome sent stop).policies } }
      [emissionAt machine.process.effectiveSettings machine.thread.policies sent sent.depth.toNat
        stop] := by
  rcases stop with _ | level | index | _
  · exact htakes.elim
  · exact .of_forwarded hshows hgrows
  · obtain ⟨⟨settings, _ | writer⟩, hpolicy, htakes⟩ := htakes
    · simp only [lineOutcome, hpolicy, sinkOutcome, emissionAt] at hshows ⊢
      exact .of_written hshows hgrows
    · obtain ⟨after, hafter, hplan, hdata⟩ := ScriptedWriter.receive_of_takesAll htakes
        (utf8Bytes (String.ofList (List.replicate sent.depth.toNat settings.indent) ++ sent.text))
      simp only [lineOutcome, hpolicy, sinkOutcome, hafter, emissionAt] at hshows ⊢
      exact puts_withWriter hpolicy hplan hdata hshows hgrows
  · exact .of_written hshows hgrows

end Outlet

/-! ### Operations that are not refused -/

namespace Run

section Attempts

variable {machine after : Machine}

/-- The answer of an operation is recorded. -/
theorem attempt_of_ok {op : Op} {action : Attempt Answer} {answer : Answer}
    (h : action.run machine = .ok (.ok answer) after) : attempt op action machine =
      .ok () { after with process := after.process.recorded (.performed op.name answer) } := by
  unfold attempt
  rw [bind_of_ok h]
  exact record_eq _ after

end Attempts

/-! ### A script that hands lines on -/

section Delegate

variable {machine reached : Machine} {program : Script} {source : Source} {sent : Line}
  {next : Link} {outcome : Outcome} {depth : ℕ}

/-- The line that is being handled, where nothing is to be changed about it. -/
theorem findEvent_of_handled {handling : Handling} (hevent : handling.event = .line sent)
    (hhandling : reached.thread.handling = some handling) :
    (findEvent .line source {}).run reached = .ok (.ok (.line sent)) reached := by
  have hhandled : handledLine? reached = .ok (some sent) reached := by
    have hread : thread reached = .ok reached.thread reached := rfl
    obtain ⟨event, next⟩ := handling
    cases hevent
    unfold handledLine?
    rw [bind_of_ok hread, hhandling]
    rfl
  have hbuilt : (buildLine {}).run reached = .ok (.ok sent) reached := by
    unfold buildLine
    rw [run_bind_of_ok (run_liftM_of_ok hhandled)]
    have htext : "" ++ sent.text ++ "" = sent.text := by simp
    change EStateM.Result.ok (Except.ok { sent with text := "" ++ sent.text ++ "" }) reached = _
    rw [htext]
  unfold findEvent
  rw [run_bind_of_ok hbuilt]
  rfl

/-- Assumes: where a line is handed on to, it comes out without a raise. Then it comes out in the
same way where a script does nothing but hand it on. -/
theorem comesOut_handleBy_of_delegate (hhandler : program.onLine = some [.delegate source {}])
    (hquiet : outcome.raised = none) (hmidway : machine.Midway reached)
    (hnext : ∀ {inside}, machine.Midway inside →
      ComesOut (Interpreter.run depth (.deliver (.line sent) next)) inside outcome) :
    ComesOut (handleBy (Interpreter.run (depth + 1)) (.script program) (.line sent) next) reached
      outcome := by
  refine .behind_record ⟨rfl, rfl⟩ fun received halike ↦ ?_
  have hops : program.handler (Event.line sent).kind = some [.delegate source {}] := hhandler
  rw [hops]
  let handling : Machine :=
    { process := received
      thread := { reached.thread with handling := some { event := .line sent, next } } }
  let entered : Machine := { handling with
    thread := { handling.thread with frames := [] :: reached.thread.frames } }
  have hinside : machine.Midway entered :=
    ⟨hmidway.stack, hmidway.policies, hmidway.unwinding, hmidway.name, hmidway.owned,
      hmidway.process.shows halike⟩
  obtain ⟨process, hdelivered, hshows⟩ := hnext hinside
  rw [Outcome.result, hquiet] at hdelivered
  have hread : thread entered = .ok entered.thread entered := rfl
  have haction : (do
      let handling ← require .notHandling (← thread).handling
      Interpreter.run depth
        (.deliver (← findEvent handling.event.kind source {}) handling.next)
      return .returned : Attempt Answer).run entered = .ok (.ok .returned)
        { process, thread := { entered.thread with policies := outcome.policies } } := by
    rw [run_bind_of_ok (run_liftM_of_ok hread)]
    change ((findEvent .line source {} >>= fun event ↦ do
      Interpreter.run depth (.deliver event next)
      return .returned : Attempt Answer)).run entered = _
    rw [run_bind_of_ok (findEvent_of_handled rfl rfl), run_bind_of_ok (run_liftM_of_ok hdelivered)]
    rfl
  let done : Machine :=
    { process := process.recorded (.performed (Op.delegate source {}).name .returned)
      thread := { entered.thread with policies := outcome.policies } }
  have hlist : List.forM [Op.delegate source {}]
      (fun op ↦ Interpreter.run (depth + 1) (.perform op)) entered = .ok () done := by
    rw [List.forM_eq_forM, List.forM_cons]
    exact bind_of_ok (attempt_of_ok haction)
  refine ⟨done.process, ?_, ?_⟩
  · have hran := (runList_eq (Interpreter.run (depth + 1)) _ handling).trans
      (andFinally_of_ok hlist (closesEmpty_run depth done _ rfl))
    rw [Outcome.result, hquiet]
    exact (withHandling_eq _ _ _).trans (andFinally_of_ok hran rfl)
  · have hperformed : Record.Silent (.performed (Op.delegate source {}).name .returned) :=
      ⟨rfl, rfl⟩
    simpa using hshows.trans (process.alike_recorded hperformed)

end Delegate

end Run

/-! ### The way of a line -/

section Chain

variable {override : Override} {rest : List Override} {stop : ChainEnd}

theorem outlet_cons_of_end (h : override.outlet? = some stop) :
    outlet (override :: rest) = stop := by
  simp [outlet, h]

theorem outlet_cons_of_pass (h : override.outlet? = none) :
    outlet (override :: rest) = outlet rest := by
  simp [outlet, h]

theorem contextsPassed_cons_of_end (h : override.outlet? = some stop) :
    contextsPassed (override :: rest) = 0 := by
  simp [contextsPassed, h]

theorem contextsPassed_cons_of_pass (h : override.outlet? = none) :
    contextsPassed (override :: rest) = contextsPassed rest + override.isContext.toNat := by
  unfold contextsPassed
  rw [List.takeWhile_cons_of_pos (by simp [h]), List.countP_cons]
  cases override.isContext <;> rfl

/-- Where lines come out is where they end, and nothing else is done there. -/
theorem Override.plain_of_outlet (h : override.outlet? = some stop) :
    override.Plain ∧ override.endFor? .line = some stop := by
  cases override with
  | bridge level => exact ⟨trivial, h⟩
  | policy index => exact ⟨trivial, h⟩
  | _ => exact absurd h (by simp [Override.outlet?])

/-- An override that a line passes leaves it alone, or is a script that hands it on. -/
theorem Override.Conducts.cases (h : override.Conducts) (hpass : override.outlet? = none) :
    override.endFor? .line = none ∨ ∃ program source, override = .script program ∧
      program.onLine = some [.delegate source {}] := by
  cases override with
  | script program =>
    rcases h with hnone | ⟨source, hdelegate⟩
    · left
      simp [Override.endFor?, Script.handler, hnone]
    · exact .inr ⟨program, source, rfl, hdelegate⟩
  | bridge level => simp [Override.outlet?] at hpass
  | policy index => simp [Override.outlet?] at hpass
  | _ => exact .inl rfl

/-- A line that passes an annotating override is nested once. -/
theorem Event.passThrough_remark (override : Override) (sent : Line) :
    (Event.line sent).passThrough override.remark?.toList =
      .line { sent with depth := deeper^[override.isContext.toNat] sent.depth } := by
  cases override <;> rfl

end Chain

section Walk

variable {machine reached : Machine} {link : Link} {depth : ℕ}

/-- The overrides of a chain are in place. -/
theorem Machine.exists_of_mem_chain {override : Override} (h : override ∈ machine.chain link) :
    ∃ installed ∈ machine.thread.stack.entries,
      machine.overrideOf? installed.override = some override := by
  obtain ⟨height, rfl⟩ := link.eq_below
  by_cases hheight : height ≤ machine.thread.stack.height
  · rw [chain_below hheight, List.mem_filterMap] at h
    obtain ⟨installed, hinstalled, hoverride⟩ := h
    have hmem := List.mem_of_mem_take (List.mem_reverse.mp hinstalled)
    exact ⟨installed, Array.mem_toList_iff.mp hmem, hoverride⟩
  · have hresolve : machine.thread.stack.resolve (Link.below height) = none := by
      obtain ⟨depth, rfl⟩ := Nat.exists_eq_add_one_of_ne_zero (show height ≠ 0 by omega)
      have hsize : machine.thread.stack.entries.size ≤ depth := by
        have hdef : machine.thread.stack.height = machine.thread.stack.entries.size := rfl
        omega
      simp [Stack.resolve, Link.below_succ, hsize]
    rw [machine.chain_of_resolve_none hresolve] at h
    exact absurd h (by simp)

/-- Lines are taken wherever they come out. -/
theorem Machine.Conducts.takes (hconducts : machine.Conducts) (link : Link) :
    machine.Takes (outlet (machine.chain link)) := by
  unfold outlet
  rcases hfound : (machine.chain link).findSome? Override.outlet? with _ | stop
  · trivial
  · obtain ⟨override, hmem, hstop⟩ := List.exists_of_findSome?_eq_some hfound
    rcases stop with _ | level | index | _
    · cases override <;> simp [Override.outlet?] at hstop
    · trivial
    · have hpolicy : override = .policy index := by
        cases override <;> simp_all [Override.outlet?]
      obtain ⟨installed, hinstalled, hoverride⟩ : ∃ installed ∈ machine.thread.stack.entries,
          machine.overrideOf? installed.override = some (.policy index) := by
        exact machine.exists_of_mem_chain (hpolicy ▸ hmem)
      obtain ⟨other, howned, -⟩ := hconducts.overrides installed hinstalled
      rw [howned.overrideOf_eq, Option.some.injEq] at hoverride
      exact hconducts.policies installed hinstalled index (hoverride ▸ howned)
    · trivial

/-- A line that is sent to a link of a thread that conducts lines comes out at its outlet, nested
once for each annotating override on the way. Each override takes two levels of nesting at most. -/
theorem Interpreter.comesOut_line_of_conducts (hconducts : machine.Conducts)
    (hmidway : machine.Midway reached) (sent : Line)
    (hdepth : 2 * (machine.chain link).length < depth) :
    Run.ComesOut (run depth (.deliver (.line sent) link)) reached
      (machine.lineOutcome
        { sent with depth := deeper^[contextsPassed (machine.chain link)] sent.depth }
        (outlet (machine.chain link))) := by
  obtain ⟨height, rfl⟩ := link.eq_below
  obtain ⟨depth, rfl⟩ := Nat.exists_eq_add_one_of_ne_zero (Nat.ne_zero_of_lt hdepth)
  -- The link below an override has the height of the override, so the induction is on heights.
  induction height generalizing sent reached depth with
  | zero =>
    exact Run.comesOut_deliver_of_none hmidway rfl
      (Run.comesOut_finish_line hmidway (run depth) sent .root)
  | succ height ih =>
    rcases hentry : machine.thread.stack.entries[height]? with _ | installed
    · have hresolve : machine.thread.stack.resolve (.override height) = none := by
        simp [Stack.resolve, hentry]
      rw [Link.below_succ, machine.chain_of_resolve_none hresolve]
      exact Run.comesOut_deliver_of_none hmidway hresolve
        (Run.comesOut_finish_line hmidway (run depth) sent .root)
    · obtain ⟨override, howned, hoverride⟩ :=
        hconducts.overrides installed (Array.mem_of_getElem? hentry)
      have hchain := Machine.chain_of_entry hentry howned.overrideOf_eq
      rw [Link.below_succ, hchain] at hdepth ⊢
      rw [List.length_cons] at hdepth
      obtain ⟨inner, rfl⟩ := Nat.exists_eq_add_of_le' (show 2 ≤ depth by omega)
      refine Run.comesOut_deliver_of_entry hmidway hentry howned fun {inside} hinside ↦ ?_
      rcases hstop : override.outlet? with _ | stop
      · have htakes := hconducts.takes (Link.below (height + 1))
        rw [Link.below_succ, hchain] at htakes
        rw [outlet_cons_of_pass hstop] at htakes ⊢
        rw [contextsPassed_cons_of_pass hstop, Function.iterate_add_apply]
        rcases hoverride.cases hstop with hpass | ⟨program, source, rfl, hhandler⟩
        · refine Run.comesOut_handleBy_of_pass hpass fun process halike ↦ ?_
          rw [Event.passThrough_remark]
          exact ih (hinside.behind halike) _ (inner + 1) (by omega)
        · refine Run.comesOut_handleBy_of_delegate hhandler
            (machine.raised_lineOutcome htakes _) hinside fun {moment} hmoment ↦ ?_
          exact ih hmoment _ inner (by omega)
      · obtain ⟨hplain, hend⟩ := Override.plain_of_outlet hstop
        rw [outlet_cons_of_end hstop, contextsPassed_cons_of_end hstop]
        refine Run.comesOut_handleBy_of_end hplain hend fun process halike ↦ ?_
        exact Run.comesOut_finish_line (hinside.behind halike) _ sent stop

/-- A line that is sent to a thread that conducts lines puts out its emission, and nothing else of
the thread changes. -/
theorem Interpreter.puts_line (hconducts : machine.Conducts) (sent : Line) (link : Link)
    (hdepth : 2 * (machine.chain link).length < depth) :
    ∃ after, run depth (.deliver (.line sent) link) machine = .ok () after ∧
      machine.Puts after [machine.emission sent link] ∧
      after.thread = { machine.thread with policies := after.thread.policies } := by
  have htakes := hconducts.takes link
  obtain ⟨process, hend, hshows⟩ := comesOut_line_of_conducts hconducts (.refl machine) sent hdepth
  rw [Outcome.result, machine.raised_lineOutcome htakes] at hend
  have hgrows := transcript_grows depth (.deliver (.line sent) link) machine
  rw [hend] at hgrows
  have hputs := machine.puts_lineOutcome htakes hshows hgrows
  rw [toNat_iterate_deeper] at hputs
  exact ⟨_, hend, hputs, rfl⟩

end Walk

/-! ### Line after line -/

section Lines

variable {machine after : Machine} {emissions : List Emission}

/-- The policies are those there were, apart from what their writers have taken. -/
theorem Machine.Puts.policy (h : machine.Puts after emissions) (index : ℕ) :
    machine.thread.policies[index]? = none ∧ after.thread.policies[index]? = none ∨
      ∃ policy other, machine.thread.policies[index]? = some policy ∧
        after.thread.policies[index]? = some other ∧ other.fresh = policy.fresh := by
  have hfresh := congrArg (fun policies : Array Policy ↦ policies[index]?) h.policies
  rw [Array.getElem?_map, Array.getElem?_map] at hfresh
  rcases hbefore : machine.thread.policies[index]? with _ | policy
  · rw [hbefore] at hfresh
    exact .inl ⟨rfl, by simpa using hfresh⟩
  · rw [hbefore] at hfresh
    obtain ⟨other, hother, heq⟩ := Option.map_eq_some_iff.mp hfresh
    exact .inr ⟨policy, other, rfl, hother, heq⟩

/-- A line comes out in the same way whatever came out before it. -/
theorem Machine.Puts.emissionAt_eq (h : machine.Puts after emissions) (sent : Line) (depth : ℕ)
    (stop : ChainEnd) :
    emissionAt after.process.effectiveSettings after.thread.policies sent depth stop =
      emissionAt machine.process.effectiveSettings machine.thread.policies sent depth stop := by
  cases stop with
  | policy index =>
    obtain ⟨hbefore, hafter⟩ | ⟨policy, other, hbefore, hafter, hfresh⟩ := h.policy index
    · simp [emissionAt, hbefore, hafter]
    · have hsettings : other.settings = policy.settings := by
        rw [← other.settings_fresh, hfresh, policy.settings_fresh]
      have hemission : other.emission = policy.emission := by
        rw [← other.emission_fresh, hfresh, policy.emission_fresh]
      simp [emissionAt, hbefore, hafter, hsettings, hemission]
  | _ => simp [emissionAt, h.effectiveSettings]

theorem Machine.Conducts.of_puts (hconducts : machine.Conducts) (h : machine.Puts after emissions)
    (hthread : after.thread = { machine.thread with policies := after.thread.policies }) :
    after.Conducts := by
  have hstack : after.thread.stack = machine.thread.stack := by rw [hthread]
  have howned (object : ObjectId) (override : Override) :
      after.Owned object override ↔ machine.Owned object override := by
    unfold Owned
    rw [hthread]
  refine ⟨fun installed hinstalled ↦ ?_, fun installed hinstalled index hpolicy ↦ ?_⟩
  · rw [hstack] at hinstalled
    simp only [howned]
    exact hconducts.overrides installed hinstalled
  · rw [hstack] at hinstalled
    rw [howned] at hpolicy
    obtain ⟨policy, hbefore, htakes⟩ := hconducts.policies installed hinstalled index hpolicy
    obtain ⟨hnone, -⟩ | ⟨other, now, hother, hnow, hfresh⟩ := h.policy index
    · rw [hnone] at hbefore
      cases hbefore
    · rw [hother] at hbefore
      cases hbefore
      refine ⟨now, hnow, ?_⟩
      rwa [← Policy.takesAll_fresh, hfresh, Policy.takesAll_fresh]

/-- **Every line comes out once.** Assumes: overrides leave lines alone or put them out, and the
writers of policies take everything; each override in place has two levels of nesting. Then sending
lines to any links returns. What comes out is the emission of each line, in order, and nothing
besides: the transcript of the process and the bytes that each writer has taken grow by just those,
and nothing else of the thread changes. -/
theorem lines_come_out {depth : ℕ} (hconducts : machine.Conducts)
    (hdepth : 2 * machine.thread.stack.height < depth) (sends : List (Line × Link)) :
    ∃ after, (sends.forM fun send ↦
        Interpreter.run depth (.deliver (.line send.1) send.2)) machine = .ok () after ∧
      machine.Puts after (sends.map fun send ↦ machine.emission send.1 send.2) ∧
      after.thread = { machine.thread with policies := after.thread.policies } := by
  induction sends generalizing machine with
  | nil => exact ⟨machine, rfl, .refl machine, rfl⟩
  | cons send rest ih =>
    have hlength := machine.length_chain_le send.2
    obtain ⟨middle, hsend, hputs, hthread⟩ :=
      Interpreter.puts_line hconducts send.1 send.2 (show _ < depth by omega)
    have hemission (other : Line × Link) :
        middle.emission other.1 other.2 = machine.emission other.1 other.2 := by
      have hchain : middle.chain other.2 = machine.chain other.2 := by
        unfold Machine.chain Machine.overrideOf?
        rw [hthread]
      unfold Machine.emission emissionOn
      rw [hchain, hputs.emissionAt_eq]
    obtain ⟨after, hrest, hputsRest, hthreadRest⟩ :=
      ih (hconducts.of_puts hputs hthread) (by rw [hthread]; exact hdepth)
    simp only [hemission] at hputsRest
    refine ⟨after, ?_, hputs.trans hputsRest, ?_⟩
    · rw [List.forM_eq_forM, List.forM_cons, Run.bind_of_ok hsend]
      exact hrest
    · rw [hthreadRest, hthread]

/-- A line passes an annotating override, a script that hands it on and another annotating override,
and is written by a policy behind three marks, as it is. The same line passes an annotating override
and is forwarded behind two marks, without the line ends at its end. One sent beyond the top meets
no override. -/
theorem lines_come_out_nested :
    let remark : Remark := { site := { file := "a.rs", line := 1 }, description := "reading" }
    let plan : WriterPlan := { chunk := some 2 }
    let handsOn : Script := { name := "s", onLine := some [.delegate .handled {}] }
    let machine : Machine :=
      { thread :=
        { stack :=
          { entries := #[{ generation := 0, override := 0 }, { generation := 1, override := 1 },
              { generation := 2, override := 2 }, { generation := 3, override := 1 },
              { generation := 4, override := 3 }, { generation := 5, override := 1 }]
            nextGeneration := 6 }
          objects :=
            #[{ override := .policy 0, owners := 1 }, { override := .context remark, owners := 3 },
              { override := .script handsOn, owners := 1 },
              { override := .bridge .info, owners := 1 }]
          policies :=
            #[{ settings := { throwing := true, indent := '>' }, sink := .writer { plan } }] } }
    let sent : Line :=
      { site := { file := "b.rs", line := 2 }, depth := 1, text := "one\n\ntwo\n\n\n" }
    machine.Conducts ∧ 2 * machine.thread.stack.height < 13 ∧
      ∃ after, ([(sent, Link.override 3), (sent, Link.override 5), (sent, Link.override 6)].forM
          fun send ↦ Interpreter.run 13 (.deliver (.line send.1) send.2)) machine = .ok () after ∧
        machine.Puts after [.writer 0 ">>>one\n\ntwo\n\n\n", .log .info "b.rs:2: __one\n\ntwo",
          .diagnostics "_one\n\ntwo\n\n\n"] := by
  intro remark plan handsOn machine sent
  have hcases {installed : Installed ObjectId} (h : installed ∈ machine.thread.stack.entries) :
      installed.override = 0 ∨ installed.override = 1 ∨ installed.override = 2 ∨
        installed.override = 3 := by
    have hmem : installed ∈ [{ generation := 0, override := 0 }, { generation := 1, override := 1 },
        { generation := 2, override := 2 }, { generation := 3, override := 1 },
        { generation := 4, override := 3 }, { generation := 5, override := 1 }] :=
      Array.mem_toList_iff.mpr h
    fin_cases hmem <;> simp
  have hplan : plan.TakesAll := ⟨fun call ↦ rfl, by decide, rfl⟩
  have hconducts : machine.Conducts := by
    constructor
    · intro installed hinstalled
      rcases hcases hinstalled with h | h | h | h <;> rw [h]
      · exact ⟨.policy 0, ⟨_, rfl, rfl, Nat.one_pos⟩, trivial⟩
      · exact ⟨.context remark, ⟨_, rfl, rfl, Nat.succ_pos 2⟩, trivial⟩
      · exact ⟨.script handsOn, ⟨_, rfl, rfl, Nat.one_pos⟩, .inr ⟨.handled, rfl⟩⟩
      · exact ⟨.bridge .info, ⟨_, rfl, rfl, Nat.one_pos⟩, trivial⟩
    · rintro installed hinstalled index ⟨held, hheld, hoverride, -⟩
      rcases hcases hinstalled with h | h | h | h <;> rw [h] at hheld <;> cases hheld <;>
        cases hoverride
      exact ⟨_, rfl, hplan⟩
  have hdepth : 2 * machine.thread.stack.height < 13 := by decide
  let sends : List (Line × Link) := [(sent, .override 3), (sent, .override 5), (sent, .override 6)]
  have hemissions : sends.map (fun send ↦ machine.emission send.1 send.2) =
      [.writer 0 ">>>one\n\ntwo\n\n\n", .log .info "b.rs:2: __one\n\ntwo",
        .diagnostics "_one\n\ntwo\n\n\n"] := by decide +kernel
  obtain ⟨after, hafter, hputs, -⟩ := lines_come_out hconducts hdepth sends
  rw [hemissions] at hputs
  exact ⟨hconducts, hdepth, after, hafter, hputs⟩

end Lines

end Escalation
