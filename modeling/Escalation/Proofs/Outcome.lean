import Escalation.Proofs.Chain

/-!
# What comes out of a delivery

What a delivery among plain overrides comes to is told by an outcome (`Outcome`): what it raises if
anything, what it writes to the diagnostic stream, the lines it sends to the log of the program, and
the policies of the thread behind it, whose writers may have taken something. A part of a run comes
out so (`Run.ComesOut`) if it returns or raises as the outcome says, shows just that to the outside,
and leaves all else of the thread as it was.

A line comes out at a policy as it is written to the sink of the policy
(`Run.comesOut_concludeBy_line`). Writers count as what they did before they raised or were done
(`ScriptedWriter.receive`). A failure comes out at a policy as a raise, or as what comes of its text
when that is sent as a line to the top of the chain (`Run.comesOut_conclude_failure`).
-/

set_option autoImplicit false
set_option relaxedAutoImplicit false

namespace Escalation

/-! ### Writers -/

namespace ScriptedWriter

/-- A scripted writer as a machine of its own, which fails where the writer raises. -/
def offer (bytes : List UInt8) : EStateM Unit ScriptedWriter WriteAnswer := fun writer ↦
  match writer.answer bytes with
  | .given answer => .ok answer (writer.write bytes)
  | .raised => .error () (writer.write bytes)

/-- A scripted writer takes a text of so many bytes, if it does. -/
def receive (bytes : List UInt8) : EStateM Unit ScriptedWriter Unit :=
  writeFully offer (modify ScriptedWriter.flush) bytes

section Receive

variable {writer : ScriptedWriter} {byte : UInt8} {rest : List UInt8}

theorem receive_cons (byte : UInt8) (rest : List UInt8) :
    receive (byte :: rest) = (do
      match ← offer (byte :: rest) with
      | .failed | .accepted 0 => pure ()
      | .accepted (more + 1) => receive (rest.drop more)) :=
  writeFully_cons _ _ byte rest

theorem receive_of_raised (h : writer.answer (byte :: rest) = .raised) :
    receive (byte :: rest) writer = .error () (writer.write (byte :: rest)) := by
  have hoffer : offer (byte :: rest) writer = .error () (writer.write (byte :: rest)) := by
    unfold offer
    rw [h]
  rw [receive_cons]
  change EStateM.bind (offer (byte :: rest)) _ writer = _
  unfold EStateM.bind
  rw [hoffer]

/-- A writer that answers is asked for what is left as its answer says. -/
theorem receive_of_given {answer : WriteAnswer} :
    writer.answer (byte :: rest) = .given answer → receive (byte :: rest) writer =
      (match answer with
      | .failed | .accepted 0 => pure ()
      | .accepted (more + 1) => receive (rest.drop more) : EStateM Unit ScriptedWriter Unit)
        (writer.write (byte :: rest)) := by
  intro h
  have hoffer : offer (byte :: rest) writer = .ok answer (writer.write (byte :: rest)) := by
    unfold offer
    rw [h]
  rw [receive_cons]
  change EStateM.bind (offer (byte :: rest)) _ writer = _
  unfold EStateM.bind
  rw [hoffer]

end Receive

end ScriptedWriter

/-- The machine with another writer in a policy with these settings. -/
def Machine.withWriter (machine : Machine) (index : ℕ) (settings : Settings)
    (writer : ScriptedWriter) : Machine :=
  { machine with thread := { machine.thread with
    policies := machine.thread.policies.setIfInBounds index { settings, sink := .writer writer } } }

section Writer

variable {machine : Machine} {index : ℕ} {settings : Settings} {writer : ScriptedWriter}
  {bytes : List UInt8}

theorem Machine.policies_withWriter
    (h : machine.thread.policies[index]? = some { settings, sink := .writer writer })
    (other : ScriptedWriter) :
    (machine.withWriter index settings other).thread.policies[index]? =
      some { settings, sink := .writer other } := by
  have hlt : index < machine.thread.policies.size := (Array.getElem?_eq_some_iff.mp h).1
  exact Array.getElem?_setIfInBounds_self_of_lt hlt

@[simp] theorem Machine.withWriter_withWriter (machine : Machine) (index : ℕ) (settings : Settings)
    (writer other : ScriptedWriter) :
    (machine.withWriter index settings writer).withWriter index settings other =
      machine.withWriter index settings other := by
  unfold Machine.withWriter
  dsimp only
  rw [Array.setIfInBounds_setIfInBounds]

/-- A change of the writer of a policy. -/
theorem Run.modifyWriter_eq
    (h : machine.thread.policies[index]? = some { settings, sink := .writer writer })
    (change : ScriptedWriter → ScriptedWriter) : modifyWriter index change machine =
      .ok () (machine.withWriter index settings (change writer)) := by
  have hmodify : machine.thread.policies.modify index (Policy.mapWriter change) =
      machine.thread.policies.setIfInBounds index
        { settings, sink := .writer (change writer) } := by
    apply Array.ext_getElem?
    intro place
    rw [Array.getElem?_modify, Array.getElem?_setIfInBounds]
    by_cases hplace : index = place
    · have hlt : index < machine.thread.policies.size := (Array.getElem?_eq_some_iff.mp h).1
      rw [if_pos hplace, if_pos hplace, if_pos hlt, ← hplace, h]
      rfl
    · rw [if_neg hplace, if_neg hplace]
  change EStateM.Result.ok () { machine with thread := { machine.thread with
    policies := machine.thread.policies.modify index (Policy.mapWriter change) } } = _
  rw [hmodify]
  rfl

/-- The writer of a policy is offered bytes as it answers alone. -/
theorem Run.offer_eq
    (h : machine.thread.policies[index]? = some { settings, sink := .writer writer })
    (bytes : List UInt8) : offer index bytes machine =
      match writer.answer bytes with
      | .given answer => .ok answer (machine.withWriter index settings (writer.write bytes))
      | .raised =>
        raise (.message "writer panicked")
          (machine.withWriter index settings (writer.write bytes)) := by
  have hwritten := modifyWriter_eq h fun writer ↦ writer.write bytes
  change (match answerOf machine.thread.policies[index]? bytes with
    | .given answer => do
      modifyWriter index fun writer ↦ writer.write bytes
      return answer
    | .raised => do
      modifyWriter index fun writer ↦ writer.write bytes
      raise (.message "writer panicked") : Run WriteAnswer) machine = _
  rw [h]
  change (match writer.answer bytes with
    | .given answer => _
    | .raised => _ : Run WriteAnswer) machine = _
  rcases writer.answer bytes with answer | _
  · exact bind_of_ok hwritten
  · exact bind_of_ok hwritten

/-- The writer of a policy takes part in a run as it does alone. -/
theorem Run.writeFully_offer
    (h : machine.thread.policies[index]? = some { settings, sink := .writer writer })
    (bytes : List UInt8) : writeFully (offer index) (flush index) bytes machine =
      match ScriptedWriter.receive bytes writer with
      | .ok _ after => .ok () (machine.withWriter index settings after)
      | .error _ after =>
        raise (.message "writer panicked") (machine.withWriter index settings after) := by
  induction hlength : bytes.length using Nat.strong_induction_on generalizing
    bytes machine writer with
  | _ length ih =>
    rcases bytes with _ | ⟨byte, rest⟩
    · unfold ScriptedWriter.receive
      rw [writeFully_nil, writeFully_nil]
      exact modifyWriter_eq h _
    · have hoffer := offer_eq h (byte :: rest)
      have hpolicy := Machine.policies_withWriter h (writer.write (byte :: rest))
      rw [writeFully_cons]
      rcases hanswer : writer.answer (byte :: rest) with answer | _
      · rw [hanswer] at hoffer
        rw [bind_of_ok hoffer, ScriptedWriter.receive_of_given hanswer]
        rcases answer with (_ | more) | _
        · rfl
        · have hshorter : (rest.drop more).length < length := by
            rw [← hlength, List.length_drop, List.length_cons]
            omega
          have hrest := ih _ hshorter hpolicy (rest.drop more) rfl
          simp only [Machine.withWriter_withWriter] at hrest
          exact hrest
        · rfl
      · rw [hanswer] at hoffer
        rw [ScriptedWriter.receive_of_raised hanswer, bind_of_raise hoffer]

end Writer

/-! ### Outcomes -/

/-- What comes of a delivery. -/
structure Outcome where
  /-- What is raised. -/
  raised : Option Payload := none
  /-- What is written to the diagnostic stream. -/
  written : String := ""
  /-- The lines that are sent to the log of the program. -/
  forwarded : List (Level × String) := []
  /-- The policies of the thread behind it. -/
  policies : Array Policy

namespace Outcome

/-- The end of a part with an outcome, where the process is `process` behind it. Apart from the
policies and the raises that are not caught yet, the thread is as it was. -/
def result (outcome : Outcome) (machine : Machine) (process : Process) :
    EStateM.Result Interrupt Machine Unit :=
  match outcome.raised with
  | none => .ok () { process, thread := { machine.thread with policies := outcome.policies } }
  | some payload => .error (.raised payload)
    { process
      thread := { machine.thread with
        policies := outcome.policies, unwinding := machine.thread.unwinding + 1 } }

end Outcome

namespace Run

/-- The part returns or raises as the outcome says, and shows just that. -/
def ComesOut (part : Run Unit) (machine : Machine) (outcome : Outcome) : Prop :=
  ∃ process, part machine = outcome.result machine process ∧
    machine.process.Shows process outcome.written outcome.forwarded

namespace ComesOut

variable {machine : Machine} {outcome : Outcome} {α : Type} {first : Run α} {next : α → Run Unit}
  {part : Run Unit} {value : α} {process : Process}

/-- A part that leaves all as it is comes to nothing. -/
theorem of_silent (h : part machine = .ok () { machine with process })
    (halike : machine.process.Alike process) :
    ComesOut part machine { policies := machine.thread.policies } := ⟨process, h, halike⟩

/-- A part behind a silent one comes out as both do. -/
theorem behind (hfirst : first machine = .ok value { machine with process })
    (halike : machine.process.Alike process)
    (hnext : ComesOut (next value) { machine with process } outcome) :
    ComesOut (first >>= next) machine outcome := by
  obtain ⟨last, hend, hshows⟩ := hnext
  exact ⟨last, (bind_of_ok hfirst).trans hend, halike.shows hshows⟩

/-- A silent record may be made first. -/
theorem behind_record {entry : Record} {next : Unit → Run Unit} (hsilent : entry.Silent)
    (hnext : ∀ process, machine.process.Alike process →
      ComesOut (next ()) { machine with process } outcome) :
    ComesOut (record entry >>= next) machine outcome := by
  have halike := machine.process.alike_recorded hsilent
  exact .behind (record_eq entry machine) halike (hnext _ halike)

end ComesOut

end Run

/-! ### What comes of events at the end of their chain -/

namespace Machine

/-- What comes of a text that is written to the sink of a policy. -/
def sinkOutcome (machine : Machine) (index : ℕ) (policy : Policy) (text : String) : Outcome :=
  match policy.sink with
  | .diagnostics => { written := text, policies := machine.thread.policies }
  | .writer writer =>
    match ScriptedWriter.receive (utf8Bytes text) writer with
    | .ok _ after =>
      { policies := (machine.withWriter index policy.settings after).thread.policies }
    | .error _ after =>
      { raised := some (.message "writer panicked")
        policies := (machine.withWriter index policy.settings after).thread.policies }

/-- What comes of a line at the end of its chain. Wherever it is written, the mark stands in front of
it, once for each level of nesting. -/
def lineOutcome (machine : Machine) (sent : Line) : ChainEnd → Outcome
  | .swallowed => { policies := machine.thread.policies }
  | .forwarded level =>
    { forwarded := [(level, Run.forwardedText machine.process.effectiveSettings sent)]
      policies := machine.thread.policies }
  | .policy index =>
    match machine.thread.policies[index]? with
    | none => { policies := machine.thread.policies }
    | some policy =>
      machine.sinkOutcome index policy
        (String.ofList (List.replicate sent.depth.toNat policy.settings.indent) ++ sent.text)
  | .root =>
    { written := String.ofList (List.replicate sent.depth.toNat
        machine.process.effectiveSettings.indent) ++ sent.text
      policies := machine.thread.policies }

/-- What comes of a line that is sent to a link. It is nested once for each remark that it
passes. -/
def sentOutcome (machine : Machine) (sent : Line) (link : Link) : Outcome :=
  let passed := (remarksPassed .line (machine.chain link)).length
  machine.lineOutcome { sent with depth := deeper^[passed] sent.depth }
    (chainEnd .line (machine.chain link))

/-- The settings that govern what becomes of a failure at the end of its chain, if a policy is
there. -/
def settingsAt (machine : Machine) : ChainEnd → Option Settings
  | .swallowed | .forwarded _ => none
  | .policy index => machine.thread.policies[index]?.map Policy.settings
  | .root => some machine.process.effectiveSettings

/-- What comes of a failure at the end of its chain. It is raised if the policy there says so; where
the policy says that it is logged, its text is sent as a line to the top of the chain. -/
def failureOutcome (machine : Machine) (severity : Severity) (reported : Failure)
    (stop : ChainEnd) : Outcome :=
  match machine.settingsAt stop with
  | none => { policies := machine.thread.policies }
  | some settings =>
    if settings.verdict severity (machine.thread.unwinding != 0) = .raise then
      { raised := some (.failure reported)
        written := Run.raiseText machine (.failure reported)
        policies := machine.thread.policies }
    else machine.sentOutcome
      { site := reported.site, depth := 0, text := reported.text ++ "\n" }
      machine.thread.stack.current

end Machine

namespace Run

section Lines

variable {machine : Machine}

/-- A text comes out at a policy as its sink takes it. -/
theorem comesOut_sink {index : ℕ} {policy : Policy}
    (hpolicy : machine.thread.policies[index]? = some policy) (text : String) :
    ComesOut (match policy.sink with
      | .diagnostics => writeDiagnostics text
      | .writer _ => writeFully (offer index) (flush index) (utf8Bytes text)) machine
      (machine.sinkOutcome index policy text) := by
  obtain ⟨settings, sink⟩ := policy
  rcases sink with _ | writer
  · exact writeDiagnostics_eq text machine
  · have hwritten := writeFully_offer hpolicy (utf8Bytes text)
    unfold Machine.sinkOutcome
    dsimp only
    rcases hreceive : ScriptedWriter.receive (utf8Bytes text) writer with ⟨_, after⟩ | ⟨_, after⟩
    · rw [hreceive] at hwritten
      exact ⟨machine.process, hwritten, Process.Alike.refl _⟩
    · rw [hreceive] at hwritten
      obtain ⟨process, hraise, hshows⟩ := raise_eq (α := Unit) (.message "writer panicked")
        (machine.withWriter index settings after)
      refine ⟨process, hwritten.trans hraise, ?_⟩
      have hsilent : raiseText (machine.withWriter index settings after)
          (.message "writer panicked") = "" := ite_self _
      rwa [hsilent] at hshows

/-- A line comes out at a policy of the thread as its sink takes it. -/
theorem comesOut_concludeBy_line (exec : Exec) (index : ℕ) (sent : Line) :
    ComesOut (concludeBy exec index (.line sent)) machine
      (machine.lineOutcome sent (.policy index)) := by
  have hread : thread machine = .ok machine.thread machine := rfl
  unfold concludeBy Machine.lineOutcome
  dsimp only
  rcases hpolicy : machine.thread.policies[index]? with _ | policy
  · refine .behind hread (.refl _) ?_
    dsimp only
    rw [hpolicy]
    exact .of_silent rfl (.refl _)
  · refine .behind hread (.refl _) ?_
    dsimp only
    rw [hpolicy]
    exact comesOut_sink hpolicy _

/-- A line comes out at the policy of the process as it is written to the diagnostic stream. -/
theorem comesOut_concludeAtRoot_line (exec : Exec) (sent : Line) :
    ComesOut (concludeAtRoot exec (.line sent)) machine (machine.lineOutcome sent .root) := by
  obtain ⟨process, hsettings, halike⟩ := rootSettings_eq machine
  exact .behind hsettings halike (writeDiagnostics_eq _ { machine with process })

end Lines

section Failures

variable {machine : Machine} {exec : Exec} {severity : Severity} {reported : Failure}
  {outcome : Outcome}

/-- Assumes: the text of a failure, sent as a line to the top of the chain, comes out in some way.
Then the failure comes out in that way at a policy that logs it, and as a raise at one that raises
it. -/
theorem comesOut_conclude_failure (settings : Settings) (write : Line → Run Unit)
    (hlog : ∀ process, machine.process.Alike process →
      ComesOut (exec (.deliver (.line reported.asLine) machine.thread.stack.current))
        { machine with process } outcome) :
    ComesOut (conclude exec settings write (.failure severity reported)) machine
      (if settings.verdict severity (machine.thread.unwinding != 0) = .raise then
        { raised := some (.failure reported)
          written := raiseText machine (.failure reported)
          policies := machine.thread.policies }
      else outcome) := by
  have hunwinding : isUnwinding machine = .ok (machine.thread.unwinding != 0) machine := rfl
  have htarget : rootTarget ≠ bridgeTarget := by decide
  refine .behind hunwinding (.refl _) ?_
  rcases hverdict : settings.verdict severity (machine.thread.unwinding != 0) with _ | _ | _
  · rw [if_pos rfl]
    dsimp only
    obtain ⟨process, htrace, halike⟩ := traceEvent_eq .debug htarget _ machine
    refine .behind htrace halike ?_
    obtain ⟨last, hraise, hshows⟩ := raise_eq (α := Unit) (.failure reported)
      { machine with process }
    have htext : raiseText { machine with process } (.failure reported) =
        raiseText machine (.failure reported) := by
      unfold raiseText
      rw [halike.hooked]
    rw [htext] at hshows
    exact ⟨last, hraise, hshows⟩
  · rw [if_neg (by decide)]
    exact hlog machine.process (.refl _)
  · rw [if_neg (by decide)]
    obtain ⟨process, htrace, halike⟩ := traceEvent_eq .warn htarget _ machine
    exact .behind htrace halike (hlog process halike)

end Failures

end Run

end Escalation
