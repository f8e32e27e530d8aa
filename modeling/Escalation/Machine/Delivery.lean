import Escalation.Machine.Overrides
import Escalation.Policy.Verdict

/-!
# Delivering events

An event that is delivered to a link goes to the override that the link means at that moment, or to
the policy of the process (`Run.deliver`). The override is kept alive until its handler has
returned or was unwound. What it does with the event (`Run.handleBy`) may send it on to the link
below, which is looked up only then.

A policy raises a failure or logs it (`Run.conclude`). Logging a failure does not write it: it sends
the text of the failure as a line to the top of the chain, so that overrides see it like any other
line (`Run.logFailure`). A line that reaches a policy is written to its sink.
-/

set_option autoImplicit false
set_option relaxedAutoImplicit false

namespace Escalation

/-- The list that a script runs for a kind of event. -/
def Script.handler (script : Script) : EventKind → Option (List Op)
  | .failure .recoverable => script.onRecoverable
  | .failure .fatal => script.onFatal
  | .line => script.onLine

namespace Run

/-! ### Policies -/

/-- Sends a failure as a line to the top of the chain. -/
def logFailure (exec : Exec) (failure : Failure) : Run Unit := do
  exec (.deliver (.line failure.asLine) (← current))

/-- What a policy with these settings does with an event, where `write` writes a line to its
sink. -/
def conclude (exec : Exec) (settings : Settings) (write : Line → Run Unit) : Event → Run Unit
  | .line sent => write sent
  | .failure severity reported => do
    match settings.verdict severity (← isUnwinding) with
    | .raise =>
      let durability := match severity with
        | .recoverable => " durability=" ++ reported.durability.text
        | .fatal => ""
      let kind := match severity with
        | .recoverable => "recoverable"
        | .fatal => "fatal"
      traceEvent .debug rootTarget
        ("raising " ++ kind ++ " exception nature=" ++ reported.nature.text ++ durability)
      raise (.failure reported)
    | .log => logFailure exec reported
    | .logWhileUnwinding =>
      traceEvent .warn rootTarget
        ("already unwinding; logging recoverable exception instead of raising it file=" ++
          Text.quoted reported.site.file ++ " line=" ++ toString reported.site.line.toNat)
      logFailure exec reported

/-- What the writer of a policy answers when bytes are offered to it; a policy without one fails. -/
def answerOf (policy : Option Policy) (bytes : List UInt8) : ScriptedWriter.Answer :=
  match policy with
  | some { sink := .writer writer, .. } => writer.answer bytes
  | _ => .given .failed

/-- Changes the writer of a policy, if it has one. -/
def modifyWriter (index : Nat) (change : ScriptedWriter → ScriptedWriter) : Run Unit :=
  modifyThread fun thread ↦
    { thread with policies := thread.policies.modify index (Policy.mapWriter change) }

/-- Offers bytes to the writer of a policy. -/
def offer (index : Nat) (bytes : List UInt8) : Run WriteAnswer := do
  match answerOf (← thread).policies[index]? bytes with
  | .given answer =>
    modifyWriter index fun writer ↦ writer.write bytes
    return answer
  | .raised =>
    modifyWriter index fun writer ↦ writer.write bytes
    raise (.message "writer panicked")

/-- Flushes the writer of a policy. -/
def flush (index : Nat) : Run Unit := modifyWriter index ScriptedWriter.flush

/-- Hands an event to a policy of the thread. -/
def concludeBy (exec : Exec) (index : Nat) (event : Event) : Run Unit := do
  match (← thread).policies[index]? with
  | none => return
  | some policy =>
    let write (sent : Line) : Run Unit :=
      let text := Policy.lineText policy.settings sent.depth sent.text
      match policy.sink with
      | .diagnostics => writeDiagnostics text
      | .writer _ => writeFully (offer index) (flush index) (utf8Bytes text)
    conclude exec policy.settings write event

/-- Hands an event to the policy of the process. -/
def concludeAtRoot (exec : Exec) (event : Event) : Run Unit := do
  let settings ← rootSettings
  let write (sent : Line) : Run Unit :=
    writeDiagnostics (Policy.lineText settings sent.depth sent.text)
  conclude exec settings write event

/-! ### Overrides -/

/-- Sends a line to the log of the program, behind the marks of its level of nesting and without the
line ends at its end. -/
def forward (level : Level) (sent : Line) : Run Unit := do
  let settings ← settings
  record (.logged level bridgeTarget
    (sent.site.text ++ ": " ++
      Text.indent sent.depth.toNat settings.indent (Text.withoutLineEnds sent.text)))

/-- What an override does with an event, where `next` is the link below it. -/
def handleBy (exec : Exec) (override : Override) (event : Event) (next : Link) : Run Unit := do
  match override with
  | .transparent => exec (.deliver event next)
  | .context remark => exec (.deliver (event.annotate remark) next)
  | .bridge level =>
    match event with
    | .line sent => forward level sent
    | .failure .. => exec (.deliver event next)
  | .policy index => concludeBy exec index event
  | .script script =>
    record (.received script.name event next)
    match script.handler event.kind with
    | none => exec (.deliver event next)
    | some ops => withHandling (some { event, next }) (runList exec ops)

/-- Hands an event to what a link was found to mean. -/
def handOver (exec : Exec) (event : Event) : Option (ObjectId × Link) → Run Unit
  | none => concludeAtRoot exec event
  | some (object, next) => do
    match ← acquire object with
    | none => return
    | some override => andFinally (handleBy exec override event next) (relinquish exec object)

/-- Delivers an event to a link. -/
def deliver (exec : Exec) (event : Event) (link : Link) : Run Unit := do
  handOver exec event ((← thread).stack.resolve link)

end Run

end Escalation
