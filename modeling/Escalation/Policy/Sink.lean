/-!
# Writing to the end

A writer is asked to take bytes and answers how many it took, or that it failed. `writeFully` keeps
offering what is left until everything is taken or the writer takes nothing or fails, and flushes
the writer once everything is taken; an empty text is flushed at once. A writer may claim more bytes
than it was offered; that counts as all of them.

The effects of the writer are those of an arbitrary monad, so a writer is any machine that answers.
Each round consumes at least one byte, so there are at most as many rounds as bytes.

`ScriptedWriter` is a writer whose misbehaviour is laid down in advance: from a certain call on, or
at certain calls, it fails, takes nothing or raises; otherwise it takes at most so many bytes and
may claim more.
-/

set_option autoImplicit false
set_option relaxedAutoImplicit false

namespace Escalation

/-- What a writer answers when bytes are offered to it. -/
inductive WriteAnswer
  /-- It claims to have taken this many bytes. -/
  | accepted (count : Nat)
  /-- It failed. -/
  | failed
  deriving DecidableEq, Repr

/-- Offers bytes to a writer until all are taken, and flushes it then; gives up at the first answer
that takes nothing. -/
def writeFully {m : Type → Type} [Monad m] (write : List UInt8 → m WriteAnswer)
    (flush : m Unit) (bytes : List UInt8) : m Unit :=
  match bytes with
  | [] => flush
  | byte :: rest => do
    match ← write (byte :: rest) with
    | .failed | .accepted 0 => pure ()
    | .accepted (more + 1) => writeFully write flush (rest.drop more)
termination_by bytes.length
decreasing_by
  simp only [List.length_drop, List.length_cons]
  omega

section Rounds

variable {m : Type → Type} [Monad m] (write : List UInt8 → m WriteAnswer) (flush : m Unit)

/-- A writer that has taken everything is flushed. -/
@[simp] theorem writeFully_nil : writeFully write flush [] = flush := by
  rw [writeFully]

/-- As long as bytes are left, all of them are offered at once. -/
theorem writeFully_cons (byte : UInt8) (rest : List UInt8) :
    writeFully write flush (byte :: rest) = (do
      match ← write (byte :: rest) with
      | .failed | .accepted 0 => pure ()
      | .accepted (more + 1) => writeFully write flush (rest.drop more)) := by
  rw [writeFully]

end Rounds

/-- The bytes of a text. -/
def utf8Bytes (text : String) : List UInt8 := text.toUTF8.data.toList

/-! ### Writers that misbehave by plan -/

/-- What a scripted writer does at a call that is to go wrong. -/
inductive WriteFault
  /-- It takes nothing and says so. -/
  | takesNothing
  /-- It fails. -/
  | fails
  /-- It raises. -/
  | raises
  deriving DecidableEq, Repr

/-- The plan of a scripted writer. Calls are counted from one. -/
structure WriterPlan where
  /-- The calls that go wrong. -/
  failAt : List Nat := []
  /-- The first call from which on all go wrong. -/
  failFrom : Option Nat := none
  /-- What happens at such a call. -/
  fault : WriteFault := .fails
  /-- The greatest number of bytes taken at one call. -/
  chunk : Option Nat := none
  /-- The number of bytes claimed beyond those taken. -/
  overclaim : Nat := 0
  deriving Repr

/-- A scripted writer. -/
structure ScriptedWriter where
  /-- What it does. -/
  plan : WriterPlan
  /-- The bytes taken so far. -/
  data : Array UInt8 := #[]
  /-- The calls so far. -/
  writes : Nat := 0
  /-- The flushes so far, failed ones included. -/
  flushes : Nat := 0

namespace ScriptedWriter

/-- What a scripted writer answers. -/
inductive Answer
  /-- It answers like any writer. -/
  | given (answer : WriteAnswer)
  /-- It raises. -/
  | raised
  deriving DecidableEq, Repr

/-- Whether a call goes wrong. -/
def goesWrong (plan : WriterPlan) (call : Nat) : Bool :=
  plan.failAt.contains call || plan.failFrom.any (· ≤ call)

/-- The bytes that a call takes of those offered, unless it goes wrong. -/
def taken (plan : WriterPlan) (bytes : List UInt8) : List UInt8 :=
  match plan.chunk with
  | none => bytes
  | some most => bytes.take most

/-- What the writer answers when bytes are offered to it. -/
def answer (writer : ScriptedWriter) (bytes : List UInt8) : Answer :=
  if goesWrong writer.plan (writer.writes + 1) then
    match writer.plan.fault with
    | .takesNothing => .given (.accepted 0)
    | .fails => .given .failed
    | .raises => .raised
  else .given (.accepted ((taken writer.plan bytes).length + writer.plan.overclaim))

/-- The writer after bytes were offered to it. -/
def write (writer : ScriptedWriter) (bytes : List UInt8) : ScriptedWriter :=
  let call := writer.writes + 1
  if goesWrong writer.plan call then { writer with writes := call }
  else { writer with writes := call, data := writer.data.appendList (taken writer.plan bytes) }

/-- The writer after it was flushed. -/
def flush (writer : ScriptedWriter) : ScriptedWriter :=
  { writer with flushes := writer.flushes + 1 }

end ScriptedWriter

end Escalation
