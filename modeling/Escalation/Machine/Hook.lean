import Escalation.Failure.Display
import Escalation.Program.Op

/-!
# Hooks

Whatever is raised is shown to the hook of the process at once, whether it is caught later or not.
The hook of the library writes the text of a failure to the diagnostic stream, and leaves everything
else to the hook that was there before it (`Hook.notices`). It is put in front once (`HookSetup`):
putting it in front again would put it in front of itself.
-/

set_option autoImplicit false
set_option relaxedAutoImplicit false

namespace Escalation

/-- Something that is raised. -/
structure Raise where
  /-- The name of the thread that raises it. -/
  thread : Option String
  /-- What is raised. -/
  payload : Payload

/-- The message of something that is raised, if it is one. -/
def Payload.message? : Payload → Option String
  | .message text => some text
  | .failure _ | .opaqueValue => none

/-- What a hook does about a raise. -/
inductive Notice
  /-- Writes a text to the diagnostic stream. -/
  | written (text : String)
  /-- Notes a message, or that there is none. -/
  | noted (message : Option String)

/-- What is done about raises. -/
inductive Hook
  /-- A hook of someone else, which makes notes. -/
  | foreign (notes : Raise → List (Option String))
  /-- The hook of the library in front of another one. -/
  | reporting (previous : Hook)

/-- How far the hook of the library is put in front. -/
inductive HookSetup
  /-- That has not been asked for. -/
  | pending
  /-- It is in front. -/
  | done
  /-- The attempt failed, and there is no other one. -/
  | poisoned
  deriving DecidableEq

namespace Hook

/-- The hook that notes nothing. -/
def quiet : Hook := .foreign fun _ ↦ []

/-- The hook that notes each raise with its message. -/
def noting : Hook := .foreign fun raise ↦ [raise.payload.message?]

/-- The hook of the library is in front. -/
def isReporting : Hook → Bool
  | .foreign _ => false
  | .reporting _ => true

/-- The text that the hook of the library writes about a failure. -/
def report (thread : Option String) (failure : Failure) : String :=
  "thread '" ++ thread.getD "<unnamed>" ++ "' raised exception:\n" ++ failure.text ++ "\n"

/-- What a hook does about a raise. -/
def notices : Hook → Raise → List Notice
  | .foreign notes, raise => (notes raise).map .noted
  | .reporting previous, raise =>
    match raise.payload with
    | .failure failure => [.written (report raise.thread failure)]
    | .message _ | .opaqueValue => previous.notices raise

end Hook

end Escalation
