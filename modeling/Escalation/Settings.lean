import Escalation.Text.Blank
import Escalation.Text.Quoted
import Escalation.Text.Layout

/-!
# Settings

Three settings govern what happens to a failure: whether it may be raised at all, whether return
addresses are captured when it is made, and which mark stands for one level of nesting in a
diagnostic line. The first is fixed when the program is built. The other two are looked up in the
environment (`Settings.load`), the capturing of addresses first and the mark only if that succeeded.

A switch is a word of `switchWords` in any ASCII case with any white space around it; the mark is
exactly one character of any kind, untrimmed. A variable that is set to anything else is a
`Settings.Problem`, which carries the value as it was found.
-/

set_option autoImplicit false
set_option relaxedAutoImplicit false

namespace Escalation

open Text

/-- What governs the treatment of failures. -/
structure Settings where
  /-- Failures are raised; otherwise they are logged in place of being raised. -/
  throwing : Bool
  /-- Return addresses are captured when a failure is made. -/
  capturing : Bool := true
  /-- The mark in front of a diagnostic line, once for each level of nesting. -/
  indent : Char := '_'
  deriving DecidableEq, Repr, Inhabited

namespace Settings

/-- The variable that switches the capturing of addresses. -/
def captureVariable : String := "FAULTLINE_CAPTURE_TRACES"

/-- The variable that holds the mark for nested lines. -/
def indentVariable : String := "FAULTLINE_INDENT"

/-- Why the environment holds no usable settings. -/
inductive Problem
  /-- A switch is set to something that is no switch word. -/
  | switch (key value : String)
  /-- The mark is not exactly one character. -/
  | mark (key value : String)
  deriving DecidableEq, Repr

namespace Problem

/-- The variable at fault. -/
def key : Problem → String
  | .switch key _ | .mark key _ => key

/-- The value that was found. -/
def value : Problem → String
  | .switch _ value | .mark _ value => value

/-- The text shown for a problem. -/
def message : Problem → String
  | .switch key value => "invalid boolean for " ++ key ++ ": " ++ quoted value
  | .mark key value =>
    key ++ " must be exactly one character, got " ++ quoted value

end Problem

/-- The settings of a build where the environment says nothing. -/
def standard (throwing : Bool) : Settings := { throwing }

/-- The same settings with raising switched off. -/
def logOnly (settings : Settings) : Settings := { settings with throwing := false }

/-- The words of a switch, in lower case. -/
def switchWords : List (String × Bool) :=
  [("1", true), ("true", true), ("yes", true), ("on", true),
    ("0", false), ("false", false), ("no", false), ("off", false)]

/-- The meaning of a switch word in any ASCII case with white space around it. -/
def switch? (value : String) : Option Bool :=
  switchWords.lookup (String.ofList ((trim value.toList).map Char.toLower))

/-- The mark in a value that is exactly one character. -/
def mark? (value : String) : Option Char :=
  match value.toList with
  | [mark] => some mark
  | _ => none

/-- The settings `settings` with addresses captured as the variable says, if it is set. -/
def withCapture (settings : Settings) : Option String → Except Problem Settings
  | none => .ok settings
  | some value =>
    match switch? value with
    | some capturing => .ok { settings with capturing }
    | none => .error (.switch captureVariable value)

/-- The settings `settings` with the mark that the variable holds, if it is set. -/
def withMark (settings : Settings) : Option String → Except Problem Settings
  | none => .ok settings
  | some value =>
    match mark? value with
    | some indent => .ok { settings with indent }
    | none => .error (.mark indentVariable value)

/-- The settings of a build in the environment that `lookup` asks. The lookup may have effects of
its own, so the order of the questions is part of the result. -/
def load {m : Type → Type} [Monad m] (throwing : Bool) (lookup : String → m (Option String)) :
    m (Except Problem Settings) := do
  match (standard throwing).withCapture (← lookup captureVariable) with
  | .error problem => pure (.error problem)
  | .ok settings => pure (settings.withMark (← lookup indentVariable))

/-- Looks a variable up in a list and notes the question. -/
def askNoting (known : List (String × String)) (key : String) :
    StateM (List String) (Option String) := do
  modify fun asked ↦ asked ++ [key]
  return known.lookup key

/-- The settings of a build where these variables are set, and the questions in their order. -/
def loadNoting (throwing : Bool) (known : List (String × String)) :
    Except Problem Settings × List String :=
  ((load throwing (askNoting known)).run []).run

/-- The questions that loading asks: the second only if the first answer is usable. -/
theorem snd_loadNoting (throwing : Bool) (known : List (String × String)) :
    (loadNoting throwing known).2 =
      match (standard throwing).withCapture (known.lookup captureVariable) with
      | .error _ => [captureVariable]
      | .ok _ => [captureVariable, indentVariable] := by
  cases h : (standard throwing).withCapture (known.lookup captureVariable) <;>
    simp [loadNoting, load, askNoting, h]

/-- The structural text of settings. -/
def structureText (layout : Layout) (settings : Settings) : String :=
  layout.record "Config"
    [("throw_enabled", toString settings.throwing),
      ("capture_traces", toString settings.capturing),
      ("indent", quotedChar settings.indent)]

end Settings

end Escalation
