import Escalation.Text.Blank

/-!
# Nested lines

A diagnostic line that passed through nested scopes starts with one mark per scope (`indent`). Only
the first line of the text is moved: the marks stand in front of the text and nothing inside it
changes. `withoutLineEnds` drops the line ends at the end of a text and keeps the inner ones.
-/

set_option autoImplicit false
set_option relaxedAutoImplicit false

namespace Escalation.Text

/-- `depth` copies of a mark in front of a text. -/
def indent (depth : Nat) (mark : Char) (text : String) : String :=
  String.ofList (List.replicate depth mark) ++ text

/-- A text without the line ends at its end. -/
def withoutLineEnds (text : String) : String :=
  String.ofList (dropTrailing (· == '\n') text.toList)

@[simp] theorem indent_zero (mark : Char) (text : String) : indent 0 mark text = text := by
  simp [indent]

end Escalation.Text
