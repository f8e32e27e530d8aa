import Escalation.Program.Op
import Std.Data.HashSet

/-!
# Statements of source code

Reporting statements stand at fixed places in source code and take a number and a text
(`Statement.named?`). A statement that expects a condition quotes it as it is spelled, and puts what
the program has to say about it behind a semicolon (`Statement.expectation`). The condition is
checked first; while it holds, nothing is made and nothing is said.

Reports tell the place of the statements from the places that a program names
(`Escalation.Report.site`), so its file is one that the program does not mention
(`Statement.siteApartFrom`).
-/

set_option autoImplicit false
set_option relaxedAutoImplicit false

namespace Escalation

namespace Statement

/-! ### The place of statements -/

/-- The characters of which the file of statements can be named: ideographs, which read the same in
quoted texts. Each of them has three bytes. -/
def fileMarks : List Char := (List.range' 0x4e00 0x5200).map Char.ofNat

/-- The first of these characters that none of the texts has. -/
def freeMark? (texts : List String) : Option Char :=
  let taken := Std.HashSet.ofList (texts.flatMap fun text ↦ text.toList.map Char.toNat)
  fileMarks.find? fun mark ↦ !taken.contains mark.toNat

/-- A place for the statements of a program that mentions these texts, in a file that none of them
mentions as long as some character is free. Reports do not show it; it matters only for the number
of bytes of the texts that name it, where a file and its line have fifteen. -/
def siteApartFrom (texts : List String) : Site :=
  { file := String.ofList (List.replicate 4 ((freeMark? texts).getD '一')), line := 10 }

/-! ### What statements say -/

/-- The description of an unmet condition. -/
def expectation (condition : String) : Option String → String
  | none => "expected " ++ condition
  | some message => "expected " ++ condition ++ "; " ++ message

/-- A number with its sign, also where it is not negative. -/
def signed (number : Int) : String :=
  if number < 0 then toString number else "+" ++ toString number

/-- The statement of a name, for a number and a text. -/
def named? (name : String) (number : Int) (text : String) : Option Statement :=
  let shown := toString number
  let require (holds : Bool) (condition : String) (message : Option String) : Option Statement :=
    some (.expect .preconditionViolation holds condition message)
  let invariant (message : Option String) : Option Statement :=
    some (.expect .internalBug (number % 2 == 0) "x % 2 == 0" message)
  let braces := "s != \"\x7bx\x7d\""
  match name with
  | "require" | "require_comma" => require (5 < number) "x > 5" none
  | "require_msg" => require (5 < number) "x > 5" (some ("x was " ++ shown))
  | "require_msg_empty" => require (5 < number) "x > 5" (some "")
  | "require_msg_only_s" => require (5 < number) "x > 5" (some text)
  | "require_compound" =>
    require (text.utf8ByteSize == 3 && number != 0) "s.len() == 3 && x != 0"
      (some ("s=" ++ text ++ ", x=" ++ signed number))
  | "require_literal" => require (text != "\x7bx\x7d") braces none
  | "require_literal_msg" =>
    require (text != "\x7bx\x7d") braces (some ("braces \x7b\x7d " ++ text))
  | "require_not" => require (!text.isEmpty) "!s.is_empty()" none
  | "invariant" | "invariant_comma" => invariant none
  | "invariant_msg" => invariant (some ("odd " ++ shown))
  | "fatal" => some (.fatal .internalBug .permanent ("corrupted " ++ text))
  | "fatal_temporary" => some (.fatal .networkFailure .temporary ("reset " ++ text))
  | "log" => some (.line ("x=" ++ shown ++ " s=" ++ text))
  | "context" => some (.context ("ctx " ++ text ++ " " ++ shown))
  | "exc_precondition" => some (.failure .preconditionViolation .permanent text)
  | "exc_bug" => some (.failure .internalBug .permanent (text ++ " " ++ shown))
  | "exc_os" => some (.failure .osError .permanent ("disk " ++ text ++ " full"))
  | "exc_network" => some (.failure .networkFailure .temporary ("peer " ++ shown ++ " reset"))
  | "exc_unclassified" => some (.failure .unclassified .temporary text)
  | _ => none

end Statement

end Escalation
