/-!
# Replacing a word in a text

`replaceRuns` replaces every occurrence of a word in a text, from the left, together with the
characters of some class that follow it, such as the digits of a number; occurrences that overlap
one already replaced are not looked at. A word without characters occurs nowhere.
-/

set_option autoImplicit false
set_option relaxedAutoImplicit false

namespace Escalation.Text

/-- The work of `replaceRuns`, where `skip` more characters belong to an occurrence that is replaced
already. -/
def replaceFrom (follows : Char → Bool) (word replacement : List Char) :
    (skip : Nat) → List Char → List Char
  | _, [] => []
  | skip + 1, _ :: rest => replaceFrom follows word replacement skip rest
  | 0, c :: rest =>
    if word.isPrefixOf (c :: rest) && !word.isEmpty then
      let behind := (rest.drop (word.length - 1)).takeWhile follows
      replacement ++ replaceFrom follows word replacement (word.length - 1 + behind.length) rest
    else c :: replaceFrom follows word replacement 0 rest

/-- A text with every occurrence of a word replaced, and with it the characters of a class that
follow it. -/
def replaceRuns (follows : Char → Bool) (word replacement text : String) : String :=
  String.ofList (replaceFrom follows word.toList replacement.toList 0 text.toList)

end Escalation.Text
