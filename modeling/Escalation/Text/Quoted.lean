import Escalation.Text.Visible

/-!
# Quoted text

The structural texts of this library show strings between double quotes and single characters
between apostrophes. Inside the quotes the NUL, the tab, the line ends and the backslash have short
escapes, the quote in use is escaped, and every other character without a visible form of its own
is written as its code point in braces (`escape`). Everything else stands for itself.
-/

set_option autoImplicit false
set_option relaxedAutoImplicit false

namespace Escalation.Text

/-- A number in lower-case hexadecimal digits without leading zeros. -/
def hexDigits (n : Nat) : List Char := Nat.toDigits 16 n

/-- One character as it stands between the quotes `quote`. -/
def escape (quote : Char) (c : Char) : List Char :=
  if c = '\x00' then ['\\', '0']
  else if c = '\t' then ['\\', 't']
  else if c = '\r' then ['\\', 'r']
  else if c = '\n' then ['\\', 'n']
  else if c = '\\' then ['\\', '\\']
  else if c = quote then ['\\', c]
  else if isVisible c then [c]
  else ['\\', 'u', '\x7b'] ++ hexDigits c.toNat ++ ['\x7d']

/-- A text between the quotes `quote`. -/
def enclose (quote : Char) (text : List Char) : String :=
  String.ofList (quote :: text.flatMap (escape quote) ++ [quote])

/-- A text between double quotes. -/
def quoted (text : String) : String := enclose '"' text.toList

/-- A single character between apostrophes. -/
def quotedChar (c : Char) : String := enclose '\'' [c]

end Escalation.Text
