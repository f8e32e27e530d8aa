import Escalation.Text.Blank

/-!
# What a report shows of a text

Reports show a text of at most four thousand characters whole. Of a longer one they show its
length in characters and in bytes and two hundred characters of either end (`Excerpt.of`). Where
addresses are not to be shown, the line of a text that lists them shows their number instead
(`hideAddresses`).
-/

set_option autoImplicit false
set_option relaxedAutoImplicit false

namespace Escalation.Text

/-- A text as a report shows it. -/
inductive Excerpt
  /-- The whole text. -/
  | whole (text : String)
  /-- The length of a long text in characters and in bytes, its beginning and its end. -/
  | cut (characters bytes : Nat) (head tail : String)
  deriving DecidableEq, Repr

namespace Excerpt

/-- The greatest number of characters that is shown whole. -/
def limit : Nat := 4000

/-- The number of characters shown of either end of a longer text. -/
def margin : Nat := 200

/-- A text as a report shows it. -/
def of (text : String) : Excerpt :=
  let characters := text.toList
  let length := characters.length
  if length ≤ limit then .whole text
  else .cut length text.utf8ByteSize (String.ofList (characters.take margin))
    (String.ofList (characters.drop (length - margin)))

end Excerpt

/-! ### Texts that list addresses -/

/-- What stands in front of the addresses in a line that lists some. -/
def addressMark : List Char := "stack: ".toList

/-- What an address begins with. -/
def addressSign : List Char := ['0', 'x']

/-- The number of words up to the end of the line that begin like an address; `wordBegins` says
whether a word can begin here. -/
def addressesInLine : (wordBegins : Bool) → List Char → Nat
  | _, [] => 0
  | wordBegins, c :: rest =>
    if c = '\n' then 0
    else
      (if wordBegins && addressSign.isPrefixOf (c :: rest) then 1 else 0) +
        addressesInLine (isBlank c) rest

/-- The work of `hideAddresses`; `skipping` says that the rest of the line is already shown by the
number of its addresses. -/
def hideAddressesFrom : Bool → List Char → List Char
  | _, [] => []
  | skipping, c :: rest =>
    if c = '\n' then c :: hideAddressesFrom false rest
    else if skipping then hideAddressesFrom true rest
    else if (addressMark ++ addressSign).isPrefixOf (c :: rest) then
      addressMark ++ '<' :: Nat.toDigits 10 (addressesInLine true (c :: rest)) ++
        '>' :: hideAddressesFrom true rest
    else c :: hideAddressesFrom false rest

/-- A text in which every line that lists addresses shows their number instead. -/
def hideAddresses (text : String) : String :=
  String.ofList (hideAddressesFrom false text.toList)

end Escalation.Text
