import Escalation.Session
import Escalation.Text.Excerpt
import Escalation.Text.Replace

/-!
# What a report shows

A report shows long texts by their ends (`Report.text`), and the chain of a failure, if it is long,
by its first and last remarks (`Report.context`). A report can keep some things to itself
(`Report.Hidden`). The place of statements of source code is shown as a word that stands for all
such places, with line zero (`Report.site`). Where captured addresses are not to be shown, a trace
shows only their number, and so do the lines of texts that list them.
What a writer has taken is shown as a text if its bytes are one, and by its bytes otherwise
(`Report.bytes`).
-/

set_option autoImplicit false
set_option relaxedAutoImplicit false

namespace Escalation.Report

open Text

/-- What a report does not show. -/
structure Hidden where
  /-- The file of which no place is shown, if there is one. -/
  file : Option String := none
  /-- Captured addresses are not shown. -/
  addresses : Bool := false

/-- What the report of a session does not show: the place of its statements, and the addresses if
it says so. -/
def Hidden.ofSession (session : Session) : Hidden :=
  { file := some session.statementSite.file, addresses := session.addressesHidden }

/-- A trace as a report shows it. -/
inductive ShownTrace
  /-- Its addresses. -/
  | addresses (addresses : List UInt64)
  /-- The number of its addresses. -/
  | count (count : Nat)

/-- A chain of remarks as a report shows it. -/
inductive ShownContext
  /-- All remarks. -/
  | all (remarks : List Remark)
  /-- The number of remarks, the first and the last ones. -/
  | cut (count : Nat) (head tail : List Remark)

/-- Bytes as a report shows them. -/
inductive ShownBytes
  /-- The text that they encode. -/
  | text (text : Excerpt)
  /-- Their hexadecimal digits. -/
  | digits (digits : String)

/-- The greatest number of remarks that is shown whole. -/
def remarkLimit : Nat := 40

/-- The number of remarks shown of either end of a longer chain. -/
def remarkMargin : Nat := 3

/-- What is shown as a place that is hidden. -/
def standInSite : Site := { file := "<site>", line := 0 }

/-- A place. -/
def site (hidden : Hidden) (shown : Site) : Site :=
  if hidden.file = some shown.file then standInSite else shown

/-- What stands before the line of a place in texts, for the file of the place. -/
def siteSpellings : List (String → String) :=
  [fun file ↦ file ++ ":", fun file ↦ quoted file ++ " line=", fun file ↦ quoted file ++ ", line: "]

/-- A text in which the places of a file are hidden. -/
def hidePlaces (file : String) (shown : String) : String :=
  siteSpellings.foldl
    (fun text spell ↦
      replaceRuns Char.isDigit (spell file)
        (spell standInSite.file ++ toString standInSite.line.toNat) text)
    shown

/-- A text. -/
def text (hidden : Hidden) (shown : String) : Excerpt :=
  let placed := match hidden.file with
    | some file => hidePlaces file shown
    | none => shown
  .of (if hidden.addresses then hideAddresses placed else placed)

/-- A trace. -/
def trace (hidden : Hidden) (shown : Trace) : ShownTrace :=
  if hidden.addresses then .count shown.used else .addresses shown.addresses

/-- A chain of remarks. -/
def context (remarks : List Remark) : ShownContext :=
  let count := remarks.length
  if count ≤ remarkLimit then .all remarks
  else .cut count (remarks.take remarkMargin) (remarks.drop (count - remarkMargin))

/-- The two hexadecimal digits of a byte. -/
def byteDigits (byte : UInt8) : List Char :=
  [Nat.digitChar (byte.toNat / 16), Nat.digitChar (byte.toNat % 16)]

/-- What a writer has taken. -/
def bytes (hidden : Hidden) (shown : List UInt8) : ShownBytes :=
  match String.fromUTF8? ⟨shown.toArray⟩ with
  | some decoded => .text (text hidden decoded)
  | none => .digits (String.ofList (shown.flatMap byteDigits))

end Escalation.Report
