import Escalation.Failure.Basic
import Escalation.Text.Layout
import Escalation.Text.Quoted

/-!
# The texts of a failure

A failure is shown as one line for each remark, the most recently attached one first, then a line
with the place, the nature, the durability if it is temporary and the description if there is one,
and last a line with the return addresses (`Failure.text`). The last line is there even if it lists
no address.

The structural text shows every part of a failure by name (`Failure.structureText`), and the chain
as the list of its remarks (`contextStructure`).
-/

set_option autoImplicit false
set_option relaxedAutoImplicit false

namespace Escalation

open Text

namespace Site

/-- The place as `file:line`. -/
def text (site : Site) : String := site.file ++ ":" ++ toString site.line.toNat

end Site

namespace Remark

/-- The line shown for a remark. -/
def text (remark : Remark) : String :=
  remark.site.text ++ ": context: " ++ remark.description

/-- The structural text of a remark. -/
def structureText (layout : Layout) (remark : Remark) : String :=
  layout.record "Context"
    [("file", quoted remark.site.file), ("line", toString remark.site.line.toNat),
      ("description", quoted remark.description)]

end Remark

/-- An address in lower-case hexadecimal digits behind the sign of the base. -/
def addressText (address : UInt64) : String :=
  "0x" ++ String.ofList (hexDigits address.toNat)

/-- The addresses of a trace, separated by single spaces. -/
def Trace.text (trace : Trace) : String :=
  String.intercalate " " (trace.addresses.map addressText)

/-- The structural text of a chain of remarks. -/
def contextStructure (layout : Layout) (chain : List Remark) : String :=
  let walk : Walk := { ahead := chain }
  (walk.foldl (fun listing remark ↦ Listing.entry listing (remark.structureText layout))
    { layout }).finish

/-- The structural text of a chain that may be missing. -/
def contextStructure? (layout : Layout) : List Remark → String
  | [] => "None"
  | chain => layout.wrapped "Some" (contextStructure layout chain)

namespace Failure

/-- The line of a failure that says where it arose, what it is and what is said about it. -/
def headline (failure : Failure) : String :=
  failure.site.text ++ ": " ++ failure.nature.text ++
    (match failure.durability with
      | .temporary => " (temporary)"
      | .permanent => "") ++
    (if failure.description.isEmpty then "" else ": " ++ failure.description)

/-- The text shown for a failure. -/
def text (failure : Failure) : String :=
  String.join (failure.context.map fun remark ↦ remark.text ++ "\n") ++
    failure.headline ++ "\nstack: " ++ failure.trace.text

/-- The structural text of a failure. -/
def structureText (layout : Layout) (failure : Failure) : String :=
  layout.record "Exception"
    [("file", quoted failure.site.file), ("line", toString failure.site.line.toNat),
      ("nature", failure.nature.name), ("durability", failure.durability.name),
      ("description", quoted failure.description),
      ("trace", layout.items
        (failure.trace.cells.toList.map fun address ↦ toString address.toNat)),
      ("trace_count", toString failure.trace.used),
      ("context", contextStructure? layout failure.context)]

end Failure

end Escalation
