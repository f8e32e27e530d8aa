/-!
# Structural text

A value with named parts is shown by its name and its parts, in one of two ways: on one line, or
spread over several lines, where every part has a line of its own that ends in a comma and the
parts of a part are four columns further in (`Layout`). A list is shown the same way without a name.
The text of a part may already be spread over several lines; `inset` moves all of them.
-/

set_option autoImplicit false
set_option relaxedAutoImplicit false

namespace Escalation.Text

/-- How a structural text is laid out. -/
inductive Layout
  /-- Everything on one line. -/
  | inline
  /-- One part to a line. -/
  | spread
  deriving DecidableEq, Repr

namespace Layout

/-- A text with every line four columns further in. -/
def inset (text : String) : String :=
  "    " ++ String.ofList
    (text.toList.flatMap fun c ↦ if c = '\n' then "\n    ".toList else [c])

/-- The parts of a value, each with a comma, one to a line. -/
def spreadParts (parts : List String) : String :=
  String.join (parts.map fun part ↦ inset (part ++ ",") ++ "\n")

/-- A value of a name with named parts, of which there is at least one. -/
def record (layout : Layout) (name : String) (fields : List (String × String)) : String :=
  let parts := fields.map fun field ↦ field.1 ++ ": " ++ field.2
  match layout with
  | .inline => name ++ " \x7b " ++ String.intercalate ", " parts ++ " \x7d"
  | .spread => name ++ " \x7b\n" ++ spreadParts parts ++ "\x7d"

/-- A value of a name with a single part that has no name. -/
def wrapped (layout : Layout) (name : String) (inner : String) : String :=
  match layout with
  | .inline => name ++ "(" ++ inner ++ ")"
  | .spread => name ++ "(\n" ++ spreadParts [inner] ++ ")"

end Layout

/-- The text of a list of values while it is written, one value after the other. -/
structure Listing where
  /-- How it is laid out. -/
  layout : Layout
  /-- What is written so far. -/
  written : String := "["
  /-- A value is written already. -/
  filled : Bool := false

namespace Listing

/-- Writes one more value. -/
def entry (listing : Listing) (value : String) : Listing :=
  match listing.layout with
  | .inline =>
    { listing with
      written := listing.written ++ (if listing.filled then ", " else "") ++ value
      filled := true }
  | .spread =>
    { listing with
      written := listing.written ++ (if listing.filled then "" else "\n") ++
        Layout.inset (value ++ ",") ++ "\n"
      filled := true }

/-- The text once no value is to come. -/
def finish (listing : Listing) : String := listing.written ++ "]"

end Listing

/-- The text of a list of values. -/
def Layout.items (layout : Layout) (values : List String) : String :=
  (values.foldl Listing.entry { layout }).finish

end Escalation.Text
