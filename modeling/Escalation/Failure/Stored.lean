import Escalation.Failure.Class
import Escalation.Text.Magnitude

/-!
# The stored form of a classification

A nature or a durability is stored as JSON: its name as a string literal (`stored`). Reading
accepts that form and one more, an object that has the name as its only key and `null` as its value,
with JSON white space around and between the tokens, and with any escapes inside the literal
(`read`).

A text that is not accepted has one of three faults. It is malformed when it is no JSON of either
shape; it is mismatched when it is a well-formed beginning that names nothing, or holds a complete
value where `null` or a name has to stand; it is truncated when it ends too early. The fault is the
one met first from the left.
-/

set_option autoImplicit false
set_option relaxedAutoImplicit false

namespace Escalation.Stored

open Text

/-- Why a text is not the stored form of a classification. -/
inductive Fault
  /-- The text is no JSON of an accepted shape. -/
  | malformed
  /-- The text names nothing, or holds another value than the one that has to stand there. -/
  | mismatched
  /-- The text ends too early. -/
  | truncated
  deriving DecidableEq, Repr

/-! ### Tokens -/

/-- The white space of JSON. -/
def isSpace (c : Char) : Bool := c == ' ' || c == '\t' || c == '\n' || c == '\r'

/-- A text from its first character on that is not white space. -/
def skipSpace (text : List Char) : List Char := text.dropWhile isSpace

/-- The value of a hexadecimal digit of either case. -/
def hexValue? (c : Char) : Option Nat :=
  if '0' ≤ c ∧ c ≤ '9' then some (c.toNat - '0'.toNat)
  else if 'a' ≤ c ∧ c ≤ 'f' then some (c.toNat - 'a'.toNat + 10)
  else if 'A' ≤ c ∧ c ≤ 'F' then some (c.toNat - 'A'.toNat + 10)
  else none

/-- Four hexadecimal digits at the start of a text, as one number. -/
def hexUnit? (text : List Char) : Option (Nat × List Char) :=
  match text with
  | a :: b :: c :: d :: rest => do
    let a ← hexValue? a
    let b ← hexValue? b
    let c ← hexValue? c
    let d ← hexValue? d
    pure (((a * 16 + b) * 16 + c) * 16 + d, rest)
  | _ => none

/-- Reads the four digits of a numeric escape. A text of fewer than four bytes ends too early. -/
def readUnit (text : List Char) : Except Fault (Nat × List Char) :=
  match hexUnit? text with
  | some unit => .ok unit
  | none => .error (if (String.ofList text).utf8ByteSize < 4 then .truncated else .malformed)

/-- The first half of a character beyond the first plane. -/
def isLeadingHalf (unit : Nat) : Bool := 0xd800 ≤ unit && unit < 0xdc00

/-- The second half of a character beyond the first plane. -/
def isTrailingHalf (unit : Nat) : Bool := 0xdc00 ≤ unit && unit < 0xe000

/-- The escapes of one letter. -/
def letterEscapes : List (Char × Char) :=
  [('"', '"'), ('\\', '\\'), ('/', '/'), ('b', '\x08'), ('f', '\x0c'), ('n', '\n'), ('r', '\r'),
    ('t', '\t')]

/-- The character beyond the first plane that two halves stand for. -/
def joinHalves (leading trailing : Nat) : Char :=
  Char.ofNat (0x10000 + (leading - 0xd800) * 0x400 + (trailing - 0xdc00))

/-- Reads the rest of a numeric escape whose first half is `leading`. -/
def readTrailingHalf (leading : Nat) (text : List Char) : Except Fault (Char × List Char) :=
  match text with
  | [] | ['\\'] => .error .truncated
  | '\\' :: 'u' :: rest =>
    match readUnit rest with
    | .error fault => .error fault
    | .ok (unit, rest) =>
      if isTrailingHalf unit then .ok (joinHalves leading unit, rest) else .error .malformed
  | _ => .error .malformed

/-- Reads what follows a backslash. Either half of a pair is malformed without the other. -/
def readEscape (text : List Char) : Except Fault (Char × List Char) :=
  match text with
  | [] => .error .truncated
  | 'u' :: rest =>
    match readUnit rest with
    | .error fault => .error fault
    | .ok (unit, rest) =>
      if isTrailingHalf unit then .error .malformed
      else if isLeadingHalf unit then readTrailingHalf unit rest
      else .ok (Char.ofNat unit, rest)
  | c :: rest =>
    match letterEscapes.lookup c with
    | some meant => .ok (meant, rest)
    | none => .error .malformed

theorem length_of_hexUnit? {text : List Char} {unit : Nat} {rest : List Char}
    (h : hexUnit? text = some (unit, rest)) : rest.length < text.length := by
  unfold hexUnit? at h
  split at h
  · simp only [Option.bind_eq_bind, Option.bind_eq_some_iff, Option.pure_def,
      Option.some.injEq, Prod.mk.injEq] at h
    obtain ⟨_, _, _, _, _, _, _, _, _, rfl⟩ := h
    simp only [List.length_cons]
    omega
  · simp at h

theorem length_of_readUnit {text : List Char} {unit : Nat} {rest : List Char}
    (h : readUnit text = .ok (unit, rest)) : rest.length < text.length := by
  unfold readUnit at h
  split at h
  · next found =>
    cases h
    exact length_of_hexUnit? found
  · cases h

theorem length_of_readTrailingHalf {leading : Nat} {text : List Char} {c : Char}
    {rest : List Char} (h : readTrailingHalf leading text = .ok (c, rest)) :
    rest.length < text.length := by
  unfold readTrailingHalf at h
  split at h
  · cases h
  · cases h
  · split at h
    · cases h
    · next found =>
      split at h
      · simp only [Except.ok.injEq, Prod.mk.injEq] at h
        have := length_of_readUnit found
        simp only [List.length_cons, ← h.2]
        omega
      · cases h
  · cases h

/-- What an escape leaves of a text is shorter than the text. -/
theorem length_of_readEscape {text : List Char} {c : Char} {rest : List Char}
    (h : readEscape text = .ok (c, rest)) : rest.length < text.length := by
  unfold readEscape at h
  split at h
  · cases h
  · split at h
    · cases h
    · next found =>
      have := length_of_readUnit found
      split at h
      · cases h
      · split at h
        · have := length_of_readTrailingHalf h
          simp only [List.length_cons]
          omega
        · cases h
          simp only [List.length_cons]
          omega
  · split at h
    · cases h
      simp
    · cases h

/-- Reads a string literal behind its opening quote: the characters it stands for, and the text
behind the closing quote. -/
def readString (text : List Char) : Except Fault (List Char × List Char) :=
  match text with
  | [] => .error .truncated
  | c :: rest =>
    if c = '"' then .ok ([], rest)
    else if c = '\\' then
      match _escaped : readEscape rest with
      | .error fault => .error fault
      | .ok (meant, rest') =>
        match readString rest' with
        | .error fault => .error fault
        | .ok (characters, behind) => .ok (meant :: characters, behind)
    else if c < ' ' then .error .malformed
    else
      match readString rest with
      | .error fault => .error fault
      | .ok (characters, behind) => .ok (c :: characters, behind)
termination_by text.length
decreasing_by
  · have := length_of_readEscape _escaped
    simp only [List.length_cons]
    omega
  · simp

/-- Reads a word that has to stand at the start of a text. -/
def readWord : (word text : List Char) → Except Fault (List Char)
  | [], text => .ok text
  | _ :: _, [] => .error .truncated
  | expected :: word, c :: text => if c = expected then readWord word text else .error .malformed

/-! ### Values in a place that wants another one -/

/-- The fault of a number whose digits are read and that goes on with `text`, with an exponent or
not. A number out of range is malformed, and any other one is mismatched. -/
def exponentFault (number : Decimal) (text : List Char) : Fault :=
  let ranged (exponent : Int) : Fault :=
    if (number.scale exponent).overflows then .malformed else .mismatched
  match text with
  | mark :: rest =>
    if mark = 'e' ∨ mark = 'E' then
      let (negative, rest) := match rest with
        | '-' :: rest => (true, rest)
        | '+' :: rest => (false, rest)
        | rest => (false, rest)
      match rest with
      | [] => .truncated
      | c :: _ =>
        if c.isDigit then
          let exponent : Int := decimalValue (rest.takeWhile Char.isDigit)
          ranged (if negative then -exponent else exponent)
        else .malformed
    else ranged 0
  | [] => ranged 0

/-- The fault of a number without its sign. -/
def magnitudeFault (text : List Char) : Fault :=
  let whole := text.takeWhile Char.isDigit
  let rest := text.dropWhile Char.isDigit
  match whole with
  | [] => if text.isEmpty then .truncated else .malformed
  | first :: more =>
    if first = '0' ∧ more ≠ [] then .malformed
    else match rest with
      | '.' :: behind =>
        match behind.takeWhile Char.isDigit with
        | [] => if behind.isEmpty then .truncated else .malformed
        | fraction =>
          exponentFault (.ofDigits whole fraction) (behind.dropWhile Char.isDigit)
      | rest => exponentFault (.ofDigits whole []) rest

/-- The fault of a word: a complete word is mismatched. -/
def wordFault (word text : List Char) : Fault :=
  match readWord word text with
  | .ok _ => .mismatched
  | .error fault => fault

/-- The fault of a text that has to begin with something else than it does. -/
def misplacedFault (text : List Char) : Fault :=
  match text with
  | [] => .truncated
  | 'n' :: rest => wordFault ['u', 'l', 'l'] rest
  | 't' :: rest => wordFault ['r', 'u', 'e'] rest
  | 'f' :: rest => wordFault ['a', 'l', 's', 'e'] rest
  | '-' :: rest => magnitudeFault rest
  | '"' :: rest =>
    match readString rest with
    | .ok _ => .mismatched
    | .error fault => fault
  | '[' :: _ | '\x7b' :: _ => .mismatched
  | c :: _ => if c.isDigit then magnitudeFault text else .malformed

/-! ### The two shapes -/

section Read

variable {α : Type} (ofName? : String → Option α)

/-- Nothing but white space is left. -/
def finish (value : α) (text : List Char) : Except Fault α :=
  if skipSpace text = [] then .ok value else .error .malformed

/-- Reads a name behind its opening quote. -/
def readName (text : List Char) : Except Fault (α × List Char) :=
  match readString text with
  | .error fault => .error fault
  | .ok (characters, rest) =>
    match ofName? (String.ofList characters) with
    | some value => .ok (value, rest)
    | none => .error .mismatched

/-- Reads the value of the only key of an object, from the colon on. -/
def readNullMember (value : α) (text : List Char) : Except Fault α :=
  match skipSpace text with
  | [] => .error .truncated
  | ':' :: rest =>
    match skipSpace rest with
    | 'n' :: rest =>
      match readWord ['u', 'l', 'l'] rest with
      | .error fault => .error fault
      | .ok rest =>
        match skipSpace rest with
        | [] => .error .truncated
        | '\x7d' :: rest => finish value rest
        | _ => .error .malformed
    | other => .error (misplacedFault other)
  | _ => .error .malformed

/-- Reads the stored form of a classification whose words are found by `ofName?`. -/
def read (text : List Char) : Except Fault α :=
  match skipSpace text with
  | [] => .error .truncated
  | '"' :: rest =>
    match readName ofName? rest with
    | .error fault => .error fault
    | .ok (value, rest) => finish value rest
  | '\x7b' :: rest =>
    match skipSpace rest with
    | '"' :: rest =>
      match readName ofName? rest with
      | .error fault => .error fault
      | .ok (value, rest) => readNullMember value rest
    | other => .error (misplacedFault other)
  | _ => .error .malformed

end Read

/-- The stored form of a name. The names of classifications hold letters only, so none of their
characters needs an escape. -/
def stored (name : String) : String := "\"" ++ name ++ "\""

end Escalation.Stored
