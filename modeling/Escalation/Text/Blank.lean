/-!
# White space around a word

Twenty-five characters count as white space: the ASCII controls from tab to carriage return, the
space, and the separators beyond ASCII (`isBlank`). The information separators U+001C to U+001F,
the zero-width space and the byte order mark do not. `trim` removes white space from both ends of
a text and nothing from its inside; `dropTrailing` is the one-sided form for any class of
characters.

A text that ends outside the class keeps its end (`dropTrailing_append_singleton`).
-/

set_option autoImplicit false
set_option relaxedAutoImplicit false

namespace Escalation.Text

/-- The ranges of code points that count as white space, each with both ends included. -/
def blankRanges : List (Nat × Nat) :=
  [(0x09, 0x0d), (0x20, 0x20), (0x85, 0x85), (0xa0, 0xa0), (0x1680, 0x1680), (0x2000, 0x200a),
    (0x2028, 0x2029), (0x202f, 0x202f), (0x205f, 0x205f), (0x3000, 0x3000)]

/-- A character is white space when its code point lies in one of `blankRanges`. -/
def isBlank (c : Char) : Bool :=
  blankRanges.any fun range ↦ range.1 ≤ c.toNat && c.toNat ≤ range.2

/-- A text without the longest run of characters of a class at its end. -/
def dropTrailing (inClass : Char → Bool) (text : List Char) : List Char :=
  (text.reverse.dropWhile inClass).reverse

/-- A text without the white space at either end. -/
def trim (text : List Char) : List Char :=
  dropTrailing isBlank (text.dropWhile isBlank)

/-! ### What the ends of a text are -/

@[simp] theorem dropTrailing_nil (inClass : Char → Bool) : dropTrailing inClass [] = [] := rfl

/-- A text that ends outside the class keeps its end. -/
@[simp] theorem dropTrailing_append_singleton (inClass : Char → Bool) (text : List Char)
    (last : Char) :
    dropTrailing inClass (text ++ [last]) =
      if inClass last then dropTrailing inClass text else text ++ [last] := by
  unfold dropTrailing
  by_cases h : inClass last <;> simp [h]

end Escalation.Text
