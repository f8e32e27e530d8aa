import Mathlib
import Escalation.Failure.Stored

/-!
# The texts that are read as a classification

A stored classification is read from JSON. The grammar of what is accepted is given here apart from
the reader: how a string literal writes a character (`Stored.Writes`) and a row of them
(`Stored.Literal`), and the two shapes of a text that holds a name, by itself or as the only key of
an object with the value `null`, with white space around and between the tokens (`Stored.Form`).

Each step of the reader takes from a text just what the grammar says (`readEscape_eq_ok_iff`,
`readString_eq_ok_iff`, `readNullMember_eq_ok_iff`), so a text is read as a value exactly if it holds
the name of the value in one of the two shapes (`read_eq_ok_iff`). The names of natures and of
durabilities are all different, so no text is read as both (`stored_forms_exact`).
-/

set_option autoImplicit false
set_option relaxedAutoImplicit false

namespace Escalation

/-! ### Names -/

theorem Nature.ofName?_eq_some_iff {name : String} {nature : Nature} :
    ofName? name = some nature ↔ name = nature.name := by
  constructor
  · intro h
    have hname := List.find?_some h
    exact (beq_iff_eq.mp hname).symm
  · rintro rfl
    exact ofName?_name nature

theorem Durability.ofName?_eq_some_iff {name : String} {durability : Durability} :
    ofName? name = some durability ↔ name = durability.name := by
  constructor
  · intro h
    have hname := List.find?_some h
    exact (beq_iff_eq.mp hname).symm
  · rintro rfl
    exact ofName?_name durability

/-- No name is that of a nature and of a durability. -/
theorem Nature.name_ne (nature : Nature) (durability : Durability) :
    nature.name ≠ durability.name := by
  cases nature <;> cases durability <;> decide

namespace Stored

/-! ### White space -/

/-- The characters that may stand around and between the tokens. -/
def spaces : List Char := [' ', '\t', '\n', '\r']

/-- A text of white space alone, possibly empty. -/
def Blank (gap : List Char) : Prop := ∀ c ∈ gap, c ∈ spaces

theorem isSpace_iff {c : Char} : isSpace c = true ↔ c ∈ spaces := by
  simp [isSpace, spaces, or_assoc]

theorem skipSpace_append {gap : List Char} (hgap : Blank gap) (text : List Char) :
    skipSpace (gap ++ text) = skipSpace text :=
  List.dropWhile_append_of_pos fun c hc ↦ isSpace_iff.mpr (hgap c hc)

theorem skipSpace_cons {c : Char} (hc : isSpace c = false) (rest : List Char) :
    skipSpace (c :: rest) = c :: rest :=
  List.dropWhile_cons_of_neg (by simp [hc])

/-- A token behind white space is what is left when that is skipped. -/
theorem skipSpace_append_cons {gap : List Char} (hgap : Blank gap) {c : Char}
    (hc : isSpace c = false) (rest : List Char) : skipSpace (gap ++ c :: rest) = c :: rest := by
  rw [skipSpace_append hgap, skipSpace_cons hc]

/-- A text is what is left of it when white space is skipped, behind white space. -/
theorem exists_eq_skipSpace (text : List Char) : ∃ gap, Blank gap ∧ text = gap ++ skipSpace text :=
  ⟨text.takeWhile isSpace, fun _ hc ↦ isSpace_iff.mp (List.mem_takeWhile_imp hc),
    List.takeWhile_append_dropWhile.symm⟩

theorem skipSpace_eq_nil_iff {text : List Char} : skipSpace text = [] ↔ Blank text := by
  simp [skipSpace, List.dropWhile_eq_nil_iff, isSpace_iff, Blank]

/-! ### Characters in a string literal -/

/-- A hexadecimal digit of either case, and its value. -/
def IsHexDigit (c : Char) (value : ℕ) : Prop :=
  value < 16 ∧ (c = value.digitChar ∨ c = value.digitChar.toUpper)

/-- Four hexadecimal digits write a number, the most significant one first. -/
def WritesUnit (digits : List Char) (unit : ℕ) : Prop :=
  ∃ values : List ℕ, values.length = 4 ∧ List.Forall₂ IsHexDigit digits values ∧
    unit = Nat.ofDigits 16 values.reverse

/-- A piece of a string literal writes a character: as itself, by an escape of one letter, by its
number in the first plane, or by the two halves of a number beyond that. -/
inductive Writes : List Char → Char → Prop
  | plain {c : Char} : ' ' ≤ c → c ≠ '"' → c ≠ '\\' → Writes [c] c
  | letter {letter c : Char} : (letter, c) ∈ letterEscapes → Writes ['\\', letter] c
  | numeral {digits : List Char} {c : Char} : WritesUnit digits c.toNat →
      Writes ('\\' :: 'u' :: digits) c
  | halves {leading trailing : List Char} {high low : ℕ} {c : Char} : high < 0x400 → low < 0x400 →
      WritesUnit leading (0xd800 + high) → WritesUnit trailing (0xdc00 + low) →
      c.toNat = 0x10000 + high * 0x400 + low →
      Writes ('\\' :: 'u' :: leading ++ '\\' :: 'u' :: trailing) c

/-- What stands between the quotes of a string literal, and the characters that it writes. -/
inductive Literal : List Char → List Char → Prop
  | nil : Literal [] []
  | cons {piece body characters : List Char} {c : Char} : Writes piece c →
      Literal body characters → Literal (piece ++ body) (c :: characters)

theorem hexValue?_eq_some_iff {c : Char} {value : ℕ} :
    hexValue? c = some value ↔ IsHexDigit c value := by
  constructor
  · have hall : ∀ n < 128, ∀ found ∈ hexValue? (Char.ofNat n), found < 16 ∧
        (Char.ofNat n = found.digitChar ∨ Char.ofNat n = found.digitChar.toUpper) := by
      decide +kernel
    intro h
    have hbound : c.toNat < 128 := by
      by_contra hlarge
      have hnone (bound : Char) (hbound : bound.toNat < 128) : ¬ c ≤ bound := by
        rw [Char.le_def, UInt32.le_iff_toNat_le]
        change ¬ c.toNat ≤ bound.toNat
        omega
      unfold hexValue? at h
      rw [if_neg fun hrange ↦ hnone '9' (by decide) hrange.2,
        if_neg fun hrange ↦ hnone 'f' (by decide) hrange.2,
        if_neg fun hrange ↦ hnone 'F' (by decide) hrange.2] at h
      cases h
    have hc := hall c.toNat hbound value (by rwa [Char.ofNat_toNat])
    rwa [Char.ofNat_toNat] at hc
  · rintro ⟨hvalue, rfl | rfl⟩
    · have hall : ∀ value < 16, hexValue? value.digitChar = some value := by decide
      exact hall value hvalue
    · have hall : ∀ value < 16, hexValue? value.digitChar.toUpper = some value := by decide
      exact hall value hvalue

/-- Digit by digit, a number of four digits. -/
theorem writesUnit_iff {digits : List Char} {unit : ℕ} : WritesUnit digits unit ↔
    ∃ a b c d first second third fourth, digits = [a, b, c, d] ∧ IsHexDigit a first ∧
      IsHexDigit b second ∧ IsHexDigit c third ∧ IsHexDigit d fourth ∧
      unit = ((first * 16 + second) * 16 + third) * 16 + fourth := by
  have hvalue (first second third fourth : ℕ) :
      Nat.ofDigits 16 [first, second, third, fourth].reverse =
        ((first * 16 + second) * 16 + third) * 16 + fourth := by
    simp only [List.reverse_cons, List.reverse_nil, List.nil_append, List.cons_append,
      Nat.ofDigits_cons, Nat.ofDigits_nil]
    ring
  constructor
  · rintro ⟨values, hlength, hdigits, rfl⟩
    obtain ⟨first, second, third, fourth, rfl⟩ := List.length_eq_four.mp hlength
    simp only [List.forall₂_cons_right_iff, List.forall₂_nil_right_iff] at hdigits
    obtain ⟨a, _, ha, ⟨b, _, hb, ⟨c, _, hc, ⟨d, _, hd, rfl, rfl⟩, rfl⟩, rfl⟩, rfl⟩ := hdigits
    exact ⟨a, b, c, d, first, second, third, fourth, rfl, ha, hb, hc, hd, hvalue ..⟩
  · rintro ⟨a, b, c, d, first, second, third, fourth, rfl, ha, hb, hc, hd, rfl⟩
    exact ⟨[first, second, third, fourth], rfl, by simp [*], (hvalue ..).symm⟩

theorem WritesUnit.lt {digits : List Char} {unit : ℕ} (h : WritesUnit digits unit) :
    unit < 0x10000 := by
  obtain ⟨_, _, _, _, first, second, third, fourth, -, ha, hb, hc, hd, rfl⟩ := writesUnit_iff.mp h
  have hfirst := ha.1
  have hsecond := hb.1
  have hthird := hc.1
  have hfourth := hd.1
  omega

/-- Four digits are read exactly where four digits stand. -/
theorem hexUnit?_eq_some_iff {text rest : List Char} {unit : ℕ} :
    hexUnit? text = some (unit, rest) ↔
      ∃ digits, text = digits ++ rest ∧ WritesUnit digits unit := by
  simp only [writesUnit_iff]
  constructor
  · intro h
    unfold hexUnit? at h
    split at h
    · rename_i a b c d tail
      simp only [Option.bind_eq_bind, Option.bind_eq_some_iff, Option.pure_def, Option.some.injEq,
        Prod.mk.injEq, hexValue?_eq_some_iff] at h
      obtain ⟨first, ha, second, hb, third, hc, fourth, hd, rfl, rfl⟩ := h
      exact ⟨[a, b, c, d], rfl, a, b, c, d, first, second, third, fourth, rfl, ha, hb, hc, hd, rfl⟩
    · cases h
  · rintro ⟨_, rfl, a, b, c, d, first, second, third, fourth, rfl, ha, hb, hc, hd, rfl⟩
    rw [← hexValue?_eq_some_iff] at ha hb hc hd
    simp [hexUnit?, ha, hb, hc, hd]

theorem readUnit_eq_ok_iff {text rest : List Char} {unit : ℕ} :
    readUnit text = .ok (unit, rest) ↔
      ∃ digits, text = digits ++ rest ∧ WritesUnit digits unit := by
  rw [← hexUnit?_eq_some_iff]
  unfold readUnit
  split
  · rename_i found hfound
    rw [hfound, Except.ok.injEq, Option.some.injEq]
  · rename_i hnone
    simp [hnone]

/-! ### Escapes -/

/-- The number of a character is one of the first plane, or it is made of two halves. -/
theorem toNat_joinHalves {high low : ℕ} (hhigh : high < 0x400) (hlow : low < 0x400) :
    (joinHalves (0xd800 + high) (0xdc00 + low)).toNat = 0x10000 + high * 0x400 + low := by
  have hvalid : (0x10000 + high * 0x400 + low).isValidChar := by
    right
    omega
  unfold joinHalves
  rw [Nat.add_sub_cancel_left, Nat.add_sub_cancel_left, Char.toNat_ofNat, if_pos hvalid]

theorem isTrailingHalf_iff {unit : ℕ} :
    isTrailingHalf unit = true ↔ ∃ low < 0x400, unit = 0xdc00 + low := by
  simp only [isTrailingHalf, Bool.and_eq_true, decide_eq_true_eq]
  constructor
  · rintro ⟨hleast, hless⟩
    exact ⟨unit - 0xdc00, by omega, by omega⟩
  · rintro ⟨low, hlow, rfl⟩
    omega

theorem isLeadingHalf_iff {unit : ℕ} :
    isLeadingHalf unit = true ↔ ∃ high < 0x400, unit = 0xd800 + high := by
  simp only [isLeadingHalf, Bool.and_eq_true, decide_eq_true_eq]
  constructor
  · rintro ⟨hleast, hless⟩
    exact ⟨unit - 0xd800, by omega, by omega⟩
  · rintro ⟨high, hhigh, rfl⟩
    omega

/-- A number of the first plane that is no half is the number of a character. -/
theorem toNat_ofNat_of_unit {unit : ℕ} (hunit : unit < 0x10000)
    (htrailing : isTrailingHalf unit = false) (hleading : isLeadingHalf unit = false) :
    (Char.ofNat unit).toNat = unit := by
  have hvalid : unit.isValidChar := by
    simp only [isTrailingHalf, isLeadingHalf, Bool.and_eq_false_iff, decide_eq_false_iff_not]
      at htrailing hleading
    by_cases hless : unit < 0xd800
    · exact .inl hless
    · right
      omega
  rw [Char.toNat_ofNat, if_pos hvalid]

/-- The number of a character is no half. -/
theorem not_half_toNat (c : Char) :
    isTrailingHalf c.toNat = false ∧ isLeadingHalf c.toNat = false := by
  have hvalid : c.toNat.isValidChar := c.valid
  simp only [isTrailingHalf, isLeadingHalf, Bool.and_eq_false_iff, decide_eq_false_iff_not]
  rcases hvalid with hless | hmore
  · omega
  · omega

theorem readTrailingHalf_eq_ok_iff {leading : ℕ} {text rest : List Char} {c : Char} :
    readTrailingHalf leading text = .ok (c, rest) ↔ ∃ digits trailing,
      text = '\\' :: 'u' :: digits ++ rest ∧ WritesUnit digits trailing ∧
        isTrailingHalf trailing = true ∧ c = joinHalves leading trailing := by
  constructor
  · intro h
    unfold readTrailingHalf at h
    split at h
    · cases h
    · cases h
    · split at h
      · cases h
      · rename_i tail trailing behind hunit
        obtain ⟨digits, rfl, hdigits⟩ := readUnit_eq_ok_iff.mp hunit
        split at h
        · rename_i htrailing
          simp only [Except.ok.injEq, Prod.mk.injEq] at h
          obtain ⟨hc, rfl⟩ := h
          exact ⟨digits, trailing, rfl, hdigits, htrailing, hc.symm⟩
        · cases h
    · cases h
  · rintro ⟨digits, trailing, rfl, hdigits, htrailing, hc⟩
    have hunit : readUnit (digits ++ rest) = .ok (trailing, rest) :=
      readUnit_eq_ok_iff.mpr ⟨digits, rfl, hdigits⟩
    rw [List.cons_append, List.cons_append]
    unfold readTrailingHalf
    simp only [hunit, htrailing, if_true, hc]

theorem lookup_letterEscapes {letter c : Char} :
    letterEscapes.lookup letter = some c ↔ (letter, c) ∈ letterEscapes := by
  constructor
  · intro h
    obtain ⟨front, back, hsplit, -⟩ := List.lookup_eq_some_iff.mp h
    rw [hsplit]
    simp
  · intro h
    have hall : ∀ entry ∈ letterEscapes, letterEscapes.lookup entry.1 = some entry.2 := by decide
    exact hall (letter, c) h

theorem readEscape_eq_ok_iff {text rest : List Char} {c : Char} :
    readEscape text = .ok (c, rest) ↔ ∃ piece, text = piece ++ rest ∧ Writes ('\\' :: piece) c := by
  constructor
  · intro h
    unfold readEscape at h
    split at h
    · cases h
    · split at h
      · cases h
      · rename_i tail unit behind hunit
        obtain ⟨digits, rfl, hdigits⟩ := readUnit_eq_ok_iff.mp hunit
        split at h
        · cases h
        · rename_i htrailing
          split at h
          · -- a leading half, and the trailing one behind it
            rename_i hleading
            obtain ⟨digits', trailing, rfl, hdigits', hsecond, hc⟩ :=
              readTrailingHalf_eq_ok_iff.mp h
            obtain ⟨high, hhigh, rfl⟩ := isLeadingHalf_iff.mp hleading
            obtain ⟨low, hlow, rfl⟩ := isTrailingHalf_iff.mp hsecond
            exact ⟨'u' :: digits ++ '\\' :: 'u' :: digits', by simp,
              .halves hhigh hlow hdigits hdigits' (by rw [hc, toNat_joinHalves hhigh hlow])⟩
          · rename_i hleading
            simp only [Except.ok.injEq, Prod.mk.injEq] at h
            obtain ⟨rfl, rfl⟩ := h
            have hnumber := toNat_ofNat_of_unit hdigits.lt (by simpa using htrailing)
              (by simpa using hleading)
            exact ⟨'u' :: digits, rfl, .numeral (by rwa [hnumber])⟩
    · rename_i letter tail hletter
      split at h
      · rename_i meant hmeant
        cases h
        exact ⟨[letter], rfl, .letter (lookup_letterEscapes.mp hmeant)⟩
      · cases h
  · rintro ⟨piece, rfl, hwrites⟩
    cases hwrites with
    | plain _ _ hne => exact absurd rfl hne
    | @letter letter c hmem =>
      have hlookup := lookup_letterEscapes.mpr hmem
      have hne : letter ≠ 'u' := by
        rintro rfl
        cases hlookup
      simp [readEscape, hlookup]
    | @numeral digits c hdigits =>
      have hunit : readUnit (digits ++ rest) = .ok (c.toNat, rest) :=
        readUnit_eq_ok_iff.mpr ⟨digits, rfl, hdigits⟩
      obtain ⟨htrailing, hleading⟩ := not_half_toNat c
      rw [List.cons_append]
      unfold readEscape
      simp [hunit, htrailing, hleading, Char.ofNat_toNat]
    | @halves leading trailing high low c hhigh hlow hleading htrailing hc =>
      have hunit : readUnit (leading ++ ('\\' :: 'u' :: trailing ++ rest)) =
          .ok (0xd800 + high, '\\' :: 'u' :: trailing ++ rest) :=
        readUnit_eq_ok_iff.mpr ⟨leading, rfl, hleading⟩
      have hnotTrailing : isTrailingHalf (0xd800 + high) = false := by
        simp only [isTrailingHalf, Bool.and_eq_false_iff, decide_eq_false_iff_not]
        omega
      have hread : readTrailingHalf (0xd800 + high) ('\\' :: 'u' :: trailing ++ rest) =
          .ok (c, rest) :=
        readTrailingHalf_eq_ok_iff.mpr ⟨trailing, _, rfl, htrailing,
          isTrailingHalf_iff.mpr ⟨low, hlow, rfl⟩,
          Char.toNat_inj.mp (hc.trans (toNat_joinHalves hhigh hlow).symm)⟩
      have htext : ('u' :: leading).append ('\\' :: 'u' :: trailing) ++ rest =
          'u' :: (leading ++ ('\\' :: 'u' :: trailing ++ rest)) := by simp
      rw [htext, readEscape, hunit]
      simp only [hnotTrailing, isLeadingHalf_iff.mpr ⟨high, hhigh, rfl⟩, hread, if_true]
      simp

/-! ### String literals -/

/-- A piece that writes a character begins with a backslash, or is the character itself. -/
theorem Writes.eq_cons {piece : List Char} {c : Char} (h : Writes piece c) :
    (piece = [c] ∧ ' ' ≤ c ∧ c ≠ '"' ∧ c ≠ '\\') ∨ ∃ more, piece = '\\' :: more := by
  cases h with
  | plain hleast hquote hslash => exact .inl ⟨rfl, hleast, hquote, hslash⟩
  | letter => exact .inr ⟨_, rfl⟩
  | numeral => exact .inr ⟨_, rfl⟩
  | halves => exact .inr ⟨_, rfl⟩

/-- An escape is one character of the literal. -/
theorem readString_escape {text rest : List Char} {c : Char}
    (h : readEscape text = .ok (c, rest)) :
    readString ('\\' :: text) = (readString rest).map fun found ↦ (c :: found.1, found.2) := by
  rw [readString, if_neg (by decide), if_pos rfl]
  split
  · rename_i fault hfault
    rw [h] at hfault
    cases hfault
  · rename_i meant rest' hmeant
    rw [h, Except.ok.injEq, Prod.mk.injEq] at hmeant
    obtain ⟨rfl, rfl⟩ := hmeant
    cases readString rest <;> rfl

/-- Any other character from the space on is one character of the literal. -/
theorem readString_plain {c : Char} (hquote : c ≠ '"') (hslash : c ≠ '\\') (hleast : ¬ c < ' ')
    (text : List Char) :
    readString (c :: text) = (readString text).map fun found ↦ (c :: found.1, found.2) := by
  rw [readString, if_neg hquote, if_neg hslash, if_neg hleast]
  cases readString text <;> rfl

/-- What is read behind an opening quote is what stands before the first closing one. -/
theorem readString_eq_ok_iff {text characters rest : List Char} :
    readString text = .ok (characters, rest) ↔
      ∃ body, text = body ++ '"' :: rest ∧ Literal body characters := by
  constructor
  · intro h
    fun_induction readString text generalizing characters with
    | case2 tail =>
      cases h
      exact ⟨[], rfl, .nil⟩
    | case5 tail meant tail' hescape found behind hfound _ ih =>
      simp only [Except.ok.injEq, Prod.mk.injEq] at h
      obtain ⟨rfl, rfl⟩ := h
      obtain ⟨piece, rfl, hpiece⟩ := readEscape_eq_ok_iff.mp hescape
      obtain ⟨body, rfl, hbody⟩ := ih hfound
      exact ⟨'\\' :: piece ++ body, by simp, .cons hpiece hbody⟩
    | case8 c tail hquote hslash hleast found behind hfound ih =>
      simp only [Except.ok.injEq, Prod.mk.injEq] at h
      obtain ⟨rfl, rfl⟩ := h
      obtain ⟨body, rfl, hbody⟩ := ih hfound
      exact ⟨[c] ++ body, rfl, .cons (.plain (not_lt.mp hleast) hquote hslash) hbody⟩
    | _ => cases h
  · rintro ⟨body, rfl, hbody⟩
    induction hbody with
    | nil => simp [readString]
    | @cons piece body characters c hpiece _ ih =>
      rw [List.append_assoc]
      rcases hpiece.eq_cons with ⟨rfl, hleast, hquote, hslash⟩ | ⟨more, rfl⟩
      · rw [List.singleton_append, readString_plain hquote hslash (not_lt.mpr hleast), ih]
        rfl
      · have hescape : readEscape (more ++ (body ++ '"' :: rest)) =
            .ok (c, body ++ '"' :: rest) := readEscape_eq_ok_iff.mpr ⟨more, rfl, hpiece⟩
        rw [List.cons_append, readString_escape hescape, ih]
        rfl

example : readString ['O', 's', '\\', 'u', '0', '0', '4', '5', '"', '\x7d'] =
    .ok (['O', 's', 'E'], ['\x7d']) := by
  cbv

/-! ### Tokens with white space between them -/

/-- A text of the given tokens, with white space around and between them. -/
def Spaced : (tokens : List (List Char)) → (text : List Char) → Prop
  | [], text => Blank text
  | token :: tokens, text =>
    ∃ gap rest, Blank gap ∧ text = gap ++ (token ++ rest) ∧ Spaced tokens rest

/-- The string literal with `body` between the quotes, as a token. -/
def quotedToken (body : List Char) : List Char := '"' :: body ++ ['"']

/-- The word `null`, as a token. -/
def nullToken : List Char := ['n', 'u', 'l', 'l']

/-- Nothing but white space is left exactly if no token is. -/
theorem spaced_nil_iff {text : List Char} : Spaced [] text ↔ skipSpace text = [] :=
  skipSpace_eq_nil_iff.symm

/-- The first token is what comes once white space is skipped. -/
theorem spaced_cons_iff {c : Char} (hc : isSpace c = false) {token : List Char}
    {tokens : List (List Char)} {text : List Char} :
    Spaced ((c :: token) :: tokens) text ↔
      ∃ rest, skipSpace text = c :: (token ++ rest) ∧ Spaced tokens rest := by
  constructor
  · rintro ⟨gap, rest, hgap, rfl, hrest⟩
    exact ⟨rest, skipSpace_append_cons hgap hc _, hrest⟩
  · rintro ⟨rest, htext, hrest⟩
    obtain ⟨gap, hgap, hsplit⟩ := exists_eq_skipSpace text
    exact ⟨gap, rest, hgap, by rw [hsplit, htext]; rfl, hrest⟩

theorem readWord_eq_ok_iff {word text rest : List Char} :
    readWord word text = .ok rest ↔ text = word ++ rest := by
  induction word generalizing text with
  | nil => simp [readWord]
  | cons expected word ih =>
    cases text with
    | nil => simp [readWord]
    | cons c text =>
      rw [readWord, List.cons_append, List.cons.injEq]
      split
      · rename_i hc
        rw [ih]
        exact ⟨fun h ↦ ⟨hc, h⟩, And.right⟩
      · rename_i hc
        simp [hc]

/-! ### The two shapes -/

section Read

variable {α : Type} {ofName? : String → Option α} {value : α} {text : List Char}

theorem finish_eq_ok_iff {found : α} :
    finish found text = .ok value ↔ value = found ∧ Spaced [] text := by
  rw [spaced_nil_iff]
  unfold finish
  split
  · rename_i hblank
    simp [hblank, eq_comm]
  · rename_i hblank
    simp [hblank]

theorem readName_eq_ok_iff {rest : List Char} :
    readName ofName? text = .ok (value, rest) ↔ ∃ body characters,
      text = body ++ '"' :: rest ∧ Literal body characters ∧
        ofName? (String.ofList characters) = some value := by
  constructor
  · intro h
    unfold readName at h
    split at h
    · cases h
    · rename_i characters behind hread
      obtain ⟨body, rfl, hbody⟩ := readString_eq_ok_iff.mp hread
      split at h
      · rename_i found hfound
        cases h
        exact ⟨body, characters, rfl, hbody, hfound⟩
      · cases h
  · rintro ⟨body, characters, rfl, hbody, hvalue⟩
    have hread : readString (body ++ '"' :: rest) = .ok (characters, rest) :=
      readString_eq_ok_iff.mpr ⟨body, rfl, hbody⟩
    simp only [readName, hread, hvalue]

/-- Behind the key of an object, the reader takes a colon, the word `null` and the closing brace. -/
theorem readNullMember_eq_ok_iff {found : α} :
    readNullMember found text = .ok value ↔
      value = found ∧ Spaced [[':'], nullToken, ['\x7d']] text := by
  unfold nullToken
  rw [spaced_cons_iff (by decide)]
  simp only [spaced_cons_iff (show isSpace 'n' = false by decide),
    spaced_cons_iff (show isSpace '\x7d' = false by decide), List.nil_append]
  constructor
  · intro h
    unfold readNullMember at h
    split at h
    · cases h
    · rename_i behind hcolon
      split at h
      · rename_i word hnull
        split at h
        · cases h
        · rename_i tail hword
          rw [readWord_eq_ok_iff] at hword
          subst hword
          split at h
          · cases h
          · rename_i last hbrace
            obtain ⟨hvalue, hlast⟩ := finish_eq_ok_iff.mp h
            exact ⟨hvalue, behind, hcolon, tail, hnull, last, hbrace, hlast⟩
          · cases h
      · cases h
    · cases h
  · rintro ⟨rfl, behind, hcolon, tail, hnull, last, hbrace, hlast⟩
    have hword : readWord ['u', 'l', 'l'] (['u', 'l', 'l'] ++ tail) = .ok tail :=
      readWord_eq_ok_iff.mpr rfl
    simp only [readNullMember, hcolon, hnull, hword, hbrace]
    exact finish_eq_ok_iff.mpr ⟨rfl, hlast⟩

/-- The two shapes of a text that holds a literal: the literal alone, and an object with the literal
as its only key and `null` as its value. -/
def shapes (body : List Char) : List (List (List Char)) :=
  [[quotedToken body], [['\x7b'], quotedToken body, [':'], nullToken, ['\x7d']]]

/-- A text that holds a name, in one of the two shapes. -/
def Form (name : String) (text : List Char) : Prop :=
  ∃ body, Literal body name.toList ∧ ∃ tokens ∈ shapes body, Spaced tokens text

theorem spaced_quoted_iff {body : List Char} {tokens : List (List Char)} :
    Spaced (quotedToken body :: tokens) text ↔
      ∃ rest, skipSpace text = '"' :: (body ++ '"' :: rest) ∧ Spaced tokens rest := by
  simp only [quotedToken, List.cons_append, spaced_cons_iff (show isSpace '"' = false by decide),
    List.append_assoc, List.nil_append]

/-- A text is read as a value exactly if it holds a name of the value in one of the two shapes. -/
theorem read_eq_ok_iff : read ofName? text = .ok value ↔
    ∃ name, ofName? name = some value ∧ Form name text := by
  constructor
  · intro h
    unfold read at h
    split at h
    · cases h
    · rename_i behind hquote
      split at h
      · cases h
      · rename_i found rest hname
        obtain ⟨body, characters, rfl, hbody, hfound⟩ := readName_eq_ok_iff.mp hname
        obtain ⟨rfl, hrest⟩ := finish_eq_ok_iff.mp h
        refine ⟨_, hfound, body, by rwa [String.toList_ofList], _, .head _, ?_⟩
        exact spaced_quoted_iff.mpr ⟨rest, hquote, hrest⟩
    · rename_i behind hbrace
      split at h
      · rename_i inner hquote
        split at h
        · cases h
        · rename_i found rest hname
          obtain ⟨body, characters, rfl, hbody, hfound⟩ := readName_eq_ok_iff.mp hname
          obtain ⟨rfl, hrest⟩ := readNullMember_eq_ok_iff.mp h
          refine ⟨_, hfound, body, by rwa [String.toList_ofList], _, .tail _ (.head _), ?_⟩
          exact (spaced_cons_iff (by decide)).mpr
            ⟨behind, hbrace, spaced_quoted_iff.mpr ⟨rest, hquote, hrest⟩⟩
      · cases h
    · cases h
  · rintro ⟨name, hvalue, body, hbody, tokens, htokens, htext⟩
    have hname (rest : List Char) : readName ofName? (body ++ '"' :: rest) = .ok (value, rest) :=
      readName_eq_ok_iff.mpr ⟨body, _, rfl, hbody, by rwa [String.ofList_toList]⟩
    simp only [shapes, List.mem_cons, List.not_mem_nil, or_false] at htokens
    obtain rfl | rfl := htokens
    · obtain ⟨rest, hquote, hrest⟩ := spaced_quoted_iff.mp htext
      simp only [read, hquote, hname]
      exact finish_eq_ok_iff.mpr ⟨rfl, hrest⟩
    · obtain ⟨behind, hbrace, hinner⟩ := (spaced_cons_iff (by decide)).mp htext
      obtain ⟨rest, hquote, hrest⟩ := spaced_quoted_iff.mp hinner
      simp only [read, hbrace, List.nil_append, hquote, hname]
      exact readNullMember_eq_ok_iff.mpr ⟨rfl, hrest⟩

end Read

/-! ### The plain form -/

/-- A text of characters that need no escape is written by itself. -/
theorem Literal.plain {characters : List Char}
    (h : ∀ c ∈ characters, ' ' ≤ c ∧ c ≠ '"' ∧ c ≠ '\\') : Literal characters characters := by
  induction characters with
  | nil => exact .nil
  | cons c characters ih =>
    obtain ⟨hleast, hquote, hslash⟩ := h c (.head _)
    exact .cons (.plain hleast hquote hslash) (ih fun c hc ↦ h c (.tail _ hc))

/-- What is stored for a name without characters that need an escape is one form of the name. -/
theorem form_stored {name : String} (h : ∀ c ∈ name.toList, ' ' ≤ c ∧ c ≠ '"' ∧ c ≠ '\\') :
    Form name (stored name).toList :=
  ⟨name.toList, .plain h, _, .head _, [], [], by simp [Blank], by simp [stored, quotedToken],
    by simp [Spaced, Blank]⟩

/-- A text holds one name at most. -/
theorem Form.name_unique {text : List Char} {name other : String} (h : Form name text)
    (hother : Form other text) : name = other := by
  have hname : read some text = .ok name := read_eq_ok_iff.mpr ⟨name, rfl, h⟩
  have hotherName : read some text = .ok other := read_eq_ok_iff.mpr ⟨other, rfl, hother⟩
  rw [hname] at hotherName
  exact Except.ok.inj hotherName

/-- The values of one kind are read from the texts that hold their names, in one of the two shapes,
and from no other text; whatever is read is stored again as its plain quoted name, and that is read
as the same value. -/
structure ReadsForms {α : Type} (ofName? : String → Option α) (name : α → String) : Prop where
  exact : ∀ text value, read ofName? text = .ok value ↔ Form (name value) text
  rejects : ∀ text, (∃ fault, read ofName? text = .error fault) ↔ ∀ value, ¬ Form (name value) text
  restores : ∀ text value, read ofName? text = .ok value →
    (read ofName? text).map (fun found ↦ stored (name found)) = .ok ("\"" ++ name value ++ "\"") ∧
      read ofName? ("\"" ++ name value ++ "\"").toList = .ok value

/-- It is enough that every value is found under its name only, and that no name has a character
that needs an escape. -/
theorem ReadsForms.of_names {α : Type} {ofName? : String → Option α} {name : α → String}
    (hfound : ∀ word value, ofName? word = some value ↔ word = name value)
    (hplain : ∀ value, ∀ c ∈ (name value).toList, ' ' ≤ c ∧ c ≠ '"' ∧ c ≠ '\\') :
    ReadsForms ofName? name := by
  have hexact (text : List Char) (value : α) :
      read ofName? text = .ok value ↔ Form (name value) text := by
    simp only [read_eq_ok_iff, hfound, exists_eq_left]
  refine ⟨hexact, fun text ↦ ?_, fun text value h ↦ ?_⟩
  · simp only [← hexact]
    cases read ofName? text <;> simp
  · have hstored : read ofName? (stored (name value)).toList = .ok value :=
      (hexact _ _).mpr (form_stored (hplain value))
    exact ⟨by rw [h]; rfl, hstored⟩

/-- The texts that are read as a nature and as a durability are exactly those that hold one of their
names: as a string literal, with any escapes, or as the only key of an object whose value is `null`,
with white space around and between the tokens. What is read is stored as the plain quoted name
again. No text is read as both. -/
theorem stored_forms_exact :
    ReadsForms Nature.ofName? Nature.name ∧ ReadsForms Durability.ofName? Durability.name ∧
      ∀ text nature durability, ¬ (read Nature.ofName? text = .ok nature ∧
        read Durability.ofName? text = .ok durability) := by
  have hnature : ReadsForms Nature.ofName? Nature.name :=
    .of_names (fun _ _ ↦ Nature.ofName?_eq_some_iff)
      (fun nature ↦ by cases nature <;> simp [Nature.name])
  have hdurability : ReadsForms Durability.ofName? Durability.name :=
    .of_names (fun _ _ ↦ Durability.ofName?_eq_some_iff)
      (fun durability ↦ by cases durability <;> simp [Durability.name])
  refine ⟨hnature, hdurability, ?_⟩
  rintro text nature durability ⟨hreadNature, hreadDurability⟩
  have hform := (hnature.exact text nature).mp hreadNature
  have hform' := (hdurability.exact text durability).mp hreadDurability
  exact nature.name_ne durability (hform.name_unique hform')

end Stored

end Escalation
