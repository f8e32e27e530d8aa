import Escalation.Proofs.Reading

/-!
# Quoted texts can be read back

Between double quotes, every character is spelled so that it can be told from what follows it: by
itself, as a letter behind a backslash, or by its number in braces (`Text.readEscaped?_escape`). No
character is spelled with a quote in front, so the first quote that is not behind a backslash ends
the text. Hence a quoted text and what stands behind it are determined by the two together, whatever
they hold (`Text.quoted_append_inj`).

Printable characters of ASCII stand for themselves, apart from the quote and the backslash
(`Text.quoted_of_printable`), and no line ends inside quotes (`Text.newline_not_mem_quoted`).
-/

set_option autoImplicit false
set_option relaxedAutoImplicit false

namespace Escalation.Text

/-! ### One character -/

/-- The characters that letters stand for behind a backslash. -/
def escapedLetters : List (Char × Char) :=
  [('0', '\x00'), ('t', '\t'), ('r', '\r'), ('n', '\n'), ('\\', '\\'), ('"', '"')]

/-- The first character that a text between double quotes spells, and what follows its spelling. -/
def readEscaped? : List Char → Option (Char × List Char)
  | [] => none
  | c :: rest =>
    if c = '\\' then
      match rest with
      | [] => none
      | letter :: behind =>
        if letter = 'u' then
          (cutAt? '\x7d' (behind.drop 1)).bind fun parts ↦
            (readNumeral? 16 parts.1).map fun point ↦ (Char.ofNat point, parts.2)
        else (escapedLetters.lookup letter).map fun meant ↦ (meant, behind)
    else some (c, rest)

theorem brace_not_mem_hexDigits (n : ℕ) : '\x7d' ∉ hexDigits n :=
  not_mem_toDigits (by decide) le_rfl (by decide) n

/-- A character is read back, and what follows it is left. -/
theorem readEscaped?_escape (c : Char) (rest : List Char) :
    readEscaped? (escape '"' c ++ rest) = some (c, rest) := by
  unfold escape
  split_ifs with hnul htab hreturn hline hslash hquote hvisible
  · rw [hnul]
    rfl
  · rw [htab]
    rfl
  · rw [hreturn]
    rfl
  · rw [hline]
    rfl
  · rw [hslash]
    rfl
  · rw [hquote]
    rfl
  · simp [readEscaped?, hslash]
  · have hcut : cutAt? '\x7d' (hexDigits c.toNat ++ '\x7d' :: rest) =
        some (hexDigits c.toNat, rest) := cutAt?_append (brace_not_mem_hexDigits _) rest
    have hpoint : readNumeral? 16 (hexDigits c.toNat) = some c.toNat :=
      readNumeral?_toDigits (by decide) le_rfl _
    simp [readEscaped?, hcut, hpoint, Char.ofNat_toNat]

/-- The spelling of a character tells where it ends. -/
theorem escape_append_inj {c other : Char} {rest more : List Char}
    (h : escape '"' c ++ rest = escape '"' other ++ more) : c = other ∧ rest = more := by
  have hread := readEscaped?_escape c rest
  rw [h, readEscaped?_escape, Option.some.injEq, Prod.mk.injEq] at hread
  exact ⟨hread.1.symm, hread.2.symm⟩

/-- No character is spelled with a quote in front. -/
theorem escape_ne_quote_cons (c : Char) (rest more : List Char) :
    escape '"' c ++ rest ≠ '"' :: more := by
  unfold escape
  split_ifs with hnul htab hreturn hline hslash hquote hvisible
  all_goals simp
  exact fun heq ↦ absurd heq hquote

/-! ### Texts -/

/-- The quote that ends a text tells it from what follows. -/
theorem flatMap_escape_inj {text other rest more : List Char}
    (h : text.flatMap (escape '"') ++ '"' :: rest = other.flatMap (escape '"') ++ '"' :: more) :
    text = other ∧ rest = more := by
  induction text generalizing other with
  | nil =>
    cases other with
    | nil => exact ⟨rfl, (List.cons.inj h).2⟩
    | cons c others =>
      rw [List.flatMap_cons, List.append_assoc] at h
      exact absurd h.symm (escape_ne_quote_cons c _ _)
  | cons c text ih =>
    cases other with
    | nil =>
      rw [List.flatMap_cons, List.append_assoc] at h
      exact absurd h (escape_ne_quote_cons c _ _)
    | cons d others =>
      rw [List.flatMap_cons, List.flatMap_cons, List.append_assoc, List.append_assoc] at h
      obtain ⟨rfl, hrest⟩ := escape_append_inj h
      obtain ⟨rfl, hmore⟩ := ih hrest
      exact ⟨rfl, hmore⟩

theorem toList_quoted (text : String) :
    (quoted text).toList = '"' :: text.toList.flatMap (escape '"') ++ ['"'] :=
  String.toList_ofList

/-- A quoted text and what follows it can be told apart, whatever they hold. -/
theorem quoted_append_inj {text other rest more : String}
    (h : quoted text ++ rest = quoted other ++ more) : text = other ∧ rest = more := by
  have hlist := congrArg String.toList h
  simp only [String.toList_append, toList_quoted, List.cons_append, List.append_assoc,
    List.nil_append, List.cons.injEq, true_and] at hlist
  obtain ⟨htext, hrest⟩ := flatMap_escape_inj hlist
  exact ⟨String.toList_inj.mp htext, String.toList_inj.mp hrest⟩

/-- Inside quotes no line ends. -/
theorem newline_not_mem_quoted (text : String) : '\n' ∉ (quoted text).toList := by
  have hescape (c : Char) : '\n' ∉ escape '"' c := by
    have hdigits : '\n' ∉ hexDigits c.toNat :=
      not_mem_toDigits (by decide) le_rfl (by decide) c.toNat
    unfold escape
    split_ifs with hnul htab hreturn hline hslash hquote hvisible
    · decide
    · decide
    · decide
    · decide
    · decide
    · simp [hquote]
    · simpa using Ne.symm hline
    · simp [hdigits]
  simp [toList_quoted, hescape]

/-- A printable character of ASCII that has no spelling of its own inside quotes. -/
def Printable (c : Char) : Prop := 0x20 ≤ c.toNat ∧ c.toNat ≤ 0x7e ∧ c ≠ '"' ∧ c ≠ '\\'

theorem escape_of_printable {c : Char} (h : Printable c) : escape '"' c = [c] := by
  have hall : ∀ point < 0x7f, 0x20 ≤ point → Char.ofNat point ≠ '"' → Char.ofNat point ≠ '\\' →
      escape '"' (Char.ofNat point) = [Char.ofNat point] := by decide +kernel
  obtain ⟨hleast, hmost, hquote, hslash⟩ := h
  have hc := hall c.toNat (by omega) hleast
  rw [Char.ofNat_toNat] at hc
  exact hc hquote hslash

/-- Printable characters stand for themselves inside quotes. -/
theorem quoted_of_printable {text : String} (h : ∀ c ∈ text.toList, Printable c) :
    quoted text = "\"" ++ text ++ "\"" := by
  have hspelled (characters : List Char) (hall : ∀ c ∈ characters, Printable c) :
      characters.flatMap (escape '"') = characters := by
    induction characters with
    | nil => rfl
    | cons c rest ih =>
      rw [List.forall_mem_cons] at hall
      rw [List.flatMap_cons, escape_of_printable hall.1, ih hall.2]
      rfl
  rw [← String.toList_inj, toList_quoted, hspelled text.toList h]
  simp

end Escalation.Text
