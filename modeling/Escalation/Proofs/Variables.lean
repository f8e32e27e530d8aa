import Mathlib
import Escalation.Settings

/-!
# What the variables of the environment say

The settings of a build are what two variables say, each of which may be missing. The first is a
switch: one of eight words with each letter in either ASCII case and any white space around it
(`Settings.SpellsSwitch`). The second is a mark, which is exactly one character. So a lookup is
asked for two names at most, and the answers alone decide which settings come of it, or which
variable is at fault and with what value (`Settings.load_decided_by_answers`).

A lookup may have a state of its own and answer differently each time it is asked.
-/

set_option autoImplicit false
set_option relaxedAutoImplicit false

namespace Escalation

/-! ### White space and letters -/

namespace Text

/-- The characters that count as white space. -/
def whiteSpace : List Char :=
  ['\t', '\n', '\x0b', '\x0c', '\r', ' ', '\u0085', '\u00a0', '\u1680', '\u2000', '\u2001',
    '\u2002', '\u2003', '\u2004', '\u2005', '\u2006', '\u2007', '\u2008', '\u2009', '\u200a',
    '\u2028', '\u2029', '\u202f', '\u205f', '\u3000']

theorem isBlank_iff_mem_whiteSpace (c : Char) : isBlank c = true ↔ c ∈ whiteSpace := by
  simp only [whiteSpace, List.mem_cons, List.not_mem_nil, or_false, ← Char.toNat_inj]
  simp only [isBlank, blankRanges, List.any_cons, List.any_nil, Bool.or_false, Bool.or_eq_true,
    Bool.and_eq_true, decide_eq_true_eq]
  change _ ↔ c.toNat = 0x09 ∨ c.toNat = 0x0a ∨ c.toNat = 0x0b ∨ c.toNat = 0x0c ∨ c.toNat = 0x0d ∨
    c.toNat = 0x20 ∨ c.toNat = 0x85 ∨ c.toNat = 0xa0 ∨ c.toNat = 0x1680 ∨ c.toNat = 0x2000 ∨
    c.toNat = 0x2001 ∨ c.toNat = 0x2002 ∨ c.toNat = 0x2003 ∨ c.toNat = 0x2004 ∨
    c.toNat = 0x2005 ∨ c.toNat = 0x2006 ∨ c.toNat = 0x2007 ∨ c.toNat = 0x2008 ∨
    c.toNat = 0x2009 ∨ c.toNat = 0x200a ∨ c.toNat = 0x2028 ∨ c.toNat = 0x2029 ∨
    c.toNat = 0x202f ∨ c.toNat = 0x205f ∨ c.toNat = 0x3000
  omega

section Trim

variable {before word behind : List Char}

/-- White space around a word is all that is trimmed. -/
theorem trim_append (hbefore : ∀ c ∈ before, isBlank c = true)
    (hword : ∀ c ∈ word, isBlank c = false) (hbehind : ∀ c ∈ behind, isBlank c = true) :
    trim (before ++ word ++ behind) = word := by
  have hdrop (text : List Char) (htext : ∀ c ∈ text, isBlank c = false) :
      text.dropWhile isBlank = text := by
    cases text with
    | nil => rfl
    | cons c rest => simp [htext c (by simp)]
  have hfront : (before ++ word ++ behind).dropWhile isBlank =
      (word ++ behind).dropWhile isBlank := by
    rw [List.append_assoc, List.dropWhile_append_of_pos hbefore]
  unfold trim
  rw [hfront]
  cases word with
  | nil => simp [List.dropWhile_eq_nil_iff.mpr hbehind]
  | cons c rest =>
    rw [List.cons_append, List.dropWhile_cons_of_neg (by simp [hword c (by simp)])]
    have hreverse : ((c :: rest) ++ behind).reverse.dropWhile isBlank = (c :: rest).reverse := by
      rw [List.reverse_append, List.dropWhile_append_of_pos (by simpa using hbehind)]
      exact hdrop _ (by simpa [or_comm] using hword)
    unfold dropTrailing
    rw [← List.cons_append, hreverse, List.reverse_reverse]

/-- A text is what is left of it after trimming, with white space around it. -/
theorem exists_eq_trim (text : List Char) : ∃ before behind, text = before ++ trim text ++ behind ∧
    (∀ c ∈ before, isBlank c = true) ∧ ∀ c ∈ behind, isBlank c = true := by
  let rest := text.dropWhile isBlank
  refine ⟨text.takeWhile isBlank, (rest.reverse.takeWhile isBlank).reverse, ?_, ?_, ?_⟩
  · have hrest : trim text ++ (rest.reverse.takeWhile isBlank).reverse = rest := by
      unfold trim dropTrailing
      rw [← List.reverse_append, List.takeWhile_append_dropWhile, List.reverse_reverse]
    rw [List.append_assoc, hrest, List.takeWhile_append_dropWhile]
  · exact fun c ↦ List.mem_takeWhile_imp
  · exact fun c hc ↦ List.mem_takeWhile_imp (List.mem_reverse.mp hc)

end Trim

/-! ### Letters in either case -/

theorem toNat_toLower (c : Char) :
    c.toLower.toNat = if 65 ≤ c.toNat ∧ c.toNat ≤ 90 then c.toNat + 32 else c.toNat := by
  unfold Char.toLower
  simp only [← Char.toNat_val, ge_iff_le, UInt32.le_iff_toNat_le]
  split_ifs with hcapital hrange hrange
  · rw [UInt32.toNat_add]
    change (c.val.toNat + 32) % 2 ^ 32 = _
    change _ ∧ c.val.toNat ≤ 90 at hcapital
    omega
  · exact absurd hcapital hrange
  · exact absurd hrange hcapital
  · rfl

theorem toNat_toUpper (c : Char) :
    c.toUpper.toNat = if 97 ≤ c.toNat ∧ c.toNat ≤ 122 then c.toNat - 32 else c.toNat := by
  unfold Char.toUpper
  simp only [← Char.toNat_val, UInt32.le_iff_toNat_le]
  split_ifs with hsmall hrange hrange
  · rw [UInt32.toNat_add]
    change (c.val.toNat + 4294967264) % 2 ^ 32 = _
    change 97 ≤ _ ∧ c.val.toNat ≤ 122 at hsmall
    omega
  · exact absurd hsmall hrange
  · exact absurd hrange hsmall
  · rfl

/-- A character that is no capital is the lower case of itself and of its capital, and of nothing
else. -/
theorem toLower_eq_iff {c letter : Char} (h : letter.isUpper = false) :
    c.toLower = letter ↔ c = letter ∨ c = letter.toUpper := by
  have hletter : ¬ (65 ≤ letter.toNat ∧ letter.toNat ≤ 90) := by
    simp only [Char.isUpper, ge_iff_le, UInt32.le_iff_toNat_le, decide_eq_false_iff_not] at h
    exact h
  simp only [← Char.toNat_inj, toNat_toLower, toNat_toUpper]
  split_ifs <;> omega

/-- Letters spell a word: each is the letter of the word at its place or the capital of it. -/
def Spells (letters : List Char) (word : String) : Prop :=
  List.Forall₂ (fun c letter ↦ c = letter ∨ c = letter.toUpper) letters word.toList

/-- Letters spell a word without capitals if they are the word in lower case. -/
theorem spells_iff {letters : List Char} {word : String}
    (h : ∀ letter ∈ word.toList, letter.isUpper = false) :
    Spells letters word ↔ letters.map Char.toLower = word.toList := by
  unfold Spells
  generalize word.toList = rest at h
  induction letters generalizing rest with
  | nil => simp [eq_comm]
  | cons c letters ih =>
    cases rest with
    | nil => simp
    | cons letter rest =>
      rw [List.forall₂_cons, List.map_cons, List.cons_eq_cons, toLower_eq_iff (h letter (by simp)),
        ih rest fun other hother ↦ h other (by simp [hother])]

end Text

open Text

namespace Settings

/-! ### Switches and marks -/

/-- The words that switch something on, and those that switch it off. -/
def wordsOf : Bool → List String
  | true => ["1", "true", "yes", "on"]
  | false => ["0", "false", "no", "off"]

/-- A value is a switch word in letters of either case, with white space around it. -/
def SpellsSwitch (value : String) (on : Bool) : Prop :=
  ∃ before letters behind word, value.toList = before ++ letters ++ behind ∧
    (∀ c ∈ before ++ behind, c ∈ whiteSpace) ∧ word ∈ wordsOf on ∧ Spells letters word

section Words

variable {word : String} {on : Bool}

theorem mem_switchWords_iff : (word, on) ∈ switchWords ↔ word ∈ wordsOf on := by
  cases on <;> simp [switchWords, wordsOf]

theorem lookup_switchWords (h : (word, on) ∈ switchWords) : switchWords.lookup word = some on := by
  have hall : ∀ entry ∈ switchWords, switchWords.lookup entry.1 = some entry.2 := by decide
  exact hall (word, on) h

/-- The letters of a switch word are no capitals, and neither they nor their capitals are white
space. -/
theorem letter_of_switchWords (h : (word, on) ∈ switchWords) :
    ∀ letter ∈ word.toList, letter.isUpper = false ∧ isBlank letter = false ∧
      isBlank letter.toUpper = false := by
  have hall : ((switchWords.flatMap fun entry ↦ entry.1.toList).all fun letter ↦
      !letter.isUpper && !isBlank letter && !isBlank letter.toUpper) = true := by decide +kernel
  intro letter hletter
  have hone := List.all_eq_true.mp hall letter (List.mem_flatMap.mpr ⟨(word, on), h, hletter⟩)
  simpa [and_assoc] using hone

end Words

/-- A switch says what its word says. -/
theorem switch?_eq_some_iff (value : String) (on : Bool) :
    switch? value = some on ↔ SpellsSwitch value on := by
  unfold switch?
  constructor
  · intro hlookup
    obtain ⟨front, rest, hwords, -⟩ := List.lookup_eq_some_iff.mp hlookup
    have hmem : (String.ofList ((trim value.toList).map Char.toLower), on) ∈ switchWords := by
      rw [hwords]
      simp
    obtain ⟨before, behind, hvalue, hbefore, hbehind⟩ := exists_eq_trim value.toList
    refine ⟨before, trim value.toList, behind, _, hvalue, ?_, mem_switchWords_iff.mp hmem, ?_⟩
    · intro c hc
      rw [← isBlank_iff_mem_whiteSpace]
      exact (List.mem_append.mp hc).elim (hbefore c) (hbehind c)
    · rw [spells_iff fun letter hletter ↦ (letter_of_switchWords hmem letter hletter).1]
      exact String.toList_ofList.symm
  · rintro ⟨before, letters, behind, word, hvalue, haround, hword, hspells⟩
    have hmem := mem_switchWords_iff.mpr hword
    have hletters := letter_of_switchWords hmem
    have hword : letters.map Char.toLower = word.toList :=
      (spells_iff fun letter hletter ↦ (hletters letter hletter).1).mp hspells
    have hblank : ∀ c ∈ letters, isBlank c = false := by
      intro c hc
      have hlower : c.toLower ∈ word.toList := hword ▸ List.mem_map_of_mem hc
      obtain ⟨hcapital, hsmall, hlarge⟩ := hletters c.toLower hlower
      rcases (toLower_eq_iff hcapital).mp rfl with hc | hc
      · rwa [← hc] at hsmall
      · rwa [← hc] at hlarge
    have htrim : trim value.toList = letters := by
      rw [hvalue]
      refine trim_append (fun c hc ↦ ?_) hblank fun c hc ↦ ?_
      · exact (isBlank_iff_mem_whiteSpace c).mpr (haround c (by simp [hc]))
      · exact (isBlank_iff_mem_whiteSpace c).mpr (haround c (by simp [hc]))
    rw [htrim, hword, String.ofList_toList]
    exact lookup_switchWords hmem

/-- A mark is the only character of its value. -/
theorem mark?_eq_some_iff (value : String) (mark : Char) :
    mark? value = some mark ↔ value.toList = [mark] := by
  unfold mark?
  split <;> simp_all

/-! ### Answers -/

/-- Capturing is as the answer to the first question says; without one, addresses are captured. -/
def CaptureSaid : Option String → Bool → Prop
  | none, capturing => capturing = true
  | some value, capturing => SpellsSwitch value capturing

/-- The mark is as the answer to the second question says; without one, it is a low line. -/
def MarkSaid : Option String → Char → Prop
  | none, mark => mark = '_'
  | some value, mark => value.toList = [mark]

/-- Settings whose capturing and mark are as two answers say, in a build that raises failures or
does not. -/
structure Said (throwing : Bool) (capture mark : Option String) (settings : Settings) : Prop where
  throwing : settings.throwing = throwing
  capturing : CaptureSaid capture settings.capturing
  indent : MarkSaid mark settings.indent

section Answers

variable (throwing : Bool) (answer : Option String)

/-- The first answer is usable, and says whether addresses are captured, or it is a value that is no
switch. -/
theorem withCapture_cases : (∃ capturing, CaptureSaid answer capturing ∧
      (standard throwing).withCapture answer = .ok { throwing, capturing }) ∨
    (∀ capturing, ¬ CaptureSaid answer capturing) ∧ ∃ value, answer = some value ∧
      (standard throwing).withCapture answer = .error (.switch captureVariable value) := by
  cases answer with
  | none => exact .inl ⟨true, rfl, rfl⟩
  | some value =>
    cases hswitch : switch? value with
    | some capturing =>
      exact .inl ⟨capturing, (switch?_eq_some_iff value capturing).mp hswitch,
        by simp [withCapture, hswitch, standard]⟩
    | none =>
      refine .inr ⟨fun capturing hsaid ↦ ?_, value, rfl, by simp [withCapture, hswitch]⟩
      rw [(switch?_eq_some_iff value capturing).mpr hsaid] at hswitch
      cases hswitch

/-- The same of the second answer and the mark. -/
theorem withMark_cases (capturing : Bool) : (∃ indent, MarkSaid answer indent ∧
      withMark { throwing, capturing } answer = .ok { throwing, capturing, indent }) ∨
    (∀ indent, ¬ MarkSaid answer indent) ∧ ∃ value, answer = some value ∧
      withMark { throwing, capturing } answer = .error (.mark indentVariable value) := by
  cases answer with
  | none => exact .inl ⟨'_', rfl, rfl⟩
  | some value =>
    cases hmark : mark? value with
    | some indent =>
      exact .inl ⟨indent, (mark?_eq_some_iff value indent).mp hmark, by simp [withMark, hmark]⟩
    | none =>
      refine .inr ⟨fun indent hsaid ↦ ?_, value, rfl, by simp [withMark, hmark]⟩
      rw [(mark?_eq_some_iff value indent).mpr hsaid] at hmark
      cases hmark

end Answers

theorem CaptureSaid.unique {answer : Option String} {capturing other : Bool}
    (h : CaptureSaid answer capturing) (hother : CaptureSaid answer other) :
    capturing = other := by
  cases answer with
  | none => exact Eq.trans h hother.symm
  | some value =>
    have hswitch := (switch?_eq_some_iff value capturing).mpr h
    rw [(switch?_eq_some_iff value other).mpr hother] at hswitch
    exact (Option.some.inj hswitch).symm

theorem MarkSaid.unique {answer : Option String} {mark other : Char}
    (h : MarkSaid answer mark) (hother : MarkSaid answer other) : mark = other := by
  cases answer with
  | none => exact Eq.trans h hother.symm
  | some value =>
    have hlist : [mark] = [other] := Eq.trans h.symm hother
    exact List.cons.inj hlist |>.1

/-! ### The build -/

section Build

variable (settings : Settings) (throwing : Bool) (value : Option String)

theorem withCapture_throwing : withCapture { settings with throwing } value =
    (settings.withCapture value).map fun changed ↦ { changed with throwing } := by
  unfold withCapture
  rcases value with _ | text
  · rfl
  · dsimp only
    rcases switch? text with _ | capturing <;> rfl

theorem withMark_throwing : withMark { settings with throwing } value =
    (settings.withMark value).map fun changed ↦ { changed with throwing } := by
  unfold withMark
  rcases value with _ | text
  · rfl
  · dsimp only
    rcases mark? text with _ | indent <;> rfl

/-- Loading the settings gives the same in every build, whether failures are raised apart. -/
theorem load_throwing (other : Bool) (look : String → Id (Option String)) :
    (load throwing look).run =
      (load other look).run.map fun settings ↦ { settings with throwing } := by
  have hcapture := withCapture_throwing (standard other) throwing (look captureVariable)
  have hstandard : { standard other with throwing } = standard throwing := rfl
  rw [hstandard] at hcapture
  unfold load
  simp only [Id.run_bind]
  change Id.run _ = Except.map _ (Id.run _)
  rw [show Id.run (look captureVariable) = look captureVariable from rfl, hcapture]
  rcases (standard other).withCapture (look captureVariable) with problem | settings
  · rfl
  · exact withMark_throwing settings throwing (look indentVariable)

end Build

/-! ### Lookups -/

section Lookups

variable {σ : Type} (lookup : String → StateM σ (Option String))

/-- A lookup that notes the names it is asked for. -/
def noting (key : String) : StateM (σ × List String) (Option String) := fun (state, asked) ↦
  let (answer, reached) := (lookup key).run state
  (answer, reached, asked ++ [key])

/-- Settings are loaded from the two answers that the lookup gives one after the other, and the
second question is asked only if the first answer is usable. -/
theorem run_load (throwing : Bool) (state : σ) (asked : List String) :
    (load throwing (noting lookup)).run (state, asked) =
      let first := (lookup captureVariable).run state
      let second := (lookup indentVariable).run first.2
      match (standard throwing).withCapture first.1 with
      | .error problem => (.error problem, first.2, asked ++ [captureVariable])
      | .ok settings =>
        (settings.withMark second.1, second.2, asked ++ [captureVariable, indentVariable]) := by
  dsimp only
  have hload : (load throwing (noting lookup)).run (state, asked) =
      (match (standard throwing).withCapture ((lookup captureVariable).run state).1 with
        | .error problem => pure (.error problem)
        | .ok settings => do return settings.withMark (← noting lookup indentVariable) :
          StateM (σ × List String) (Except Problem Settings)).run
        (((lookup captureVariable).run state).2, asked ++ [captureVariable]) := rfl
  rw [hload]
  cases (standard throwing).withCapture ((lookup captureVariable).run state).1 with
  | error problem => rfl
  | ok settings =>
    change (settings.withMark _, _, asked ++ [captureVariable] ++ [indentVariable]) = _
    rw [List.append_assoc]
    rfl

/-- Loading ends in one of three ways: both answers are usable, the second is the first one that is
not, or the first is not. -/
theorem run_load_cases (throwing : Bool) (state : σ) (asked : List String) :
    let first := (lookup captureVariable).run state
    let second := (lookup indentVariable).run first.2
    let loaded := (load throwing (noting lookup)).run (state, asked)
    (∃ capturing indent, CaptureSaid first.1 capturing ∧ MarkSaid second.1 indent ∧
      loaded = (.ok { throwing, capturing, indent }, second.2,
        asked ++ [captureVariable, indentVariable])) ∨
    (∃ capturing value, CaptureSaid first.1 capturing ∧ second.1 = some value ∧
      (∀ mark, value.toList ≠ [mark]) ∧ loaded = (.error (.mark indentVariable value), second.2,
        asked ++ [captureVariable, indentVariable])) ∨
    ∃ value, first.1 = some value ∧ (∀ on, ¬ SpellsSwitch value on) ∧
      loaded = (.error (.switch captureVariable value), first.2, asked ++ [captureVariable]) := by
  intro first second loaded
  have hloaded : loaded = _ := run_load lookup throwing state asked
  rcases withCapture_cases throwing first.1 with
    ⟨capturing, hcapture, hstandard⟩ | ⟨hunusable, value, hvalue, hstandard⟩
  · rcases withMark_cases throwing second.1 capturing with
      ⟨indent, hindent, hmark⟩ | ⟨hunusable, value, hvalue, hmark⟩
    · refine .inl ⟨capturing, indent, hcapture, hindent, ?_⟩
      rw [hloaded]
      simp only [hstandard, hmark, first, second]
    · rw [hvalue] at hunusable
      refine .inr (.inl ⟨capturing, value, hcapture, hvalue, hunusable, ?_⟩)
      rw [hloaded]
      simp only [hstandard, hmark, first, second]
  · rw [hvalue] at hunusable
    refine .inr (.inr ⟨value, hvalue, hunusable, ?_⟩)
    rw [hloaded]
    simp only [hstandard, first]

/-- Loading succeeds with the settings that both answers say. -/
theorem load_eq_ok_iff (throwing : Bool) (state : σ) (asked : List String) (settings : Settings) :
    let first := (lookup captureVariable).run state
    ((load throwing (noting lookup)).run (state, asked)).1 = .ok settings ↔
      Said throwing first.1 ((lookup indentVariable).run first.2).1 settings := by
  intro first
  rcases run_load_cases lookup throwing state asked with
    ⟨capturing, indent, hcapture, hindent, hend⟩ | ⟨capturing, value, -, hvalue, hunusable, hend⟩ |
    ⟨value, hvalue, hunusable, hend⟩
  · -- An answer says one thing only, so the settings that both answers say are those loaded.
    rw [hend]
    constructor
    · rintro ⟨⟩
      exact ⟨rfl, hcapture, hindent⟩
    · rintro ⟨rfl, hcapturing, hsaid⟩
      rw [hcapture.unique hcapturing, hindent.unique hsaid]
  · rw [hend]
    refine ⟨nofun, fun hsaid ↦ ?_⟩
    have hindent := hsaid.indent
    rw [hvalue] at hindent
    exact absurd hindent (hunusable settings.indent)
  · rw [hend]
    refine ⟨nofun, fun hsaid ↦ ?_⟩
    have hcapturing := hsaid.capturing
    rw [hvalue] at hcapturing
    exact absurd hcapturing (hunusable settings.capturing)

/-- Loading fails with the first variable at fault and its value as it was found. -/
theorem load_eq_error_iff (throwing : Bool) (state : σ) (asked : List String) (problem : Problem) :
    let first := (lookup captureVariable).run state
    ((load throwing (noting lookup)).run (state, asked)).1 = .error problem ↔
      (∃ value, first.1 = some value ∧ (∀ on, ¬ SpellsSwitch value on) ∧
        problem = .switch captureVariable value) ∨
      (∃ capturing, CaptureSaid first.1 capturing) ∧
        ∃ value, ((lookup indentVariable).run first.2).1 = some value ∧
          (∀ mark, value.toList ≠ [mark]) ∧ problem = .mark indentVariable value := by
  intro first
  rcases run_load_cases lookup throwing state asked with
    ⟨capturing, indent, hcapture, hindent, hend⟩ |
    ⟨capturing, value, hcapture, hvalue, hunusable, hend⟩ | ⟨value, hvalue, hunusable, hend⟩
  · rw [hend]
    refine ⟨nofun, ?_⟩
    rintro (⟨value, hvalue, hunusable, -⟩ | ⟨-, value, hvalue, hunusable, -⟩)
    · rw [hvalue] at hcapture
      exact absurd hcapture (hunusable capturing)
    · rw [hvalue] at hindent
      exact absurd hindent (hunusable indent)
  · rw [hend]
    constructor
    · rintro ⟨⟩
      exact .inr ⟨⟨capturing, hcapture⟩, value, hvalue, hunusable, rfl⟩
    · rintro (⟨other, hother, hnone, -⟩ | ⟨-, other, hother, -, rfl⟩)
      · rw [hother] at hcapture
        exact absurd hcapture (hnone capturing)
      · rw [Option.some.inj (hvalue.symm.trans hother)]
  · rw [hend]
    constructor
    · rintro ⟨⟩
      exact .inl ⟨value, hvalue, hunusable, rfl⟩
    · rintro (⟨other, hother, -, rfl⟩ | ⟨⟨capturing, hcapture⟩, -⟩)
      · rw [Option.some.inj (hvalue.symm.trans hother)]
      · rw [hvalue] at hcapture
        exact absurd hcapture (hunusable capturing)

/-- Which settings a lookup gives is decided by its answers to two questions, and by nothing else
about it. It is asked for the capturing of addresses first, and for the mark only if that answer is
usable. Loading succeeds with the settings that both answers say, and fails otherwise with the first
variable at fault and its value as it was found. -/
theorem load_decided_by_answers (throwing : Bool) (state : σ) (asked : List String) :
    let capture := "FAULTLINE_CAPTURE_TRACES"
    let indent := "FAULTLINE_INDENT"
    (∀ other : String → StateM σ (Option String), other capture = lookup capture →
      other indent = lookup indent → load throwing other = load throwing lookup) ∧
    let first := (lookup capture).run state
    let second := (lookup indent).run first.2
    let loaded := (load throwing (noting lookup)).run (state, asked)
    (∀ settings, loaded.1 = .ok settings ↔ Said throwing first.1 second.1 settings) ∧
      (∀ problem, loaded.1 = .error problem ↔
        (∃ value, first.1 = some value ∧ (∀ on, ¬ SpellsSwitch value on) ∧
          problem = .switch capture value) ∨
        (∃ capturing, CaptureSaid first.1 capturing) ∧ ∃ value, second.1 = some value ∧
          (∀ mark, value.toList ≠ [mark]) ∧ problem = .mark indent value) ∧
      ((∃ capturing, CaptureSaid first.1 capturing) →
        loaded.2 = (second.2, asked ++ [capture, indent])) ∧
      ((¬ ∃ capturing, CaptureSaid first.1 capturing) →
        loaded.2 = (first.2, asked ++ [capture])) := by
  -- The names of the variables are those that loading asks for.
  have hcapture : "FAULTLINE_CAPTURE_TRACES" = captureVariable := rfl
  have hindent : "FAULTLINE_INDENT" = indentVariable := rfl
  dsimp only
  rw [hcapture, hindent]
  refine ⟨fun other hcapture hindent ↦ by simp only [load, hcapture, hindent],
    load_eq_ok_iff lookup throwing state asked, load_eq_error_iff lookup throwing state asked,
    ?_, ?_⟩
  · rintro ⟨capturing, hcapture⟩
    rcases run_load_cases lookup throwing state asked with
      ⟨_, _, -, -, hend⟩ | ⟨_, _, -, -, -, hend⟩ | ⟨value, hvalue, hunusable, -⟩
    · rw [hend]
    · rw [hend]
    · rw [hvalue] at hcapture
      exact absurd hcapture (hunusable capturing)
  · intro hnone
    rcases run_load_cases lookup throwing state asked with
      ⟨capturing, _, hcapture, -, -⟩ | ⟨capturing, _, hcapture, -, -, -⟩ | ⟨_, -, -, hend⟩
    · exact absurd ⟨capturing, hcapture⟩ hnone
    · exact absurd ⟨capturing, hcapture⟩ hnone
    · rw [hend]

end Lookups

/-- A switch in mixed case between two kinds of white space, and a mark beyond ASCII. -/
theorem load_of_spaced_switch :
    let lookup (key : String) : StateM Unit (Option String) :=
      pure (if key = "FAULTLINE_CAPTURE_TRACES" then some "\u00a0nO\t" else some "→")
    SpellsSwitch "\u00a0nO\t" false ∧
      (load true (noting lookup)).run ((), ["HOME"]) =
        (.ok { throwing := true, capturing := false, indent := '→' }, (),
          ["HOME", "FAULTLINE_CAPTURE_TRACES", "FAULTLINE_INDENT"]) := by
  intro lookup
  have hspells : SpellsSwitch "\u00a0nO\t" false := by
    refine ⟨['\u00a0'], ['n', 'O'], ['\t'], "no", by decide, ?_, by decide, ?_⟩
    · simp [whiteSpace]
    · exact .cons (.inl rfl) (.cons (.inr rfl) .nil)
  obtain ⟨-, hsaid, -, hasked, -⟩ := load_decided_by_answers lookup true () ["HOME"]
  have hmark : MarkSaid ((lookup indentVariable).run ()).1 '→' := by
    change MarkSaid (if indentVariable = captureVariable then some "\u00a0nO\t" else some "→") '→'
    rw [if_neg (by decide)]
    rfl
  refine ⟨hspells, Prod.ext ?_ (hasked ⟨false, hspells⟩)⟩
  exact (hsaid _).mpr ⟨rfl, hspells, hmark⟩

end Settings

end Escalation
