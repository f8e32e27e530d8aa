import Mathlib.Data.Nat.Basic
import Escalation.Failure.Display
import Escalation.Text.Excerpt

/-!
# The text of a failure can be read back

`Failure.text` escapes nothing: a description may hold line ends, a forged list of addresses, or
words that look like a remark, and one nature begins the text of another. The text is read from both
ends all the same. From the end, the line after the last line end lists the addresses, whatever
stands in front of it (`readAddresses?_text`), since addresses hold no line end. From the beginning,
a line with a site and the word `context` is a remark, and the first line with a site and another
word is the headline (`readRemarks_append`, `readHeadline?_headline`); the description is what is
left of it. That takes sites whose files hold no colon and remarks of one line
(`Failure.Legible`); the failure's own description is any text.

`text_readable` puts the two together: the addresses are read back from every text, everything that
a failure shows (`Failure.shown`) is read back from the text of a legible failure, and so two
failures of one text agree in it.
-/

set_option autoImplicit false
set_option relaxedAutoImplicit false

namespace Escalation

open Text

/-! ### Marks and words -/

/-- What follows `word` in a text that begins with it. -/
def behind? (word text : List Char) : Option (List Char) :=
  if word.isPrefixOf text then some (text.drop word.length) else none

@[simp] theorem behind?_append (word rest : List Char) :
    behind? word (word ++ rest) = some rest := by
  simp [behind?]

/-- The parts of a text in front of the first `mark` and behind it. -/
def cutAt? (mark : Char) : List Char → Option (List Char × List Char)
  | [] => none
  | c :: rest =>
    if c = mark then some ([], rest)
    else (cutAt? mark rest).map fun parts ↦ (c :: parts.1, parts.2)

theorem cutAt?_append {mark : Char} {front : List Char} (hfront : mark ∉ front)
    (back : List Char) : cutAt? mark (front ++ mark :: back) = some (front, back) := by
  induction front with
  | nil => simp [cutAt?]
  | cons c front ih =>
    rw [List.mem_cons, not_or] at hfront
    simp [cutAt?, Ne.symm hfront.1, ih hfront.2]

theorem length_of_cutAt? {mark : Char} {text front back : List Char}
    (hcut : cutAt? mark text = some (front, back)) : back.length < text.length := by
  induction text generalizing front with
  | nil => simp [cutAt?] at hcut
  | cons c rest ih =>
    unfold cutAt? at hcut
    split at hcut
    · cases hcut
      simp
    · obtain ⟨parts, hparts, heq⟩ := Option.map_eq_some_iff.mp hcut
      cases heq
      exact Nat.lt_succ_of_lt (ih hparts)

/-- The parts of a text in front of the last `mark` and behind it. -/
def cutAtLast? (mark : Char) (text : List Char) : Option (List Char × List Char) :=
  (cutAt? mark text.reverse).map fun parts ↦ (parts.2.reverse, parts.1.reverse)

theorem cutAtLast?_append {mark : Char} {back : List Char} (hback : mark ∉ back)
    (front : List Char) : cutAtLast? mark (front ++ mark :: back) = some (front, back) := by
  have hreverse : (front ++ mark :: back).reverse = back.reverse ++ mark :: front.reverse := by simp
  rw [cutAtLast?, hreverse, cutAt?_append (by simpa using hback)]
  simp

theorem not_mem_intercalate {mark : Char} {separator : List Char} {words : List (List Char)}
    (hseparator : mark ∉ separator) (hwords : ∀ word ∈ words, mark ∉ word) :
    mark ∉ separator.intercalate words := by
  induction words with
  | nil => simp
  | cons word rest ih =>
    rw [List.forall_mem_cons] at hwords
    cases rest with
    | nil => simpa using hwords.1
    | cons next rest =>
      rw [List.intercalate_cons_cons]
      simp only [List.mem_append, not_or]
      exact ⟨⟨hwords.1, hseparator⟩, ih hwords.2⟩

/-! ### Numerals -/

/-- The digit below `base` that a character stands for. -/
def digitOf? (base : Nat) (c : Char) : Option Nat :=
  (List.range base).find? fun digit ↦ digit.digitChar == c

theorem digitOf?_digitChar {base digit : Nat} (hbase : base ≤ 16) (hdigit : digit < base) :
    digitOf? base digit.digitChar = some digit := by
  have hall : ∀ base < 17, ∀ digit < base, digitOf? base digit.digitChar = some digit := by decide
  exact hall base (by omega) digit hdigit

/-- The number that a row of digits stands for, with the number in front of them. -/
def readDigits? (base : Nat) : (value : Nat) → List Char → Option Nat
  | value, [] => some value
  | value, c :: rest =>
    (digitOf? base c).bind fun digit ↦ readDigits? base (base * value + digit) rest

/-- The number that a numeral stands for. -/
def readNumeral? (base : Nat) (numeral : List Char) : Option Nat :=
  if numeral.isEmpty then none else readDigits? base 0 numeral

theorem readDigits?_append (base value : Nat) (front back : List Char) :
    readDigits? base value (front ++ back) =
      (readDigits? base value front).bind fun value ↦ readDigits? base value back := by
  induction front generalizing value with
  | nil => rfl
  | cons c front ih =>
    cases hdigit : digitOf? base c with
    | none => simp [readDigits?, hdigit]
    | some digit => simp [readDigits?, hdigit, ih]

theorem readDigits?_toDigits {base : Nat} (hone : 1 < base) (hbase : base ≤ 16) (n : Nat) :
    readDigits? base 0 (Nat.toDigits base n) = some n := by
  induction n using Nat.strongRecOn with
  | _ n ih =>
    rw [Nat.toDigits_eq_if hone]
    split
    case isTrue hlt => simp [readDigits?, digitOf?_digitChar hbase hlt]
    case isFalse hle =>
      have hless : n / base < n := Nat.div_lt_self (by omega) hone
      have hmod : n % base < base := Nat.mod_lt n (by omega)
      rw [readDigits?_append, ih _ hless]
      simp [readDigits?, digitOf?_digitChar hbase hmod, Nat.div_add_mod]

/-- A numeral is read back. -/
theorem readNumeral?_toDigits {base : Nat} (hone : 1 < base) (hbase : base ≤ 16) (n : Nat) :
    readNumeral? base (Nat.toDigits base n) = some n := by
  simp [readNumeral?, Nat.toDigits_ne_nil, readDigits?_toDigits hone hbase]

theorem not_mem_toDigits {base : Nat} {mark : Char} (hone : 1 < base) (hbase : base ≤ 16)
    (hmark : ∀ digit < 16, Nat.digitChar digit ≠ mark) (n : Nat) :
    mark ∉ Nat.toDigits base n := by
  induction n using Nat.strongRecOn with
  | _ n ih =>
    rw [Nat.toDigits_eq_if hone]
    split
    case isTrue hlt => simpa using (hmark n (by omega)).symm
    case isFalse hle =>
      have hless : n / base < n := Nat.div_lt_self (by omega) hone
      have hmod : n % base < base := Nat.mod_lt n (by omega)
      have hlast : mark ≠ (n % base).digitChar := (hmark _ (by omega)).symm
      simp [ih _ hless, hlast]

/-! ### The line of the addresses -/

/-- The address that a word stands for. -/
def readAddress? (word : List Char) : Option UInt64 :=
  (behind? addressSign word).bind fun numeral ↦ (readNumeral? 16 numeral).map UInt64.ofNat

/-- The addresses that a line lists. -/
def readTrace? (line : List Char) : Option (List UInt64) :=
  (behind? addressMark line).bind fun words ↦
    if words.isEmpty then some [] else (words.splitOn ' ').mapM readAddress?

/-- What stands in front of the last line of a text, and the addresses that this line lists. -/
def readTail? (text : List Char) : Option (List Char × List UInt64) :=
  (cutAtLast? '\n' text).bind fun parts ↦
    (readTrace? parts.2).map fun addresses ↦ (parts.1, addresses)

theorem toList_addressText (address : UInt64) :
    (addressText address).toList = addressSign ++ Nat.toDigits 16 address.toNat := by
  simp [addressText, addressSign, hexDigits]

theorem readAddress?_addressText (address : UInt64) :
    readAddress? (addressText address).toList = some address := by
  rw [toList_addressText, readAddress?, behind?_append]
  simp [readNumeral?_toDigits]

theorem not_mem_addressText {mark : Char} (hmark : ∀ digit < 16, Nat.digitChar digit ≠ mark)
    (hsign : mark ∉ addressSign) (address : UInt64) : mark ∉ (addressText address).toList := by
  rw [toList_addressText, List.mem_append, not_or]
  exact ⟨hsign, not_mem_toDigits (by decide) (by decide) hmark _⟩

theorem space_not_mem_addressText (address : UInt64) : ' ' ∉ (addressText address).toList :=
  not_mem_addressText (by decide) (by decide) address

theorem newline_not_mem_addressText (address : UInt64) : '\n' ∉ (addressText address).toList :=
  not_mem_addressText (by decide) (by decide) address

namespace Trace

theorem toList_text (trace : Trace) :
    trace.text.toList =
      [' '].intercalate (trace.addresses.map fun address ↦ (addressText address).toList) := by
  simp [text, String.toList_intercalate, Function.comp_def]

theorem newline_not_mem_text (trace : Trace) : '\n' ∉ trace.text.toList := by
  rw [toList_text]
  apply not_mem_intercalate (by decide)
  simpa using fun address _ ↦ newline_not_mem_addressText address

end Trace

theorem mapM_readAddress? (addresses : List UInt64) :
    (addresses.map fun address ↦ (addressText address).toList).mapM readAddress? =
      some addresses := by
  induction addresses with
  | nil => rfl
  | cons address rest ih => simp [readAddress?_addressText, ih]

/-- The line of the addresses is read back. -/
theorem readTrace?_text (trace : Trace) :
    readTrace? (addressMark ++ trace.text.toList) = some trace.addresses := by
  rw [readTrace?, behind?_append, Option.bind_some, Trace.toList_text]
  cases haddresses : trace.addresses with
  | nil => rfl
  | cons first rest =>
    have hwords : ∀ word ∈ (first :: rest).map fun address ↦ (addressText address).toList,
        ' ' ∉ word := by
      simpa using
        ⟨space_not_mem_addressText first, fun address _ ↦ space_not_mem_addressText address⟩
    have hfilled : ([' '].intercalate ((first :: rest).map fun address ↦
        (addressText address).toList)).isEmpty = false := by
      cases rest <;> simp [toList_addressText, addressSign]
    rw [hfilled, List.splitOn_intercalate ' ' hwords (by simp)]
    exact mapM_readAddress? (first :: rest)

/-- **The last line alone gives the addresses**, whatever stands in front of it. -/
theorem readTail?_append (front : List Char) (trace : Trace) :
    readTail? (front ++ '\n' :: (addressMark ++ trace.text.toList)) =
      some (front, trace.addresses) := by
  have hline : '\n' ∉ addressMark ++ trace.text.toList := by
    rw [List.mem_append, not_or]
    exact ⟨by decide, trace.newline_not_mem_text⟩
  simp [readTail?, cutAtLast?_append hline, readTrace?_text]

/-! ### Sites and remarks -/

/-- The site that a text begins with, and what follows the colon and the blank behind it. -/
def readSite? (text : List Char) : Option (Site × List Char) :=
  (cutAt? ':' text).bind fun (file, rest) ↦
    (cutAt? ':' rest).bind fun (numeral, rest) ↦
      (readNumeral? 10 numeral).bind fun line ↦
        (behind? [' '] rest).map fun rest ↦
          ({ file := String.ofList file, line := UInt32.ofNat line }, rest)

/-- What stands between the site of a remark and its description. -/
def remarkMark : List Char := "context: ".toList

/-- The remark that a text begins with, and what follows its line. -/
def readRemark? (text : List Char) : Option (Remark × List Char) :=
  (readSite? text).bind fun (site, rest) ↦
    (behind? remarkMark rest).bind fun rest ↦
      (cutAt? '\n' rest).map fun (description, rest) ↦
        ({ site, description := String.ofList description }, rest)

theorem length_of_behind? {word text rest : List Char} (hbehind : behind? word text = some rest) :
    rest.length ≤ text.length := by
  unfold behind? at hbehind
  split at hbehind
  · cases hbehind
    simp
  · cases hbehind

theorem length_of_readRemark? {text rest : List Char} {remark : Remark}
    (hremark : readRemark? text = some (remark, rest)) : rest.length < text.length := by
  simp only [readRemark?, readSite?, Option.bind_eq_some_iff, Option.map_eq_some_iff,
    Prod.exists, Prod.mk.injEq] at hremark
  obtain ⟨_, _, ⟨_, _, hfile, _, _, hnumeral, _, _, _, hblank, _, rfl⟩, _, hmark, _, _, hcut, _,
    rfl⟩ := hremark
  have hfile := length_of_cutAt? hfile
  have hnumeral := length_of_cutAt? hnumeral
  have hblank := length_of_behind? hblank
  have hmark := length_of_behind? hmark
  have hcut := length_of_cutAt? hcut
  omega

/-- The remarks that a text begins with, and what follows the last of their lines. -/
def readRemarks (text : List Char) : List Remark × List Char :=
  match _found : readRemark? text with
  | none => ([], text)
  | some (remark, rest) =>
    let (remarks, rest) := readRemarks rest
    (remark :: remarks, rest)
termination_by text.length
decreasing_by exact length_of_readRemark? _found

theorem readRemarks_of_none {text : List Char} (hremark : readRemark? text = none) :
    readRemarks text = ([], text) := by
  rw [readRemarks]
  split
  · rfl
  · simp_all

theorem readRemarks_of_some {text rest : List Char} {remark : Remark}
    (hremark : readRemark? text = some (remark, rest)) :
    readRemarks text = (remark :: (readRemarks rest).1, (readRemarks rest).2) := by
  rw [readRemarks]
  split
  · simp_all
  · simp_all

theorem readSite?_text {site : Site} (hsite : ':' ∉ site.file.toList) (rest : List Char) :
    readSite? (site.text.toList ++ ':' :: ' ' :: rest) = some (site, rest) := by
  have htext : site.text.toList ++ ':' :: ' ' :: rest = site.file.toList ++
      ':' :: (Nat.toDigits 10 site.line.toNat ++ ':' :: ([' '] ++ rest)) := by
    simp [Site.text]
  have hnumeral : ':' ∉ Nat.toDigits 10 site.line.toNat :=
    not_mem_toDigits (by decide) (by decide) (by decide) _
  have hline : readNumeral? 10 (Nat.toDigits 10 site.line.toNat) = some site.line.toNat :=
    readNumeral?_toDigits (by decide) (by decide) _
  simp [htext, readSite?, cutAt?_append hsite, cutAt?_append hnumeral, hline, behind?]

/-- A remark can be told from what follows it: its file holds no colon, and its description no line
end. -/
structure Remark.Legible (remark : Remark) : Prop where
  /-- The file holds no colon. -/
  file : ':' ∉ remark.site.file.toList
  /-- The description is one line. -/
  description : '\n' ∉ remark.description.toList

theorem readRemark?_text {remark : Remark} (hlegible : remark.Legible) (rest : List Char) :
    readRemark? (remark.text.toList ++ '\n' :: rest) = some (remark, rest) := by
  have hmark : ": context: ".toList = ':' :: ' ' :: remarkMark := rfl
  have htext : remark.text.toList ++ '\n' :: rest = remark.site.text.toList ++
      ':' :: ' ' :: (remarkMark ++ (remark.description.toList ++ '\n' :: rest)) := by
    simp only [Remark.text, String.toList_append, hmark, List.append_assoc, List.cons_append]
  simp [htext, readRemark?, readSite?_text hlegible.file, cutAt?_append hlegible.description]

/-- The lines of a chain of remarks. -/
def remarkLines (chain : List Remark) : List Char :=
  chain.flatMap fun remark ↦ remark.text.toList ++ ['\n']

/-- The remarks are read back in front of a text that does not begin with one. -/
theorem readRemarks_append {chain : List Remark} {rest : List Char}
    (hlegible : ∀ remark ∈ chain, remark.Legible) (hrest : readRemark? rest = none) :
    readRemarks (remarkLines chain ++ rest) = (chain, rest) := by
  induction chain with
  | nil => exact readRemarks_of_none hrest
  | cons remark chain ih =>
    rw [List.forall_mem_cons] at hlegible
    have hfirst : readRemark? (remarkLines (remark :: chain) ++ rest) =
        some (remark, remarkLines chain ++ rest) := by
      simpa [remarkLines] using readRemark?_text hlegible.1 (remarkLines chain ++ rest)
    rw [readRemarks_of_some hfirst, ih hlegible.2]

/-! ### The headline -/

/-- The nature that a text begins with, and what follows it. The longer of two natures that begin
the same is looked for first. -/
def readNature? (text : List Char) : Option (Nature × List Char) :=
  Nature.all.findSome? fun nature ↦
    (behind? nature.text.toList text).map fun rest ↦ (nature, rest)

/-- What a headline adds to the nature of a failure that may pass. -/
def temporaryMark : List Char := " (temporary)".toList

/-- The durability that a text says, and what follows it. -/
def readDurability (text : List Char) : Durability × List Char :=
  match behind? temporaryMark text with
  | some rest => (.temporary, rest)
  | none => (.permanent, text)

/-- The description that a headline ends with, if there is one. -/
def readDescription? (text : List Char) : Option String :=
  if text.isEmpty then some "" else (behind? [':', ' '] text).map String.ofList

/-- What a headline says of a failure. -/
def readHeadline? (text : List Char) : Option (Site × Nature × Durability × String) :=
  (readSite? text).bind fun (site, rest) ↦
    (readNature? rest).bind fun (nature, rest) ↦
      let (durability, rest) := readDurability rest
      (readDescription? rest).map fun description ↦ (site, nature, durability, description)

/-- What a headline says of a durability. -/
def durabilityMark : Durability → List Char
  | .temporary => temporaryMark
  | .permanent => []

/-- What a headline says of a description. -/
def descriptionMark (description : String) : List Char :=
  if description.isEmpty then [] else ':' :: ' ' :: description.toList

theorem descriptionMark_cases (description : String) :
    description = "" ∧ descriptionMark description = [] ∨
      descriptionMark description = ':' :: ' ' :: description.toList := by
  unfold descriptionMark
  split
  case isTrue hempty => exact .inl ⟨by simpa using hempty, rfl⟩
  case isFalse => exact .inr rfl

theorem readDescription?_mark (description : String) :
    readDescription? (descriptionMark description) = some description := by
  obtain ⟨hempty, hmark⟩ | hmark := descriptionMark_cases description
  · rw [hmark, hempty]
    rfl
  · simp [readDescription?, hmark, behind?]

theorem readDurability_mark (durability : Durability) (description : String) :
    readDurability (durabilityMark durability ++ descriptionMark description) =
      (durability, descriptionMark description) := by
  cases durability with
  | temporary => simp [readDurability, durabilityMark]
  | permanent =>
    have hnone : behind? temporaryMark (descriptionMark description) = none := by
      obtain ⟨-, hmark⟩ | hmark := descriptionMark_cases description <;> rw [hmark] <;> rfl
    simp [readDurability, durabilityMark, hnone]

/-- The text of one nature begins the text of another, but what a headline says behind the shorter
one never goes on like the longer one. -/
theorem readNature?_mark (nature : Nature) (durability : Durability) (description : String) :
    readNature? (nature.text.toList ++
        (durabilityMark durability ++ descriptionMark description)) =
      some (nature, durabilityMark durability ++ descriptionMark description) := by
  cases nature with
  | preconditionViolation => rfl
  | internalBug => rfl
  | osError => rfl
  | networkFailure => rfl
  | unclassified =>
    cases durability with
    | temporary => rfl
    | permanent =>
      obtain ⟨-, hmark⟩ | hmark := descriptionMark_cases description <;> rw [hmark] <;> rfl

namespace Failure

theorem toList_headline (failure : Failure) :
    failure.headline.toList = failure.site.text.toList ++ ':' :: ' ' ::
      (failure.nature.text.toList ++
        (durabilityMark failure.durability ++ descriptionMark failure.description)) := by
  have hdescription : (if failure.description.isEmpty then "" else
      ": " ++ failure.description).toList = descriptionMark failure.description := by
    unfold descriptionMark
    split
    · rfl
    · simp
  unfold headline
  simp only [String.toList_append, hdescription, List.append_assoc]
  cases failure.durability <;> rfl

end Failure

/-- The headline is read back. -/
theorem readHeadline?_headline {failure : Failure} (hsite : ':' ∉ failure.site.file.toList) :
    readHeadline? failure.headline.toList =
      some (failure.site, failure.nature, failure.durability, failure.description) := by
  simp [failure.toList_headline, readHeadline?, readSite?_text hsite, readNature?_mark,
    readDurability_mark, readDescription?_mark]

/-- A headline is no remark. -/
theorem readRemark?_headline {failure : Failure} (hsite : ':' ∉ failure.site.file.toList) :
    readRemark? failure.headline.toList = none := by
  have hnone (rest : List Char) :
      behind? remarkMark (failure.nature.text.toList ++ rest) = none := by
    cases failure.nature <;> rfl
  simp [failure.toList_headline, readRemark?, readSite?_text hsite, hnone]

/-! ### The whole text -/

/-- What the text of a failure shows of it. -/
structure Shown where
  /-- Where the failure arose. -/
  site : Site
  /-- What kind of condition caused it. -/
  nature : Nature
  /-- Whether trying again could plausibly succeed. -/
  durability : Durability
  /-- What is said about it. -/
  description : String
  /-- The return addresses, innermost first. -/
  addresses : List UInt64
  /-- The remarks, the most recently attached one first. -/
  context : List Remark
  deriving DecidableEq

namespace Failure

/-- What the text of a failure shows of it: everything but the unused cells of its trace. -/
def shown (failure : Failure) : Shown :=
  { site := failure.site
    nature := failure.nature
    durability := failure.durability
    description := failure.description
    addresses := failure.trace.addresses
    context := failure.context }

/-- A failure whose files hold no colon and whose remarks are lines. Its own description is any
text. -/
structure Legible (failure : Failure) : Prop where
  /-- The file where it arose holds no colon. -/
  file : ':' ∉ failure.site.file.toList
  /-- Its remarks can be told from what follows them. -/
  context : ∀ remark ∈ failure.context, remark.Legible

/-- The addresses in the last line of a text. -/
def readAddresses? (text : String) : Option (List UInt64) :=
  (readTail? text.toList).map Prod.snd

/-- What a text shows of the failure it is the text of. -/
def read? (text : String) : Option Shown :=
  (readTail? text.toList).bind fun (front, addresses) ↦
    let (context, rest) := readRemarks front
    (readHeadline? rest).map fun (site, nature, durability, description) ↦
      { site, nature, durability, description, addresses, context }

theorem toList_text (failure : Failure) :
    failure.text.toList = (remarkLines failure.context ++ failure.headline.toList) ++
      '\n' :: (addressMark ++ failure.trace.text.toList) := by
  have hmark : "\nstack: ".toList = '\n' :: addressMark := rfl
  simp [text, hmark, String.toList_join, remarkLines, List.flatMap_map]

theorem readTail?_text (failure : Failure) :
    readTail? failure.text.toList =
      some (remarkLines failure.context ++ failure.headline.toList, failure.trace.addresses) := by
  rw [toList_text, readTail?_append]

/-- The addresses are read back from the text of any failure. -/
theorem readAddresses?_text (failure : Failure) :
    readAddresses? failure.text = some failure.trace.addresses := by
  simp [readAddresses?, readTail?_text]

/-- What a legible failure shows is read back from its text. -/
theorem read?_text {failure : Failure} (hlegible : failure.Legible) :
    read? failure.text = some failure.shown := by
  have hremarks := readRemarks_append hlegible.context (readRemark?_headline hlegible.file)
  simp [read?, readTail?_text, hremarks, readHeadline?_headline hlegible.file, shown]

/-- **The text of a failure can be read back.** Assumes nothing of the texts it holds. Then the last
line of its text gives its addresses. If it is legible, then the whole text gives its remarks in
order, its site, nature and durability, its description and its addresses, whatever its description
holds. Two failures of one text have the same addresses, and if both are legible, they show the
same. -/
theorem text_readable (failure : Failure) :
    readAddresses? failure.text = some failure.trace.addresses ∧
      (failure.Legible → read? failure.text = some failure.shown) ∧
      ∀ other : Failure, failure.text = other.text →
        failure.trace.addresses = other.trace.addresses ∧
          (failure.Legible → other.Legible → failure.shown = other.shown) := by
  refine ⟨readAddresses?_text failure, read?_text, fun other htext ↦ ⟨?_, ?_⟩⟩
  · have haddresses := readAddresses?_text failure
    rw [htext, readAddresses?_text] at haddresses
    exact (Option.some.inj haddresses).symm
  · intro hlegible hother
    have hshown := read?_text hlegible
    rw [htext, read?_text hother] at hshown
    exact (Option.some.inj hshown).symm

/-- A failure whose texts forge the format: its description goes on like a longer nature and holds a
remark and a list of addresses, and a remark looks like a headline. -/
def forged : Failure :=
  { site := { file := "src/main.rs", line := 7 }
    nature := .unclassified
    durability := .permanent
    description := " from OS (temporary)\nb.rs:1: context: none\nstack: 0x1 0x2"
    trace := .ofAddresses [0, 0xdead]
    context :=
      [{ site := { file := "", line := 0 }, description := "a.rs:3: error: stack: 0x3" },
        { site := { file := "c.rs", line := 4294967295 }, description := "" }] }

theorem forged_text_readable :
    forged.Legible ∧ readAddresses? forged.text = some [0, 0xdead] ∧
      read? forged.text = some forged.shown ∧
      ∀ other : Failure, other.Legible → forged.text = other.text →
        forged.shown = other.shown := by
  have hlegible : forged.Legible := by
    refine ⟨by decide, ?_⟩
    intro remark hremark
    obtain rfl | rfl : remark = forged.context[0] ∨ remark = forged.context[1] := by
      simpa [forged] using hremark
    · exact ⟨by decide, by decide⟩
    · exact ⟨by decide, by decide⟩
  obtain ⟨haddresses, hread, hagree⟩ := text_readable forged
  exact ⟨hlegible, haddresses, hread hlegible,
    fun other hother htext ↦ (hagree other htext).2 hlegible hother⟩

end Failure

end Escalation
