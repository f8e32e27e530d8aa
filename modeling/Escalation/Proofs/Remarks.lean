import Mathlib
import Escalation.Proofs.Quoting

/-!
# Chains of remarks, whatever is done with them

A chain is annotated at its head, and gone over in loops: it is walked along, counted, copied from
the outermost remark inward, compared remark by remark with another chain, and shown as a list. All
of these agree with the chain as a list of remarks, of any length. Each loop is driven by a walk,
which at its end gives nothing (`Walk.foldl_of_none`) and otherwise gives the first remark that is
ahead (`Walk.foldl_of_some`), so what a loop comes to follows by induction on the chain
(`Walk.foldl_eq`, `Walk.agrees_iff`, `Remark.copyChain_eq`).

What is shown of a list of values has every value once and in order, on one line
(`Text.Layout.items_inline`) as on several (`Text.Layout.items_spread`). Of a remark, its file, its
line and its description are shown (`Remark.structureText_inline`, `Remark.structureText_spread`),
and since quotes tell where a text ends, the chain can be told from what is shown of it
(`contextStructure_inj`). Together this says what becomes of the chain of a failure
(`Failure.chain_as_list`).
-/

set_option autoImplicit false
set_option relaxedAutoImplicit false

namespace Escalation

/-! ### Walks -/

namespace Walk

@[simp] theorem next?_nil : ({ ahead := [] } : Walk).next? = none := rfl

@[simp] theorem next?_cons (remark : Remark) (rest : List Remark) :
    ({ ahead := remark :: rest } : Walk).next? = some (remark, { ahead := rest }) := rfl

section Loop

variable {α : Type} (take : α → Remark → α) (start : α) {walk rest : Walk} {remark : Remark}

/-- A loop is over at the end of the walk. -/
theorem foldl_of_none (h : walk.next? = none) : walk.foldl take start = start := by
  rw [foldl.eq_def]
  split
  · rfl
  · rename_i hstep
    rw [h] at hstep
    cases hstep

/-- A loop takes up the next remark and goes on with the walk behind it. -/
theorem foldl_of_some (h : walk.next? = some (remark, rest)) :
    walk.foldl take start = rest.foldl take (take start remark) := by
  rw [foldl.eq_def]
  split
  · rename_i hstep
    rw [h] at hstep
    cases hstep
  · rename_i hstep
    rw [h] at hstep
    cases hstep
    rfl

/-- A loop takes up every remark that is ahead, once and in order. -/
theorem foldl_eq (chain : List Remark) :
    ({ ahead := chain } : Walk).foldl take start = chain.foldl take start := by
  induction chain generalizing start with
  | nil => exact foldl_of_none take start rfl
  | cons remark rest ih =>
    rw [foldl_of_some take start (next?_cons remark rest), ih, List.foldl_cons]

end Loop

variable (walk : Walk)

theorem toList_collect : walk.collect.toList = walk.ahead := by
  have hpush (chain : List Remark) (row : Array Remark) :
      (chain.foldl Array.push row).toList = row.toList ++ chain := by
    induction chain generalizing row with
    | nil => simp
    | cons remark rest ih => rw [List.foldl_cons, ih]; simp
  unfold collect
  rw [foldl_eq Array.push #[] walk.ahead, hpush]
  rfl

theorem count_eq : walk.count = walk.ahead.length := by
  have hcount (chain : List Remark) (passed : ℕ) :
      chain.foldl (fun passed _ ↦ passed + 1) passed = passed + chain.length := by
    induction chain generalizing passed with
    | nil => rfl
    | cons remark rest ih => rw [List.foldl_cons, ih, List.length_cons]; omega
  unfold count
  rw [foldl_eq _ 0 walk.ahead, hcount, Nat.zero_add]

theorem ahead_advance (steps : ℕ) : (walk.advance steps).ahead = walk.ahead.drop steps := by
  induction steps generalizing walk with
  | zero => rfl
  | succ steps ih =>
    obtain ⟨_ | ⟨remark, rest⟩⟩ := walk
    · rfl
    · exact ih { ahead := rest }

/-- What a walk gives at each step is the remark of that number, and nothing behind the last. -/
theorem next?_advance (steps : ℕ) :
    (walk.advance steps).next?.map Prod.fst = walk.ahead[steps]? := by
  rw [← List.head?_drop, ← ahead_advance]
  obtain ⟨_ | ⟨remark, rest⟩⟩ := walk.advance steps
  · rfl
  · rfl

/-- Two walks agree exactly if the same is ahead of both. -/
theorem agrees_iff {chain other : List Remark} :
    ({ ahead := chain } : Walk).agrees { ahead := other } = true ↔ chain = other := by
  induction chain generalizing other with
  | nil => cases other <;> simp [agrees.eq_def]
  | cons remark rest ih =>
    rw [agrees.eq_def]
    cases other with
    | nil => simp
    | cons remark' rest' =>
      have hkey : remark.key = remark'.key ↔ remark = remark' := by
        obtain ⟨⟨file, line⟩, description⟩ := remark
        obtain ⟨⟨file', line'⟩, description'⟩ := remark'
        simp only [Remark.key, Prod.mk.injEq, Remark.mk.injEq, Site.mk.injEq, and_assoc]
      simp only [next?_cons, hkey, List.cons.injEq]
      by_cases hsame : remark = remark'
      · simp [hsame, ih]
      · simp [hsame]

end Walk

/-! ### Copies and comparisons -/

namespace Remark

theorem copy_eq (remark : Remark) : remark.copy = remark := rfl

/-- The chain that is built again from the outermost remark inward is the one that was collected. -/
theorem copyChain_eq (chain : List Remark) : copyChain chain = chain := by
  cases chain with
  | nil => rfl
  | cons head behind =>
    simp only [copyChain, ← Array.foldr_toList, Walk.toList_collect, copy_eq, List.foldr_cons_nil]

theorem sameChain_iff {chain other : List Remark} :
    sameChain chain other = true ↔ chain = other := by
  cases chain with
  | nil => cases other <;> simp [sameChain]
  | cons head behind =>
    cases other with
    | nil => simp [sameChain]
    | cons head' behind' => exact Walk.agrees_iff

end Remark

/-! ### Lists of values -/

namespace Text

theorem intercalate_cons (value : String) (rest : List String) :
    String.intercalate ", " (value :: rest) =
      value ++ String.join (rest.map fun other ↦ ", " ++ other) := by
  induction rest generalizing value with
  | nil => simp
  | cons other rest ih =>
    rw [String.intercalate_cons_cons, ih]
    simp [String.append_assoc]

namespace Listing

/-- What is written of the values behind the first one. -/
theorem written_foldl_entry (layout : Layout) (values : List String) (written : String) :
    (values.foldl entry { layout, written, filled := true }).written = written ++
      match layout with
      | .inline => String.join (values.map fun value ↦ ", " ++ value)
      | .spread => Layout.spreadParts values := by
  induction values generalizing written with
  | nil => cases layout <;> simp [Layout.spreadParts]
  | cons value rest ih =>
    cases layout with
    | inline =>
      rw [List.foldl_cons]
      change (rest.foldl entry
        { layout := .inline, written := written ++ ", " ++ value, filled := true }).written = _
      rw [ih]
      simp [String.append_assoc]
    | spread =>
      rw [List.foldl_cons]
      change (rest.foldl entry { layout := .spread, written :=
        written ++ "" ++ Layout.inset (value ++ ",") ++ "\n", filled := true }).written = _
      rw [ih]
      simp [Layout.spreadParts, String.append_assoc]

end Listing

namespace Layout

/-- On one line, the values stand one after the other with commas between them. -/
theorem items_inline (values : List String) :
    inline.items values = "[" ++ String.intercalate ", " values ++ "]" := by
  cases values with
  | nil => rfl
  | cons value rest =>
    have hfirst : Listing.entry { layout := .inline } value =
        { layout := .inline, written := "[" ++ value, filled := true } := by simp [Listing.entry]
    rw [items, List.foldl_cons, hfirst, Listing.finish, Listing.written_foldl_entry,
      intercalate_cons, ← String.append_assoc]

/-- On several lines, every value has lines of its own. -/
theorem items_spread (values : List String) :
    spread.items values = if values = [] then "[]" else "[\n" ++ spreadParts values ++ "]" := by
  cases values with
  | nil => rfl
  | cons value rest =>
    have hfirst : Listing.entry { layout := .spread } value =
        { layout := .spread
          written := "[" ++ "\n" ++ inset (value ++ ",") ++ "\n"
          filled := true } := rfl
    rw [if_neg (List.cons_ne_nil _ _), items, List.foldl_cons, hfirst, Listing.finish,
      Listing.written_foldl_entry]
    simp [spreadParts, String.append_assoc]

end Layout

end Text

/-! ### What is shown of a remark -/

namespace Text

theorem intercalate_three (first second third : String) :
    String.intercalate ", " [first, second, third] = first ++ ", " ++ second ++ ", " ++ third := by
  simp [String.append_assoc]

namespace Layout

/-- The lines behind the first one of a text, four columns further in. -/
def hanging (text : String) : String :=
  String.ofList (text.toList.flatMap fun c ↦ if c = '\n' then "\n    ".toList else [c])

theorem inset_eq (text : String) : inset text = "    " ++ hanging text := rfl

theorem hanging_append (text other : String) :
    hanging (text ++ other) = hanging text ++ hanging other := by
  simp [hanging, String.ofList_append]

/-- A text of one line stays where it is. -/
theorem hanging_of_newline_notMem {text : String} (h : '\n' ∉ text.toList) :
    hanging text = text := by
  have hsame (characters : List Char) (hline : '\n' ∉ characters) :
      (characters.flatMap fun c ↦ if c = '\n' then "\n    ".toList else [c]) = characters := by
    induction characters with
    | nil => rfl
    | cons c rest ih =>
      rw [List.mem_cons, not_or] at hline
      rw [List.flatMap_cons, if_neg (Ne.symm hline.1), ih hline.2]
      rfl
  unfold hanging
  rw [hsame text.toList h, String.ofList_toList]

theorem hanging_quoted (text : String) : hanging (quoted text) = quoted text :=
  hanging_of_newline_notMem (newline_not_mem_quoted text)

theorem hanging_numeral (n : ℕ) : hanging (toString n) = toString n := by
  refine hanging_of_newline_notMem ?_
  have hdigits : '\n' ∉ Nat.toDigits 10 n :=
    not_mem_toDigits (by decide) (by decide) (by decide) n
  simpa using hdigits

end Layout

end Text

namespace Remark

open Text Text.Layout

/-- A remark on one line. -/
def inlineText (remark : Remark) : String :=
  "Context \x7b file: " ++ quoted remark.site.file ++ ", line: " ++
    toString remark.site.line.toNat ++ ", description: " ++ quoted remark.description ++ " \x7d"

/-- A remark on several lines, as a value in a list. -/
def spreadText (remark : Remark) : String :=
  "    Context \x7b\n        file: " ++ quoted remark.site.file ++ ",\n        line: " ++
    toString remark.site.line.toNat ++ ",\n        description: " ++ quoted remark.description ++
    ",\n    \x7d,\n"

theorem structureText_inline (remark : Remark) :
    remark.structureText .inline = remark.inlineText := by
  unfold structureText record inlineText
  simp only [List.map_cons, List.map_nil, intercalate_three, String.append_assoc]
  rfl

/-- In a list on several lines, a remark is shown four columns further in, and its parts four
more. -/
theorem structureText_spread (remark : Remark) :
    inset (remark.structureText .spread ++ ",") ++ "\n" = remark.spreadText := by
  have hfile : "    " ++ hanging "Context" ++ hanging " \x7b\n" ++ hanging "    " ++
      hanging (hanging "file") ++ hanging (hanging ": ") = "    Context \x7b\n        file: " := by
    decide +kernel
  have hline : hanging (hanging ",") ++ hanging "\n" ++ hanging "    " ++ hanging (hanging "line") ++
      hanging (hanging ": ") = ",\n        line: " := by decide +kernel
  have hdescription : hanging (hanging ",") ++ hanging "\n" ++ hanging "    " ++
      hanging (hanging "description") ++ hanging (hanging ": ") = ",\n        description: " := by
    decide +kernel
  have hend : hanging (hanging ",") ++ hanging "\n" ++ hanging "" ++ hanging "\x7d" ++
      (hanging "," ++ "\n") = ",\n    \x7d,\n" := by decide +kernel
  unfold structureText record spreadText spreadParts
  rw [← hfile, ← hline, ← hdescription, ← hend]
  simp only [List.map_cons, List.map_nil, inset_eq, hanging_append, hanging_quoted, hanging_numeral,
    String.join_cons, String.join_nil, String.append_assoc]

end Remark

/-! ### What a text tells -/

section Inj

open Text

/-- A numeral ends where something else begins. -/
theorem Text.numeral_append_inj {m n : ℕ} {word rest more : String}
    (hword : word.toList.head? = some ',')
    (h : toString m ++ (word ++ rest) = toString n ++ (word ++ more)) : m = n ∧ rest = more := by
  obtain ⟨behind, hbehind⟩ : ∃ behind, word.toList = ',' :: behind :=
    List.head?_eq_some_iff.mp hword
  have hcut (k : ℕ) (others : String) :
      cutAt? ',' (toString k ++ (word ++ others)).toList =
        some (Nat.toDigits 10 k, behind ++ others.toList) := by
    have hdigits : ',' ∉ Nat.toDigits 10 k :=
      not_mem_toDigits (by decide) (by decide) (by decide) k
    simpa [hbehind] using cutAt?_append hdigits (behind ++ others.toList)
  have hparts := hcut m rest
  rw [h, hcut, Option.some.injEq, Prod.mk.injEq, List.append_cancel_left_eq] at hparts
  obtain ⟨hnumeral, hrest⟩ := hparts
  have hread : readNumeral? 10 (Nat.toDigits 10 m) = some m :=
    readNumeral?_toDigits (by decide) (by decide) m
  rw [← hnumeral, readNumeral?_toDigits (by decide) (by decide)] at hread
  exact ⟨(Option.some.inj hread).symm, (String.toList_inj.mp hrest).symm⟩

/-- A remark is determined by its file, line and description between words, and so is what follows,
as long as the numeral of the line is followed by a comma. -/
theorem Remark.parts_append_inj {remark other : Remark} {front beforeLine beforeText back : String}
    {rest more : String} (hcomma : beforeText.toList.head? = some ',')
    (h : front ++ quoted remark.site.file ++ beforeLine ++ toString remark.site.line.toNat ++
        beforeText ++ quoted remark.description ++ back ++ rest =
      front ++ quoted other.site.file ++ beforeLine ++ toString other.site.line.toNat ++
        beforeText ++ quoted other.description ++ back ++ more) :
    remark = other ∧ rest = more := by
  simp only [String.append_assoc, String.append_right_inj] at h
  obtain ⟨hfile, hbehindFile⟩ := quoted_append_inj h
  rw [String.append_right_inj] at hbehindFile
  obtain ⟨hline, hbehindLine⟩ := numeral_append_inj hcomma hbehindFile
  obtain ⟨hdescription, hbehind⟩ := quoted_append_inj hbehindLine
  have hrest : rest = more := by rwa [String.append_right_inj] at hbehind
  obtain ⟨⟨file, line⟩, description⟩ := remark
  obtain ⟨⟨otherFile, otherLine⟩, otherDescription⟩ := other
  obtain rfl : file = otherFile := hfile
  obtain rfl : line = otherLine := UInt32.toNat_inj.mp hline
  obtain rfl : description = otherDescription := hdescription
  exact ⟨rfl, hrest⟩

/-- Texts with different beginnings are different. -/
theorem Text.append_ne {text stop : String} {c d : Char} (htext : text.toList.head? = some c)
    (hstop : stop.toList.head? = some d) (hne : c ≠ d) (rest : String) : text ++ rest ≠ stop := by
  rintro rfl
  rw [String.toList_append, List.head?_append, htext] at hstop
  exact hne (Option.some.inj hstop)

/-- A list is determined by the texts of its values one after another, if each text tells where it
ends and none is the end of the list. -/
theorem Text.join_append_inj {α : Type} {text : α → String} {stop : String}
    (htext : ∀ {value other rest more}, text value ++ rest = text other ++ more →
      value = other ∧ rest = more)
    (hstop : ∀ value rest, text value ++ rest ≠ stop) {values others : List α}
    (h : String.join (values.map text) ++ stop = String.join (others.map text) ++ stop) :
    values = others := by
  induction values generalizing others with
  | nil =>
    cases others with
    | nil => rfl
    | cons other rest =>
      simp only [List.map_nil, List.map_cons, String.join_nil, String.join_cons, String.append_assoc,
        String.empty_append] at h
      exact absurd h.symm (hstop other _)
  | cons value values ih =>
    cases others with
    | nil =>
      simp only [List.map_nil, List.map_cons, String.join_nil, String.join_cons, String.append_assoc,
        String.empty_append] at h
      exact absurd h (hstop value _)
    | cons other others =>
      simp only [List.map_cons, String.join_cons, String.append_assoc] at h
      obtain ⟨rfl, hrest⟩ := htext h
      rw [ih hrest]

end Inj

/-- What is shown of a chain is what is shown of its remarks, as a list. -/
theorem contextStructure_eq (layout : Text.Layout) (chain : List Remark) :
    contextStructure layout chain = layout.items (chain.map (Remark.structureText layout)) := by
  unfold contextStructure Text.Layout.items
  rw [List.foldl_map]
  exact congrArg Text.Listing.finish (Walk.foldl_eq _ _ chain)

/-- On one line, a chain is shown as its remarks with commas between them. -/
theorem contextStructure_inline (chain : List Remark) : contextStructure .inline chain =
    "[" ++ String.intercalate ", " (chain.map Remark.inlineText) ++ "]" := by
  rw [contextStructure_eq, Text.Layout.items_inline, funext Remark.structureText_inline]

/-- On several lines, a chain is shown as its remarks one below the other. -/
theorem contextStructure_spread (chain : List Remark) : contextStructure .spread chain =
    if chain = [] then "[]" else "[\n" ++ String.join (chain.map Remark.spreadText) ++ "]" := by
  rw [contextStructure_eq, Text.Layout.items_spread]
  unfold Text.Layout.spreadParts
  rw [List.map_map, ← funext Remark.structureText_spread]
  simp only [List.map_eq_nil_iff]
  rfl

/-- A chain is determined by what is shown of it on one line. -/
theorem contextStructure_inline_inj {chain other : List Remark}
    (h : contextStructure .inline chain = contextStructure .inline other) : chain = other := by
  have hends {remark another : Remark} {rest more : String}
      (h : remark.inlineText ++ rest = another.inlineText ++ more) :
      remark = another ∧ rest = more := by
    unfold Remark.inlineText at h
    exact Remark.parts_append_inj (by simp) h
  have hstops (remark : Remark) (rest : String) : remark.inlineText ++ rest ≠ "]" := by
    unfold Remark.inlineText
    simp only [String.append_assoc]
    exact Text.append_ne (c := 'C') (d := ']') (by simp) (by simp) (by decide) _
  rw [contextStructure_inline, contextStructure_inline, String.append_assoc, String.append_assoc,
    String.append_right_inj] at h
  cases chain with
  | nil =>
    cases other with
    | nil => rfl
    | cons first others =>
      rw [List.map_cons, Text.intercalate_cons, String.append_assoc] at h
      exact absurd h.symm (hstops first _)
  | cons remark rest =>
    cases other with
    | nil =>
      rw [List.map_cons, Text.intercalate_cons, String.append_assoc] at h
      exact absurd h (hstops remark _)
    | cons first others =>
      rw [List.map_cons, List.map_cons, Text.intercalate_cons, Text.intercalate_cons,
        String.append_assoc, String.append_assoc, List.map_map, List.map_map] at h
      obtain ⟨rfl, hrest⟩ := hends h
      refine congrArg _ (Text.join_append_inj (fun {remark another rest more} h ↦ ?_)
        (fun remark rest h ↦ ?_) hrest)
      · simp only [Function.comp_apply, String.append_assoc, String.append_right_inj] at h
        exact hends h
      · rw [Function.comp_apply, String.append_assoc] at h
        exact Text.append_ne (c := ',') (d := ']') (by simp) (by simp) (by decide) _ h

/-- A chain is determined by what is shown of it on several lines. -/
theorem contextStructure_spread_inj {chain other : List Remark}
    (h : contextStructure .spread chain = contextStructure .spread other) : chain = other := by
  have hends {remark another : Remark} {rest more : String}
      (h : remark.spreadText ++ rest = another.spreadText ++ more) :
      remark = another ∧ rest = more := by
    unfold Remark.spreadText at h
    exact Remark.parts_append_inj (by simp) h
  have hstops (remark : Remark) (rest : String) : remark.spreadText ++ rest ≠ "]" := by
    unfold Remark.spreadText
    simp only [String.append_assoc]
    exact Text.append_ne (c := ' ') (d := ']') (by simp) (by simp) (by decide) _
  have hlong (texts : String) : "[]" ≠ "[\n" ++ texts ++ "]" := by
    intro h
    have hsecond := congrArg (fun text : String ↦ text.toList[1]?) h
    simp at hsecond
  rw [contextStructure_spread, contextStructure_spread] at h
  split_ifs at h with hchain hother hother
  · rw [hchain, hother]
  · exact absurd h (hlong _)
  · exact absurd h.symm (hlong _)
  · rw [String.append_assoc, String.append_assoc, String.append_right_inj] at h
    exact Text.join_append_inj hends hstops h

/-- A chain is determined by what is shown of it. -/
theorem contextStructure_inj {layout : Text.Layout} {chain other : List Remark}
    (h : contextStructure layout chain = contextStructure layout other) : chain = other := by
  cases layout with
  | inline => exact contextStructure_inline_inj h
  | spread => exact contextStructure_spread_inj h

/-! ### Failures -/

namespace Failure

/-- Annotating puts the new remarks in front, the last one first, and changes nothing else. -/
theorem annotateAll_eq (remarks : List Remark) (failure : Failure) :
    failure.annotateAll remarks =
      { failure with context := remarks.reverse ++ failure.context } := by
  unfold annotateAll
  induction remarks generalizing failure with
  | nil => rfl
  | cons remark rest ih =>
    rw [List.foldl_cons, ih, List.reverse_cons, List.append_assoc]
    rfl

/-- Annotating from successive lines of a file attaches these remarks, one after another. -/
theorem annotateRepeatedly_eq (site : Site) (description : String) (times : ℕ) (failure : Failure) :
    failure.annotateRepeatedly site description times =
      failure.annotateAll ((List.range times).map fun index ↦
        { site := { site with line := site.line + UInt32.ofNat index }, description }) := by
  induction times generalizing site failure with
  | zero => rfl
  | succ times ih =>
    rw [annotateRepeatedly, ih, List.range_succ_eq_map, List.map_cons, List.map_map]
    have hfirst : site.line + UInt32.ofNat 0 = site.line := by simp
    have hnext (index : ℕ) : site.line + 1 + UInt32.ofNat index =
        site.line + UInt32.ofNat (index + 1) := by
      rw [UInt32.ofNat_add, UInt32.add_assoc, UInt32.add_comm 1]
      rfl
    simp only [hnext, hfirst]
    rfl

/-- A copy is equal to the failure, its chain included. -/
theorem copy_eq (failure : Failure) : failure.copy = failure := by
  unfold copy
  rw [Remark.copyChain_eq]

/-- The remarks of a failure are a list, however many there are and whatever is done with them.
Annotating a failure attaches the new remarks in front, the last one first, and changes no other
part. A walk gives the list remark by remark and then nothing, and there are as many remarks as it
is long. A copy of the chain is the same list, and a copy of the failure the same failure. Two
chains are equal exactly if their lists are, so that more remarks, other places of the same remarks,
or another file, line or description of one of them make a difference. The chain is shown as a list
of all remarks, each once and in order, with its file, line and description, on one line or on
several. Texts stand between quotes, which tell where they end whatever they hold, and printable
characters stand for themselves there; so what is shown of a chain determines it. -/
theorem chain_as_list (failure : Failure) :
    (∀ remarks, failure.annotateAll remarks =
      { failure with context := remarks.reverse ++ failure.context }) ∧
    (∀ steps, (failure.contexts.advance steps).next?.map Prod.fst = failure.context[steps]?) ∧
    failure.contexts.collect.toList = failure.context ∧
    failure.contextDepth = failure.context.length ∧
    Remark.copyChain failure.context = failure.context ∧ failure.copy = failure ∧
    (∀ other, Remark.sameChain failure.context other = true ↔ failure.context = other) ∧
    (∀ more, more ≠ [] → Remark.sameChain failure.context (failure.context ++ more) = false) ∧
    (∀ other, other.Perm failure.context → other ≠ failure.context →
      Remark.sameChain failure.context other = false) ∧
    (∀ front remark back other, failure.context = front ++ remark :: back →
      (remark.site.file ≠ other.site.file ∨ remark.site.line ≠ other.site.line ∨
        remark.description ≠ other.description) →
      Remark.sameChain failure.context (front ++ other :: back) = false) ∧
    contextStructure .inline failure.context = "[" ++ String.intercalate ", "
      (failure.context.map fun remark ↦
        "Context \x7b file: " ++ Text.quoted remark.site.file ++ ", line: " ++
          toString remark.site.line.toNat ++ ", description: " ++
          Text.quoted remark.description ++ " \x7d") ++ "]" ∧
    contextStructure .spread failure.context =
      (if failure.context = [] then "[]" else "[\n" ++ String.join
        (failure.context.map fun remark ↦
          "    Context \x7b\n        file: " ++ Text.quoted remark.site.file ++
            ",\n        line: " ++ toString remark.site.line.toNat ++
            ",\n        description: " ++ Text.quoted remark.description ++
            ",\n    \x7d,\n") ++ "]") ∧
    (∀ text other rest more, Text.quoted text ++ rest = Text.quoted other ++ more →
      text = other ∧ rest = more) ∧
    (∀ text : String, (∀ c ∈ text.toList, Text.Printable c) →
      Text.quoted text = "\"" ++ text ++ "\"") ∧
    ∀ layout other, contextStructure layout failure.context = contextStructure layout other →
      failure.context = other := by
  have hdiffers {other : List Remark} (h : failure.context ≠ other) :
      Remark.sameChain failure.context other = false :=
    Bool.eq_false_iff.mpr (mt Remark.sameChain_iff.mp h)
  refine ⟨fun remarks ↦ annotateAll_eq remarks failure, failure.contexts.next?_advance,
    failure.contexts.toList_collect, failure.contexts.count_eq, Remark.copyChain_eq _,
    failure.copy_eq, fun other ↦ Remark.sameChain_iff, ?_, ?_, ?_, contextStructure_inline _,
    contextStructure_spread _, fun _ _ _ _ ↦ Text.quoted_append_inj,
    fun _ ↦ Text.quoted_of_printable, fun _ _ ↦ contextStructure_inj⟩
  · intro more hmore
    apply hdiffers
    simpa using hmore.symm
  · intro other _ hother
    exact hdiffers hother.symm
  · intro front remark back other hchain hother
    apply hdiffers
    rw [hchain]
    intro hsame
    have hremark : remark = other := by simpa using hsame
    subst hremark
    simp at hother

end Failure

end Escalation
