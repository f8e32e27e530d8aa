import Mathlib
import Escalation.Override.Link

/-!
# The history of a stack

The stack of a thread is the outcome of installations and releases in some order (`Move`). What
became of each installation cannot be read off the stack alone, as a depth is taken again after a
release and a generation after `2 ^ 64` installations. So a history does the same moves with
overrides that carry the serial numbers of their installations, and keeps the guard of each
installation under its serial number (`History`). Without the serial numbers its stack is the stack
(`Stack.map`).

An installation owns the guard under its serial number as long as it is in place, it stands at the
depth of that guard, and serial numbers grow from the bottom to the top (`History.Coherent`,
`History.coherent_of`). What stands below an installation that is in place is what stood below it
when it was made (`History.getElem?_below`), so the link below it leads where it was meant to lead
exactly as long as that is in place, or nothing is (`History.meaning_below_eq_promised_iff`).
-/

set_option autoImplicit false
set_option relaxedAutoImplicit false

namespace Escalation

variable {α β : Type}

/-! ### Stacks of overrides that are replaced -/

namespace Stack

/-- The stack with each override replaced. -/
def map (change : α → β) (stack : Stack α) : Stack β where
  entries := stack.entries.map fun installed ↦
    { generation := installed.generation, override := change installed.override }
  nextGeneration := stack.nextGeneration

section Map

variable (change : α → β) (stack : Stack α)

@[simp] theorem entries_map : (stack.map change).entries = stack.entries.map fun installed ↦
    { generation := installed.generation, override := change installed.override } := rfl

@[simp] theorem owns_map (guard : Guard) : (stack.map change).owns guard = stack.owns guard := by
  unfold owns
  rw [entries_map, Array.getElem?_map]
  cases stack.entries[guard.depth]? <;> rfl

theorem install_map (override : α) : (stack.map change).install (change override) =
    ((stack.install override).1, (stack.install override).2.map change) := by
  simp [install, map, height]

/-- The guard of an installation does not depend on what is installed. -/
theorem fst_install_map (override : α) (other : β) :
    ((stack.map change).install other).1 = (stack.install override).1 := by
  simp [install, map, height]

theorem release_map (guard : Guard) : ((stack.map change).release guard).2 =
    (stack.release guard).2.map change := by
  unfold release
  rw [owns_map]
  split
  · simp [map]
  · rfl

theorem resolve_map (link : Link) : (stack.map change).resolve link =
    (stack.resolve link).map fun found ↦ (change found.1, found.2) := by
  cases link with
  | root => rfl
  | override depth =>
    simp only [resolve, entries_map, Array.getElem?_map]
    cases stack.entries[depth]? <;> rfl

end Map

/-- The current link means the top of the stack, and the root if the stack is empty. -/
theorem map_fst_resolve_current (stack : Stack α) : (stack.resolve stack.current).map Prod.fst =
    stack.entries.toList.getLast?.map Installed.override := by
  unfold current height
  rw [List.getLast?_eq_getElem?, Array.getElem?_toList, Array.length_toList]
  cases hsize : stack.entries.size with
  | zero =>
    rw [Array.getElem?_eq_none (Nat.le_of_eq hsize)]
    rfl
  | succ depth =>
    simp only [Link.below_succ, resolve, Option.map_map, Nat.add_sub_cancel]
    rfl

/-- A guard owns its override if what is at its depth has its generation. -/
theorem owns_eq_true_iff {stack : Stack α} {guard : Guard} : stack.owns guard = true ↔
    ∃ installed : Installed α, stack.entries[guard.depth]? = some installed ∧
      installed.generation = guard.generation := by
  simp [owns, Option.any_eq_true]

/-- What is left by the release of a guard, outermost first. -/
theorem toList_entries_release (stack : Stack α) (guard : Guard) :
    (stack.release guard).2.entries.toList =
      if stack.owns guard then stack.entries.toList.take guard.depth else stack.entries.toList := by
  by_cases howns : stack.owns guard = true
  · rw [if_pos howns, entries_release_of_owns stack guard howns]
    simp
  · rw [if_neg howns, release_of_not_owns stack guard (by simpa using howns)]

/-- What the release of a guard that owns its override removes, outermost first. -/
theorem fst_release_of_owns {stack : Stack α} {guard : Guard} (h : stack.owns guard = true) :
    (stack.release guard).1 =
      if stack.height = guard.depth + 1 then
        .inOrder ((stack.entries.toList.drop guard.depth).map Installed.override)
      else .outOfOrder ((stack.entries.toList.drop guard.depth).map Installed.override) := by
  have hextract : (stack.entries.extract guard.depth).toList =
      stack.entries.toList.drop guard.depth := by
    rw [Array.toList_extract, List.extract_eq_take_drop, List.take_of_length_le (by simp)]
  simp only [release, h, if_true, hextract]

/-- What is in place behind the release of a guard was in place before it, below the override of the
guard unless that was gone. -/
theorem getElem?_entries_release {stack : Stack α} {guard : Guard} {depth : ℕ}
    {installed : Installed α} : (stack.release guard).2.entries[depth]? = some installed ↔
      stack.entries[depth]? = some installed ∧ (stack.owns guard = true → depth < guard.depth) := by
  rw [← Array.getElem?_toList, toList_entries_release]
  by_cases howns : stack.owns guard = true
  · rw [if_pos howns, List.getElem?_take]
    by_cases hdepth : depth < guard.depth <;> simp [hdepth, howns]
  · simp [howns]

/-- What is in place behind an installation is the new override or was in place before. -/
theorem getElem?_entries_install {stack : Stack α} {override : α} {depth : ℕ}
    {installed : Installed α} :
    (stack.install override).2.entries[depth]? = some installed ↔
      stack.entries[depth]? = some installed ∨
        depth = stack.height ∧ installed = { generation := stack.nextGeneration, override } := by
  rw [entries_install, Array.getElem?_push]
  by_cases hdepth : depth = stack.entries.size
  · simp [hdepth, height, eq_comm]
  · simp [hdepth, height]

end Stack

/-! ### Moves and histories -/

/-- What a program does with the overrides of a thread. -/
inductive Move (α : Type)
  /-- Installs an override. -/
  | install (override : α)
  /-- Releases the guard of the installation of a serial number. -/
  | release (serial : ℕ)

/-- A stack of overrides with the serial numbers of their installations, and the guard of every
installation so far. -/
structure History (α : Type) where
  /-- The stack. -/
  stack : Stack (ℕ × α) := {}
  /-- The guards, in the order of installation. -/
  guards : List Guard := []

namespace History

/-- The history with one more move. A guard that was not handed out cannot be released. -/
def move (history : History α) : Move α → History α
  | .install override =>
    { stack := (history.stack.install (history.guards.length, override)).2
      guards := history.guards ++ [(history.stack.install (history.guards.length, override)).1] }
  | .release serial =>
    match history.guards[serial]? with
    | none => history
    | some guard => { history with stack := (history.stack.release guard).2 }

/-- The history of these moves. -/
def of (moves : List (Move α)) : History α := moves.foldl move {}

/-- The serial numbers of the installations in place, outermost first. -/
def serials (history : History α) : List ℕ :=
  history.stack.entries.toList.map fun installed ↦ installed.override.1

/-- The serial number of the installation that a link means, if it does not mean the root. -/
def meaning (history : History α) (link : Link) : Option ℕ :=
  (history.stack.resolve link).map fun found ↦ found.1.1

@[simp] theorem of_nil : of ([] : List (Move α)) = {} := rfl

theorem of_append (moves more : List (Move α)) : of (moves ++ more) = more.foldl move (of moves) :=
  List.foldl_append

@[simp] theorem of_append_singleton (moves : List (Move α)) (last : Move α) :
    of (moves ++ [last]) = (of moves).move last := by
  rw [of_append]
  rfl

/-! ### Every history is coherent -/

/-- The guards and the stack of a history fit together. -/
structure Coherent (history : History α) : Prop where
  nextGeneration : history.stack.nextGeneration = UInt64.ofNat history.guards.length
  generation {serial : ℕ} {guard : Guard} : history.guards[serial]? = some guard →
    guard.generation = UInt64.ofNat serial
  /-- What is in place has its guard under its serial number. -/
  guard {depth : ℕ} {installed : Installed (ℕ × α)} :
    history.stack.entries[depth]? = some installed →
      history.guards[installed.override.1]? = some { depth, generation := installed.generation }
  increasing : history.serials.Pairwise (· < ·)

theorem coherent_nil : ({} : History α).Coherent where
  nextGeneration := rfl
  generation h := by simp at h
  guard h := by simp at h
  increasing := List.Pairwise.nil

/-- A serial number in place belongs to an entry of the stack. -/
theorem mem_serials {history : History α} {serial : ℕ} : serial ∈ history.serials ↔
    ∃ (depth : ℕ) (installed : Installed (ℕ × α)),
      history.stack.entries[depth]? = some installed ∧ installed.override.1 = serial := by
  unfold serials
  rw [List.mem_map]
  constructor
  · rintro ⟨installed, hinstalled, rfl⟩
    obtain ⟨depth, hdepth⟩ := List.mem_iff_getElem?.mp hinstalled
    exact ⟨depth, installed, by rwa [Array.getElem?_toList] at hdepth, rfl⟩
  · rintro ⟨depth, installed, hinstalled, rfl⟩
    exact ⟨installed, List.mem_iff_getElem?.mpr ⟨depth, by rwa [Array.getElem?_toList]⟩, rfl⟩

namespace Coherent

variable {history : History α} (h : history.Coherent)

include h

/-- What is in place was installed. -/
theorem lt_of_mem {serial : ℕ} (hmem : serial ∈ history.serials) :
    serial < history.guards.length := by
  obtain ⟨depth, installed, hinstalled, rfl⟩ := mem_serials.mp hmem
  exact (List.getElem?_eq_some_iff.mp (h.guard hinstalled)).1

/-- An installation in place stands at the depth of its guard. -/
theorem depth_eq {depth serial : ℕ} {guard : Guard} {installed : Installed (ℕ × α)}
    (hinstalled : history.stack.entries[depth]? = some installed)
    (hserial : installed.override.1 = serial) (hguard : history.guards[serial]? = some guard) :
    guard = { depth, generation := installed.generation } := by
  have hown := h.guard hinstalled
  rw [hserial, hguard] at hown
  exact Option.some.inj hown

/-- A guard whose override is in place owns it. -/
theorem owns_of_mem {serial : ℕ} {guard : Guard} (hguard : history.guards[serial]? = some guard)
    (hmem : serial ∈ history.serials) : history.stack.owns guard = true := by
  obtain ⟨depth, installed, hinstalled, hserial⟩ := mem_serials.mp hmem
  have hguard := h.depth_eq hinstalled hserial hguard
  simp [Stack.owns, hguard, hinstalled]

theorem generation_eq {depth : ℕ} {installed : Installed (ℕ × α)}
    (hinstalled : history.stack.entries[depth]? = some installed) :
    installed.generation = UInt64.ofNat installed.override.1 := h.generation (h.guard hinstalled)

theorem install (override : α) : (history.move (.install override)).Coherent where
  nextGeneration := by
    simp [move, Stack.install, h.nextGeneration, UInt64.ofNat_add]
  generation {serial guard} hguard := by
    by_cases hserial : serial < history.guards.length
    · exact h.generation (List.getElem?_append_left hserial ▸ hguard)
    · have hle : history.guards.length ≤ serial := Nat.le_of_not_lt hserial
      rw [move, List.getElem?_append_right hle, List.getElem?_singleton] at hguard
      by_cases hlast : serial - history.guards.length = 0
      · rw [if_pos hlast] at hguard
        rw [← Option.some.inj hguard, Stack.generation_install, h.nextGeneration,
          Nat.le_antisymm (Nat.sub_eq_zero_iff_le.mp hlast) hle]
      · rw [if_neg hlast] at hguard
        cases hguard
  guard {depth installed} hinstalled := by
    rcases Stack.getElem?_entries_install.mp hinstalled with hold | ⟨rfl, rfl⟩
    · have hguard := h.guard hold
      exact List.getElem?_append_left (List.getElem?_eq_some_iff.mp hguard).1 ▸ hguard
    · simp [move, Stack.install, Stack.height]
  increasing := by
    have hserials : (history.move (.install override)).serials =
        history.serials ++ [history.guards.length] := by
      simp [serials, move]
    rw [hserials, List.pairwise_append]
    exact ⟨h.increasing, List.pairwise_singleton _ _, fun serial hserial last hlast ↦ by
      rw [List.mem_singleton.mp hlast]
      exact h.lt_of_mem hserial⟩

/-- Releasing a guard leaves a part of the stack, and all guards. -/
theorem release (serial : ℕ) : (history.move (.release serial)).Coherent := by
  cases hguard : history.guards[serial]? with
  | none => simpa [move, hguard] using h
  | some guard =>
    simp only [move, hguard]
    refine ⟨?_, h.generation, ?_, ?_⟩
    · rw [← h.nextGeneration]
      unfold Stack.release
      split <;> rfl
    · exact fun hinstalled ↦ h.guard (Stack.getElem?_entries_release.mp hinstalled).1
    · unfold serials
      rw [Stack.toList_entries_release]
      split
      · rw [List.map_take]
        exact h.increasing.sublist (List.take_sublist _ _)
      · exact h.increasing

end Coherent

theorem coherent_of (moves : List (Move α)) : (of moves).Coherent := by
  induction moves using List.reverseRecOn with
  | nil => exact coherent_nil
  | append_singleton moves last ih =>
    rw [of_append_singleton]
    cases last with
    | install override => exact ih.install override
    | release serial => exact ih.release serial

/-! ### What later moves leave in place -/

/-- A guard that was handed out stays the guard of its installation. -/
theorem getElem?_guards_foldl {history : History α} {serial : ℕ} {guard : Guard}
    (h : history.guards[serial]? = some guard) (more : List (Move α)) :
    (more.foldl move history).guards[serial]? = some guard := by
  induction more generalizing history with
  | nil => exact h
  | cons next rest ih =>
    refine ih ?_
    cases next with
    | install override =>
      exact List.getElem?_append_left (List.getElem?_eq_some_iff.mp h).1 ▸ h
    | release other =>
      unfold move
      dsimp only
      split <;> exact h

theorem length_guards_le_move (history : History α) (next : Move α) :
    history.guards.length ≤ (history.move next).guards.length := by
  cases next with
  | install override => simp [move]
  | release serial =>
    unfold move
    dsimp only
    split <;> exact le_rfl

/-- What is in place behind a move is newer than the move or was in place before it. -/
theorem getElem?_of_move {history : History α} {next : Move α} {depth : ℕ}
    {installed : Installed (ℕ × α)}
    (h : (history.move next).stack.entries[depth]? = some installed)
    (hold : installed.override.1 < history.guards.length) :
    history.stack.entries[depth]? = some installed := by
  cases next with
  | install override =>
    rcases Stack.getElem?_entries_install.mp h with hinstalled | ⟨-, rfl⟩
    · exact hinstalled
    · exact absurd hold (lt_irrefl _)
  | release serial =>
    unfold move at h
    dsimp only at h
    split at h
    · exact h
    · exact (Stack.getElem?_entries_release.mp h).1

/-- What is in place behind further moves is newer than they or was in place before them. -/
theorem getElem?_of_foldl {history : History α} {more : List (Move α)} {depth : ℕ}
    {installed : Installed (ℕ × α)}
    (h : (more.foldl move history).stack.entries[depth]? = some installed)
    (hold : installed.override.1 < history.guards.length) :
    history.stack.entries[depth]? = some installed := by
  induction more generalizing history with
  | nil => exact h
  | cons next rest ih =>
    exact getElem?_of_move (ih h (hold.trans_le (length_guards_le_move history next))) hold

/-! ### What links mean -/

theorem meaning_override {history : History α} {depth serial : ℕ} :
    history.meaning (.override depth) = some serial ↔
      ∃ installed : Installed (ℕ × α), history.stack.entries[depth]? = some installed ∧
        installed.override.1 = serial := by
  simp [meaning, Stack.resolve]

/-- Serial numbers grow from the bottom to the top. -/
theorem Coherent.serial_lt {history : History α} (h : history.Coherent) {lower upper : ℕ}
    {below above : Installed (ℕ × α)} (hlt : lower < upper)
    (hbelow : history.stack.entries[lower]? = some below)
    (habove : history.stack.entries[upper]? = some above) :
    below.override.1 < above.override.1 := by
  have hincreasing := List.pairwise_iff_getElem.mp h.increasing
  rw [← Array.getElem?_toList] at hbelow habove
  obtain ⟨hlower, rfl⟩ := List.getElem?_eq_some_iff.mp hbelow
  obtain ⟨hupper, rfl⟩ := List.getElem?_eq_some_iff.mp habove
  have hserials := hincreasing lower upper (by simpa [serials] using hlower)
    (by simpa [serials] using hupper) hlt
  simpa [serials] using hserials

theorem of_install_append (before later more : List (Move α)) (override : α) :
    of (before ++ .install override :: later ++ more) =
      more.foldl move (of (before ++ .install override :: later)) := of_append _ _

/-- The guard of an installation is kept under the number of installations before it. -/
theorem getElem?_guards_install (before later : List (Move α)) (override : α) :
    (of (before ++ .install override :: later)).guards[(of before).guards.length]? =
      some ((of before).stack.install ((of before).guards.length, override)).1 := by
  rw [of_append, List.foldl_cons]
  refine getElem?_guards_foldl ?_ later
  simp [move]

section Below

variable {before later more : List (Move α)} {override : α} {depth serial : ℕ}

/-- An override in place stands at the depth at which it was installed. -/
theorem depth_eq_height
    (h : (of (before ++ .install override :: later)).meaning (.override depth) =
      some (of before).guards.length) : depth = (of before).stack.height := by
  obtain ⟨installed, hinstalled, hserial⟩ := meaning_override.mp h
  have hguard := (coherent_of _).depth_eq hinstalled hserial
    (getElem?_guards_install before later override)
  exact (congrArg Guard.depth hguard).symm

/-- What was current when an override in place was installed is the link below its depth. -/
theorem current_eq_below
    (h : (of (before ++ .install override :: later)).meaning (.override depth) =
      some (of before).guards.length) : (of before).stack.current = Link.below depth := by
  unfold Stack.current
  rw [depth_eq_height h]

/-- Below an override in place stands what stood there when it was installed. -/
theorem getElem?_below
    (h : (of (before ++ .install override :: later)).meaning (.override depth) =
      some (of before).guards.length) {lower : ℕ} (hlower : lower < depth) :
    (of (before ++ .install override :: later)).stack.entries[lower]? =
      (of before).stack.entries[lower]? := by
  obtain ⟨installed, hinstalled, hserial⟩ := meaning_override.mp h
  have hdepth := (Array.getElem?_eq_some_iff.mp hinstalled).1
  obtain ⟨standing, hbelow⟩ : ∃ standing : Installed (ℕ × α),
      (of (before ++ .install override :: later)).stack.entries[lower]? = some standing :=
    ⟨_, Array.getElem?_eq_getElem (hlower.trans hdepth)⟩
  have hlt := (coherent_of _).serial_lt hlower hbelow hinstalled
  rw [hserial] at hlt
  rw [hbelow]
  rw [of_append] at hbelow
  exact (getElem?_of_foldl hbelow hlt).symm

/-- The link below an override means what was current when it was installed, as long as that is in
place, whatever happened in between. -/
theorem meaning_below_of_mem
    (h : (of (before ++ .install override :: later)).meaning (.override depth) =
      some (of before).guards.length)
    (hcurrent : (of before).meaning (of before).stack.current = some serial)
    (hmem : serial ∈ (of (before ++ .install override :: later ++ more)).serials) :
    (of (before ++ .install override :: later ++ more)).meaning (Link.below depth) =
      some serial := by
  rw [current_eq_below h] at hcurrent
  cases depth with
  | zero => cases hcurrent
  | succ lower =>
    obtain ⟨current, hinstalled, rfl⟩ := meaning_override.mp hcurrent
    have hguard := (coherent_of before).guard hinstalled
    obtain ⟨place, standing, hstanding, hserial⟩ := mem_serials.mp hmem
    have hown := (coherent_of _).depth_eq hstanding hserial (by
      rw [List.append_assoc, of_append]
      exact getElem?_guards_foldl hguard _)
    obtain rfl : lower = place := congrArg Guard.depth hown
    exact meaning_override.mpr ⟨standing, hstanding, hserial⟩

/-- If the link below an override means anything else, that was installed after the override, even
after the override was found in place. -/
theorem le_of_meaning_below
    (h : (of (before ++ .install override :: later)).meaning (.override depth) =
      some (of before).guards.length)
    (hmeaning : (of (before ++ .install override :: later ++ more)).meaning (Link.below depth) =
      some serial)
    (hcurrent : (of before).meaning (of before).stack.current ≠ some serial) :
    (of (before ++ .install override :: later)).guards.length ≤ serial := by
  by_contra hlt
  rw [current_eq_below h] at hcurrent
  cases depth with
  | zero => cases hmeaning
  | succ lower =>
    obtain ⟨installed, hinstalled, rfl⟩ := meaning_override.mp hmeaning
    rw [of_install_append] at hinstalled
    have hbefore := getElem?_of_foldl hinstalled (Nat.lt_of_not_le hlt)
    rw [getElem?_below h (Nat.lt_succ_self lower)] at hbefore
    exact hcurrent (meaning_override.mpr ⟨installed, hbefore, rfl⟩)

/-- What the link below an override is meant to lead to: the installation that was current when the
override was installed, as long as that is in place, and else the root. -/
def promised (now before : History α) : Option ℕ :=
  (before.meaning before.stack.current).filter fun serial ↦ serial ∈ now.serials

/-- A link that leads to some installation leads to one in place. -/
theorem mem_serials_of_meaning {history : History α} {link : Link}
    (h : history.meaning link = some serial) : serial ∈ history.serials := by
  cases link with
  | root => cases h
  | override place =>
    obtain ⟨installed, hinstalled, hserial⟩ := meaning_override.mp h
    exact mem_serials.mpr ⟨place, installed, hinstalled, hserial⟩

/-- The link below an override leads where it is meant to lead exactly if what it is meant to lead
to is in place, or if nothing is at its depth. -/
theorem meaning_below_eq_promised_iff
    (h : (of (before ++ .install override :: later)).meaning (.override depth) =
      some (of before).guards.length) :
    (of (before ++ .install override :: later ++ more)).meaning (Link.below depth) =
        (of (before ++ .install override :: later ++ more)).promised (of before) ↔
      ((of (before ++ .install override :: later ++ more)).promised (of before)).isSome ∨
        (of (before ++ .install override :: later ++ more)).meaning (Link.below depth) = none := by
  generalize hpromised :
    (of (before ++ .install override :: later ++ more)).promised (of before) = promised
  cases promised with
  | none => simp
  | some serial =>
    obtain ⟨hcurrent, hmem⟩ := Option.filter_eq_some_iff.mp hpromised
    have hmeaning := meaning_below_of_mem h hcurrent (of_decide_eq_true hmem)
    exact ⟨fun _ ↦ .inl rfl, fun _ ↦ hmeaning⟩

/-- Where the link below an override does not lead where it is meant to, it leads to an installation
that was made after the override was found in place. -/
theorem exists_newer_of_ne_promised
    (h : (of (before ++ .install override :: later)).meaning (.override depth) =
      some (of before).guards.length)
    (hne : (of (before ++ .install override :: later ++ more)).meaning (Link.below depth) ≠
      (of (before ++ .install override :: later ++ more)).promised (of before)) :
    ∃ newer ≥ (of (before ++ .install override :: later)).guards.length,
      (of (before ++ .install override :: later ++ more)).meaning (Link.below depth) =
        some newer := by
  rw [ne_eq, meaning_below_eq_promised_iff h, not_or] at hne
  obtain ⟨newer, hmeaning⟩ := Option.ne_none_iff_exists'.mp hne.2
  refine ⟨newer, le_of_meaning_below h hmeaning fun hcurrent ↦ hne.1 ?_, hmeaning⟩
  refine Option.isSome_iff_exists.mpr ⟨newer, Option.filter_eq_some_iff.mpr ⟨hcurrent, ?_⟩⟩
  simpa using mem_serials_of_meaning hmeaning

end Below

end History

end Escalation
