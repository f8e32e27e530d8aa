import Escalation.Proofs.History

/-!
# The ledger of a stack

The abstract view of a stack is a ledger (`Ledger`): the installations in place, outermost first,
each under its serial number. An installation is entered at the end under a fresh number. Releasing
an installation strikes it out with all behind it, and does nothing if it is gone already.

As long as there were no more than `2 ^ 64` installations, no generation was given twice, and a
guard owns its override just as long as its installation is in place (`History.owns_iff`). Then the
stack does what the ledger says (`History.refinedBy_ledger`, `Ledger.RefinedBy`).
-/

set_option autoImplicit false
set_option relaxedAutoImplicit false

namespace Escalation

variable {α β : Type}

/-! ### Ledgers -/

/-- The installations of a thread that are in place, and the number of all so far. -/
@[ext]
structure Ledger (α : Type) where
  /-- The number of installations so far. -/
  count : ℕ := 0
  /-- What is in place, outermost first, under its serial numbers. -/
  installed : List (ℕ × α) := []

namespace Ledger

/-- The ledger with one more move. -/
def move (ledger : Ledger α) : Move α → Ledger α
  | .install override =>
    { count := ledger.count + 1, installed := ledger.installed ++ [(ledger.count, override)] }
  | .release serial =>
    { ledger with installed := ledger.installed.takeWhile fun place ↦ place.1 != serial }

/-- The ledger of these moves. -/
def of (moves : List (Move α)) : Ledger α := moves.foldl move {}

/-- The serial numbers in place, outermost first. -/
def serials (ledger : Ledger α) : List ℕ := ledger.installed.map Prod.fst

@[simp] theorem of_nil : of ([] : List (Move α)) = {} := rfl

@[simp] theorem of_append_singleton (moves : List (Move α)) (last : Move α) :
    of (moves ++ [last]) = (of moves).move last := by
  unfold of
  rw [List.foldl_append]
  rfl

/-- Releasing an installation that is gone does nothing. -/
theorem move_release_of_notMem {ledger : Ledger α} {serial : ℕ} (h : serial ∉ ledger.serials) :
    ledger.move (.release serial) = ledger := by
  have hkept : ledger.installed.takeWhile (fun place ↦ place.1 != serial) = ledger.installed := by
    refine List.takeWhile_eq_self_iff.mpr fun place hplace ↦ ?_
    have hne : place.1 ≠ serial := fun heq ↦ h (heq ▸ List.mem_map_of_mem hplace)
    simpa using hne
  simp [move, hkept]

/-- Releasing an installation that is in place leaves what is below it. -/
theorem installed_move_release {ledger : Ledger α} {below above : List (ℕ × α)} {serial : ℕ}
    {override : α} (h : ledger.installed = below ++ (serial, override) :: above)
    (hbelow : serial ∉ below.map Prod.fst) :
    (ledger.move (.release serial)).installed = below := by
  have hkept : ∀ place ∈ below, (place.1 != serial) = true := by
    intro place hplace
    have hne : place.1 ≠ serial := fun heq ↦ hbelow (heq ▸ List.mem_map_of_mem hplace)
    simpa using hne
  simp only [move, h]
  rw [List.takeWhile_append_of_pos hkept, List.takeWhile_cons_of_neg (by simp), List.append_nil]

end Ledger

/-! ### Histories with few installations -/

namespace History

variable {history : History α}

/-- As long as generations are not given twice, a guard owns its override exactly while its
installation is in place. -/
theorem owns_iff (h : history.Coherent) (hfew : history.guards.length ≤ 2 ^ 64) {serial : ℕ}
    {guard : Guard} (hguard : history.guards[serial]? = some guard) :
    history.stack.owns guard = true ↔ serial ∈ history.serials := by
  constructor
  · intro howns
    obtain ⟨installed, hinstalled, hgeneration⟩ := Stack.owns_eq_true_iff.mp howns
    have hmem : installed.override.1 ∈ history.serials :=
      mem_serials.mpr ⟨guard.depth, installed, hinstalled, rfl⟩
    have hplace := (h.lt_of_mem hmem).trans_le hfew
    have hserial := (List.getElem?_eq_some_iff.mp hguard).1.trans_le hfew
    rw [h.generation_eq hinstalled, h.generation hguard] at hgeneration
    have hwords := congrArg UInt64.toNat hgeneration
    rw [UInt64.toNat_ofNat', UInt64.toNat_ofNat', Nat.mod_eq_of_lt hplace,
      Nat.mod_eq_of_lt hserial] at hwords
    rwa [← hwords]
  · exact h.owns_of_mem hguard

/-- The ledger that a history gives. -/
def ledger (history : History α) : Ledger α where
  count := history.guards.length
  installed := history.stack.entries.toList.map Installed.override

theorem serials_ledger (history : History α) : history.ledger.serials = history.serials := by
  simp [ledger, Ledger.serials, serials]

theorem ledger_move_install (history : History α) (override : α) :
    (history.move (.install override)).ledger = history.ledger.move (.install override) := by
  simp [ledger, Ledger.move, move]

/-- What stands below an installation has other serial numbers. -/
theorem notMem_take (h : history.Coherent) {depth : ℕ} {installed : Installed (ℕ × α)}
    (hinstalled : history.stack.entries[depth]? = some installed) :
    installed.override.1 ∉ (history.ledger.installed.take depth).map Prod.fst := by
  intro hmem
  obtain ⟨place, hplace, hserial⟩ := List.mem_map.mp hmem
  obtain ⟨lower, hlower⟩ := List.mem_iff_getElem?.mp hplace
  rw [List.getElem?_take] at hlower
  split at hlower
  case isFalse hle => cases hlower
  case isTrue hlt =>
    simp only [ledger, List.getElem?_map, Option.map_eq_some_iff] at hlower
    obtain ⟨below, hbelow, rfl⟩ := hlower
    rw [Array.getElem?_toList] at hbelow
    exact absurd hserial (h.serial_lt hlt hbelow hinstalled).ne

/-- Releasing a guard that owns its override strikes its installation out with all behind it. -/
theorem ledger_move_release_of_owns (h : history.Coherent) {depth : ℕ}
    {installed : Installed (ℕ × α)}
    (hinstalled : history.stack.entries[depth]? = some installed) :
    (history.move (.release installed.override.1)).ledger =
      history.ledger.move (.release installed.override.1) := by
  have hguard := h.guard hinstalled
  have howns := h.owns_of_mem hguard (mem_serials.mpr ⟨depth, installed, hinstalled, rfl⟩)
  have hplace : history.ledger.installed[depth]? = some installed.override := by
    simp [ledger, hinstalled]
  have hsplit : history.ledger.installed = history.ledger.installed.take depth ++
      (installed.override.1, installed.override.2) ::
        history.ledger.installed.drop (depth + 1) := by
    obtain ⟨hdepth, hget⟩ := List.getElem?_eq_some_iff.mp hplace
    rw [Prod.mk.eta, ← hget, ← List.drop_eq_getElem_cons, List.take_append_drop]
  have hleft := Ledger.installed_move_release hsplit (notMem_take h hinstalled)
  have hcut : (history.move (.release installed.override.1)).ledger.installed =
      history.ledger.installed.take depth := by
    simp only [move, hguard, ledger]
    rw [Stack.toList_entries_release, if_pos howns, List.map_take]
  have hcount : (history.move (.release installed.override.1)).ledger.count =
      history.guards.length := by
    simp [move, hguard, ledger]
  rw [← hleft] at hcut
  exact Ledger.ext hcount hcut

/-- Releasing a guard does to the stack what it does to the ledger. -/
theorem ledger_move_release (h : history.Coherent) (hfew : history.guards.length ≤ 2 ^ 64)
    (serial : ℕ) :
    (history.move (.release serial)).ledger = history.ledger.move (.release serial) := by
  by_cases hmem : serial ∈ history.serials
  · obtain ⟨depth, installed, hinstalled, rfl⟩ := mem_serials.mp hmem
    exact ledger_move_release_of_owns h hinstalled
  · rw [Ledger.move_release_of_notMem (serials_ledger history ▸ hmem)]
    unfold move
    dsimp only
    split
    · rfl
    · rename_i guard hguard
      have howns := mt (owns_iff h hfew hguard).mp hmem
      rw [Stack.release_of_not_owns _ _ (by simpa using howns)]

/-- As long as generations are not given twice, a history gives the ledger of its moves. -/
theorem ledger_of {moves : List (Move α)} (hfew : (of moves).guards.length ≤ 2 ^ 64) :
    (of moves).ledger = Ledger.of moves := by
  induction moves using List.reverseRecOn with
  | nil => rfl
  | append_singleton moves last ih =>
    rw [of_append_singleton] at hfew ⊢
    have hbefore := (length_guards_le_move (of moves) last).trans hfew
    rw [Ledger.of_append_singleton, ← ih hbefore]
    cases last with
    | install override => exact ledger_move_install _ override
    | release serial => exact ledger_move_release (coherent_of moves) hbefore serial

/-- A ledger counts the guards that were handed out. -/
theorem length_guards (moves : List (Move α)) :
    (of moves).guards.length = (Ledger.of moves).count := by
  induction moves using List.reverseRecOn with
  | nil => rfl
  | append_singleton moves last ih =>
    rw [of_append_singleton, Ledger.of_append_singleton]
    cases last with
    | install override => simp [move, Ledger.move, ih]
    | release serial =>
      unfold move
      dsimp only
      split <;> exact ih

end History

/-! ### The stack does what the ledger says -/

/-- An installation as the stack has it. -/
def Installed.ofPlace (place : ℕ × α) : Installed α where
  generation := UInt64.ofNat place.1
  override := place.2

namespace Ledger

/-- A stack, with the guards that were handed out for it in the order of installation, does what a
ledger says. -/
structure RefinedBy (ledger : Ledger α) (stack : Stack α) (guards : List Guard) : Prop where
  /-- The same installations are in place, in the same order. -/
  entries : stack.entries.toList = ledger.installed.map Installed.ofPlace
  /-- They are distinct. -/
  increasing : ledger.serials.Pairwise (· < ·)
  count : guards.length = ledger.count
  lt_count {serial : ℕ} : serial ∈ ledger.serials → serial < ledger.count
  /-- A guard passes the test of ownership exactly while its own installation is in place. -/
  owns {serial : ℕ} {guard : Guard} : guards[serial]? = some guard →
    (stack.owns guard = true ↔ serial ∈ ledger.serials)
  /-- The depth of a guard is the place of its installation. -/
  depth {serial : ℕ} {guard : Guard} : guards[serial]? = some guard → serial ∈ ledger.serials →
    ledger.serials[guard.depth]? = some serial
  /-- Releasing a guard leaves what releasing its installation leaves. -/
  release {serial : ℕ} {guard : Guard} : guards[serial]? = some guard →
    (stack.release guard).2.entries.toList =
      (ledger.move (.release serial)).installed.map Installed.ofPlace
  /-- A stale guard disturbs nothing. -/
  stale {serial : ℕ} {guard : Guard} : guards[serial]? = some guard → serial ∉ ledger.serials →
    stack.release guard = (.stale, stack)
  height : stack.height = ledger.installed.length
  current : stack.current = Link.below ledger.installed.length
  /-- The current link means the top of the ledger, and the root if that is empty. -/
  top : (stack.resolve stack.current).map Prod.fst = ledger.installed.getLast?.map Prod.snd

end Ledger

namespace History

variable {history : History α}

/-- The stack has what the ledger has, with generations for serial numbers. -/
theorem entries_ledger (h : history.Coherent) : (history.stack.map Prod.snd).entries.toList =
    history.ledger.installed.map Installed.ofPlace := by
  simp only [Stack.entries_map, ledger, Array.toList_map, List.map_map]
  refine List.map_congr_left fun installed hinstalled ↦ ?_
  obtain ⟨depth, hdepth⟩ := List.mem_iff_getElem?.mp hinstalled
  rw [Array.getElem?_toList] at hdepth
  simp [Installed.ofPlace, h.generation_eq hdepth]

/-- As long as generations are not given twice, the stack of a history does what its ledger says. -/
theorem refinedBy_ledger (h : history.Coherent) (hfew : history.guards.length ≤ 2 ^ 64) :
    history.ledger.RefinedBy (history.stack.map Prod.snd) history.guards where
  entries := entries_ledger h
  increasing := by
    rw [serials_ledger]
    exact h.increasing
  count := rfl
  lt_count hmem := h.lt_of_mem (serials_ledger history ▸ hmem)
  owns hguard := by
    rw [Stack.owns_map, serials_ledger]
    exact owns_iff h hfew hguard
  depth {serial guard} hguard hmem := by
    rw [serials_ledger] at hmem ⊢
    obtain ⟨depth, installed, hinstalled, hserial⟩ := mem_serials.mp hmem
    rw [h.depth_eq hinstalled hserial hguard, serials, List.getElem?_map, Array.getElem?_toList,
      hinstalled, Option.map_some, hserial]
  release {serial guard} hguard := by
    have hcoherent := h.release serial
    rw [← ledger_move_release h hfew serial, ← entries_ledger hcoherent, Stack.release_map]
    simp only [move, hguard]
  stale {serial guard} hguard hmem := by
    rw [serials_ledger, ← owns_iff h hfew hguard] at hmem
    exact Stack.release_of_not_owns _ _ (by simpa using hmem)
  height := by simp [Stack.height, ledger]
  current := by simp [Stack.current, Stack.height, ledger]
  top := by
    rw [Stack.map_fst_resolve_current, entries_ledger h, List.getLast?_map, Option.map_map]
    rfl

end History

end Escalation
