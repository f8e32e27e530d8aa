import Escalation.Proofs.Following

/-!
# Guards released in any order

Overrides are installed one after another on top of a stack, and their guards are released in some
order, each behind a catch. Assumes of their destructors that they neither raise nor touch the stack
(`Run.Harmless`). Each release cuts the row of overrides just below its own, so what is left of the
row are the overrides below the least index released so far (`leftOf`); a release raises if its
override is in place still and not on top, unless the thread is unwinding
(`Run.intercept_release_row`).

Hence in the end the stack is what it was, and nothing raises exactly if the guards were released in
the reverse order of installation, or while unwinding (`releases_in_any_order`).
-/

set_option autoImplicit false
set_option relaxedAutoImplicit false

namespace Escalation

/-! ### Rows of overrides on a stack -/

/-- How many overrides of a row are left once those at some indices were released: those below the
least of the indices. -/
def leftOf (count : ℕ) (released : List ℕ) : ℕ := released.foldl min count

theorem leftOf_append_singleton (count : ℕ) (released : List ℕ) (index : ℕ) :
    leftOf count (released ++ [index]) = min (leftOf count released) index := by
  simp [leftOf]

theorem leftOf_le (count : ℕ) (released : List ℕ) : leftOf count released ≤ count := by
  induction released using List.reverseRecOn with
  | nil => exact le_rfl
  | append_singleton released index ih =>
    rw [leftOf_append_singleton]
    exact (min_le_left _ _).trans ih

theorem leftOf_le_of_mem {count index : ℕ} {released : List ℕ} (h : index ∈ released) :
    leftOf count released ≤ index := by
  induction released using List.reverseRecOn with
  | nil => cases h
  | append_singleton released last ih =>
    rw [leftOf_append_singleton]
    rcases List.mem_append.mp h with hbefore | hlast
    · exact (min_le_left _ _).trans (ih hbefore)
    · exact List.mem_singleton.mp hlast ▸ min_le_right _ _

/-- Nothing is left of a row once all its guards were released. -/
theorem leftOf_of_perm {count : ℕ} {released : List ℕ} (h : released.Perm (List.range count)) :
    leftOf count released = 0 := by
  rcases Nat.eq_zero_or_pos count with rfl | hpos
  · exact Nat.le_zero.mp (leftOf_le 0 released)
  · exact Nat.le_zero.mp (leftOf_le_of_mem (h.mem_iff.mpr (List.mem_range.mpr hpos)))

/-- The guards of a row of overrides, of which the lowest stands at `depth`. -/
def rowGuards {α : Type} (depth : ℕ) : List (Installed α) → List Guard
  | [] => []
  | installed :: rest =>
    { depth, generation := installed.generation } :: rowGuards (depth + 1) rest

section Row

variable {α : Type} {depth index : ℕ} {row : List (Installed α)} {installed : Installed α}

@[simp] theorem length_rowGuards (depth : ℕ) (row : List (Installed α)) :
    (rowGuards depth row).length = row.length := by
  induction row generalizing depth with
  | nil => rfl
  | cons installed rest ih => simp [rowGuards, ih]

theorem getElem?_rowGuards (h : row[index]? = some installed) : (rowGuards depth row)[index]? =
    some { depth := depth + index, generation := installed.generation } := by
  induction row generalizing depth index with
  | nil => simp at h
  | cons lowest rest ih =>
    cases index with
    | zero =>
      rw [List.getElem?_cons_zero, Option.some.injEq] at h
      simp [rowGuards, h]
    | succ index =>
      rw [List.getElem?_cons_succ] at h
      rw [rowGuards, List.getElem?_cons_succ, ih h]
      simp only [Option.some.injEq, Guard.mk.injEq, and_true]
      omega

end Row

namespace Stack

variable {α : Type} {stack : Stack α} {base row : List (Installed α)} {left index : ℕ}
  {installed : Installed α}

/-- The guard of an override of a row owns it as long as it is left. -/
theorem owns_row (hentries : stack.entries.toList = base ++ row.take left)
    (hrow : row[index]? = some installed) :
    stack.owns { depth := base.length + index, generation := installed.generation } = true ↔
      index < left := by
  have hplace : stack.entries[base.length + index]? =
      if index < left then some installed else none := by
    rw [← Array.getElem?_toList, hentries, List.getElem?_append_right (Nat.le_add_right _ _),
      Nat.add_sub_cancel_left, List.getElem?_take, hrow]
  rw [owns_eq_true_iff, hplace]
  by_cases hindex : index < left
  · rw [if_pos hindex]
    exact ⟨fun _ ↦ hindex, fun _ ↦ ⟨installed, rfl, rfl⟩⟩
  · rw [if_neg hindex]
    exact ⟨fun ⟨_, hnone, _⟩ ↦ (Option.some_ne_none _ hnone.symm).elim, fun h ↦ absurd h hindex⟩

/-- Releasing the guard of an override of a row leaves what is below it. -/
theorem entries_release_row (hentries : stack.entries.toList = base ++ row.take left)
    (hrow : row[index]? = some installed) :
    (stack.release
        { depth := base.length + index, generation := installed.generation }).2.entries.toList =
      base ++ row.take (min left index) := by
  have howns := owns_row hentries hrow
  rw [toList_entries_release]
  by_cases hindex : index < left
  · rw [if_pos (howns.mpr hindex), hentries, List.take_length_add_append, List.take_take, min_comm]
  · rw [if_neg (mt howns.mp hindex), hentries, min_eq_left (Nat.le_of_not_lt hindex)]

/-- What the release of the guard of an override of a row removes, and in which order. -/
theorem fst_release_row (hleft : left ≤ row.length)
    (hentries : stack.entries.toList = base ++ row.take left)
    (hrow : row[index]? = some installed) :
    (stack.release { depth := base.length + index, generation := installed.generation }).1 =
      if index < left then
        if index + 1 = left then
          .inOrder (((row.take left).drop index).map Installed.override)
        else .outOfOrder (((row.take left).drop index).map Installed.override)
      else .stale := by
  have howns := owns_row hentries hrow
  have hheight : stack.height = base.length + left := by
    have hlength := congrArg List.length hentries
    rw [List.length_append, List.length_take_of_le hleft] at hlength
    exact hlength
  have hremoved : stack.entries.toList.drop (base.length + index) = (row.take left).drop index := by
    rw [hentries, List.drop_append, List.drop_eq_nil_of_le (Nat.le_add_right _ _), List.nil_append,
      Nat.add_sub_cancel_left]
  by_cases hindex : index < left
  · rw [fst_release_of_owns (howns.mpr hindex), if_pos hindex]
    dsimp only
    rw [hheight, hremoved]
    by_cases htop : index + 1 = left
    · rw [if_pos htop, if_pos (by omega)]
    · rw [if_neg htop, if_neg (by omega)]
  · rw [release_of_not_owns _ _ (by simpa using mt howns.mp hindex), if_neg hindex]

end Stack

/-! ### Destructors that leave the stack alone -/

/-- The thread has its storage as before, no more and no fewer raises are uncaught, every override
that is there does what it did, and the stack is what it was or was cut. -/
structure Machine.AsBefore (machine after : Machine) : Prop where
  tornDown : after.thread.tornDown = machine.thread.tornDown
  unwinding : after.thread.unwinding = machine.thread.unwinding
  overrideOf {object : ObjectId} {override : Override} :
    machine.overrideOf? object = some override → after.overrideOf? object = some override
  entries : after.thread.stack.entries.toList <+: machine.thread.stack.entries.toList

/-- The machine with another number of raises that are not caught yet. -/
def Machine.unwindingBy (machine : Machine) (unwinding : ℕ) : Machine :=
  { machine with thread := { machine.thread with unwinding } }

namespace Machine.AsBefore

variable {machine after last : Machine}

theorem refl (machine : Machine) : machine.AsBefore machine := ⟨rfl, rfl, id, List.prefix_rfl⟩

theorem trans (h : machine.AsBefore after) (hlast : after.AsBefore last) : machine.AsBefore last :=
  ⟨hlast.tornDown.trans h.tornDown, hlast.unwinding.trans h.unwinding,
    fun hoverride ↦ hlast.overrideOf (h.overrideOf hoverride), hlast.entries.trans h.entries⟩

/-- Output does not matter. -/
theorem of_process (machine : Machine) (process : Process) :
    machine.AsBefore { machine with process } := ⟨rfl, rfl, id, List.prefix_rfl⟩

theorem of_release (machine : Machine) (guard : Guard) : machine.AsBefore { machine with thread :=
    { machine.thread with stack := (machine.thread.stack.release guard).2 } } := by
  refine ⟨rfl, rfl, id, ?_⟩
  dsimp only
  rw [Stack.toList_entries_release]
  split
  · exact List.take_prefix _ _
  · exact List.prefix_rfl

theorem unwindingBy (h : machine.AsBefore after) (unwinding : ℕ) :
    (machine.unwindingBy unwinding).AsBefore (after.unwindingBy unwinding) :=
  ⟨h.tornDown, rfl, h.overrideOf, h.entries⟩

end Machine.AsBefore

namespace Run

/-- The destructor of an override object that is there neither raises nor touches the stack, also
when the stack was cut and while the thread is unwinding. -/
def HarmlessAt (exec : Exec) (machine : Machine) (object : ObjectId) : Prop :=
  ∃ override, machine.overrideOf? object = some override ∧
    ∀ unwinding later, (machine.unwindingBy unwinding).AsBefore later → ∃ after,
      destroy exec override later = .ok () after ∧
        after.thread.stack = later.thread.stack ∧ later.AsBefore after

variable {exec : Exec} {machine after : Machine} {object : ObjectId} {objects : List ObjectId}

theorem HarmlessAt.asBefore (h : HarmlessAt exec machine object) (hafter : machine.AsBefore after) :
    HarmlessAt exec after object := by
  obtain ⟨override, hoverride, hharmless⟩ := h
  refine ⟨override, hafter.overrideOf hoverride, fun unwinding later hlater ↦ ?_⟩
  exact hharmless unwinding later ((hafter.unwindingBy unwinding).trans hlater)

theorem HarmlessAt.unwindingBy (h : HarmlessAt exec machine object) (unwinding : ℕ) :
    HarmlessAt exec (machine.unwindingBy unwinding) object := h

/-- Taking an owner away finds out at most what the object does. -/
theorem disown_asBefore (object : ObjectId) (machine : Machine) : ∃ found after,
    disown object machine = .ok found after ∧ after.thread.stack = machine.thread.stack ∧
      machine.AsBefore after := by
  have hsame : machine.SameOverrides _ := aside_disown object machine trivial
  refine ⟨_, _, rfl, hsame.stack, hsame.tornDown, ?_, fun h ↦ (hsame.overrideOf_eq _).trans h, ?_⟩
  · dsimp only
    split <;> rfl
  · rw [hsame.stack]

/-- An object whose destructor is harmless is let go without further ado. -/
theorem relinquish_of_harmless (h : HarmlessAt exec machine object) : ∃ after,
    relinquish exec object machine = .ok () after ∧ after.thread.stack = machine.thread.stack ∧
      machine.AsBefore after := by
  obtain ⟨override, hoverride, hharmless⟩ := h
  obtain ⟨found, left, hdisown, hstack, hleft⟩ := disown_asBefore object machine
  unfold relinquish
  rw [bind_of_ok hdisown]
  cases found with
  | none => exact ⟨left, rfl, hstack, hleft⟩
  | some other =>
    obtain ⟨held, hheld, hother⟩ := Discipline.override_of_disown hdisown
    obtain rfl : other = override := by
      simpa [Machine.overrideOf?, hheld, hother] using hoverride
    obtain ⟨last, hdestroy, hlastStack, hlast⟩ :=
      hharmless machine.thread.unwinding left hleft
    exact ⟨last, hdestroy, hlastStack.trans hstack, hleft.trans hlast⟩

theorem relinquishAll_of_harmless (h : ∀ object ∈ objects, HarmlessAt exec machine object) :
    ∃ after, relinquishAll exec objects machine = .ok () after ∧
      after.thread.stack = machine.thread.stack ∧ machine.AsBefore after := by
  induction objects generalizing machine with
  | nil => exact ⟨machine, rfl, rfl, .refl _⟩
  | cons object rest ih =>
    obtain ⟨left, hfirst, hstack, hleft⟩ := relinquish_of_harmless (h object List.mem_cons_self)
    obtain ⟨last, hrest, hlastStack, hlast⟩ := @ih left fun other hother ↦
      (h other (List.mem_cons_of_mem _ hother)).asBefore hleft
    exact ⟨last, andFinally_of_ok hfirst hrest, hlastStack.trans hstack, hleft.trans hlast⟩

/-! ### One release -/

/-- What the release of the guard of an override of a row raises, where `left` overrides of the row
are left and the lowest stands at `depth`: the release is out of order if the override is in place
and not on top, and reported so unless the thread is unwinding. -/
def releaseOutcome (unwinding depth left index : ℕ) : Except Payload Unit :=
  if unwinding = 0 ∧ index < left ∧ index + 1 ≠ left then
    .error (.message (outOfOrderMessage (depth + index)))
  else .ok ()

/-- Events inside the library leave the thread alone. -/
theorem traceEvent_of_stack (level : Level) (text : String) (machine : Machine) : ∃ process,
    traceEvent level stackTarget text machine = .ok () { machine with process } := by
  obtain ⟨process, hend, -⟩ :=
    traceEvent_eq level (show stackTarget ≠ bridgeTarget by decide) text machine
  exact ⟨process, hend⟩

/-- Letting go of overrides that were on top is silent. -/
theorem settle_inOrder_of_harmless (h : ∀ object ∈ objects, HarmlessAt exec machine object)
    (guard : Guard) : ∃ after, settle exec guard (.inOrder objects) machine = .ok () after ∧
      after.thread.stack = machine.thread.stack ∧ machine.AsBefore after := by
  obtain ⟨left, hall, hstack, hleft⟩ := relinquishAll_of_harmless h
  obtain ⟨process, htrace⟩ := traceEvent_of_stack .trace
    ("exception callback released depth=" ++ toString guard.depth) left
  exact ⟨_, (bind_of_ok hall).trans htrace, hstack, hleft.trans (.of_process left process)⟩

/-- Letting go of overrides of which some were not on top is reported unless the thread is
unwinding. -/
theorem intercept_settle_outOfOrder (h : ∀ object ∈ objects, HarmlessAt exec machine object)
    (guard : Guard) : ∃ after, intercept (settle exec guard (.outOfOrder objects)) machine =
        .ok (if machine.thread.unwinding = 0 then
          .error (.message (outOfOrderMessage guard.depth)) else .ok ()) after ∧
      after.thread.stack = machine.thread.stack ∧ machine.AsBefore after := by
  obtain ⟨left, hall, hstack, hleft⟩ := relinquishAll_of_harmless h
  have hunwinding : isUnwinding left = .ok (left.thread.unwinding != 0) left := rfl
  have hsettle : settle exec guard (.outOfOrder objects) machine =
      (if !(left.thread.unwinding != 0) then raise (.message (outOfOrderMessage guard.depth))
        else return : Run Unit) left := (bind_of_ok hall).trans (bind_of_ok hunwinding)
  by_cases hcalm : machine.thread.unwinding = 0
  · obtain ⟨process, hraise, -⟩ :=
      raise_eq (α := Unit) (.message (outOfOrderMessage guard.depth)) left
    have hcalmLeft : left.thread.unwinding = 0 := hleft.unwinding.trans hcalm
    rw [if_pos (by simp [hcalmLeft])] at hsettle
    rw [if_pos hcalm, intercept_of_raised (hsettle.trans hraise)]
    exact ⟨_, rfl, hstack, hleft.trans ⟨rfl, Nat.add_sub_cancel _ _, id, List.prefix_rfl⟩⟩
  · have hbusy : left.thread.unwinding ≠ 0 := hleft.unwinding ▸ hcalm
    rw [if_neg (by simpa using hbusy)] at hsettle
    rw [if_neg hcalm, intercept_of_ok hsettle]
    exact ⟨_, rfl, hstack, hleft⟩

section Row

variable {base row : List (Installed ObjectId)} {left index : ℕ} {installed : Installed ObjectId}

/-- Releasing the guard of an override of a row, behind a catch. -/
theorem intercept_release_row (halive : machine.thread.tornDown = false)
    (hleft : left ≤ row.length)
    (hentries : machine.thread.stack.entries.toList = base ++ row.take left)
    (hrow : row[index]? = some installed)
    (hharmless : ∀ standing ∈ row, HarmlessAt exec machine standing.override) :
    ∃ after, intercept (Run.release exec
          { depth := base.length + index, generation := installed.generation }) machine =
        .ok (releaseOutcome machine.thread.unwinding base.length left index) after ∧
      after.thread.stack.entries.toList = base ++ row.take (min left index) ∧
      machine.AsBefore after := by
  let guard : Guard := { depth := base.length + index, generation := installed.generation }
  let cut : Machine := { machine with thread :=
    { machine.thread with stack := (machine.thread.stack.release guard).2 } }
  have hcut : machine.AsBefore cut := .of_release machine guard
  have hleftEntries : cut.thread.stack.entries.toList = base ++ row.take (min left index) :=
    Stack.entries_release_row hentries hrow
  have hremoved : ∀ object ∈ ((row.take left).drop index).map Installed.override,
      HarmlessAt exec cut object := by
    intro object hobject
    obtain ⟨standing, hstanding, rfl⟩ := List.mem_map.mp hobject
    have hmem := List.mem_of_mem_take (List.mem_of_mem_drop hstanding)
    exact (hharmless standing hmem).asBefore hcut
  have hrelease : Run.release exec guard machine =
      settle exec guard (machine.thread.stack.release guard).1 cut := release_of_alive halive guard
  rw [Stack.fst_release_row hleft hentries hrow] at hrelease
  unfold releaseOutcome
  by_cases hplace : index < left
  · rw [if_pos hplace] at hrelease
    by_cases htop : index + 1 = left
    · rw [if_pos htop] at hrelease
      obtain ⟨after, hsettle, hstack, hafter⟩ := settle_inOrder_of_harmless hremoved guard
      rw [if_neg (by simp [htop])]
      exact ⟨after, intercept_of_ok (hrelease.trans hsettle), hstack ▸ hleftEntries,
        hcut.trans hafter⟩
    · rw [if_neg htop] at hrelease
      obtain ⟨after, hsettle, hstack, hafter⟩ := intercept_settle_outOfOrder hremoved guard
      have hcaught : intercept (Run.release exec guard) machine =
          intercept (settle exec guard
            (.outOfOrder (((row.take left).drop index).map Installed.override))) cut := by
        unfold intercept
        rw [hrelease]
      refine ⟨after, ?_, hstack ▸ hleftEntries, hcut.trans hafter⟩
      rw [hcaught, hsettle]
      simp [hplace, htop, guard, cut]
  · rw [if_neg hplace] at hrelease
    obtain ⟨process, htrace⟩ := traceEvent_of_stack .trace
      ("stale exception callback guard dropped depth=" ++ toString guard.depth) cut
    rw [if_neg (by simp [hplace])]
    exact ⟨_, intercept_of_ok (hrelease.trans htrace), hleftEntries,
      hcut.trans (.of_process cut process)⟩

end Row

/-! ### Rows that are installed and released -/

/-- Installs overrides one after another. -/
def installEach (exec : Exec) (objects : List ObjectId) : Run (List Guard) :=
  objects.mapM (install exec)

/-- Releases guards one after another, each behind a catch, and hands over what each raised. -/
def releaseEach (exec : Exec) (guards : List Guard) : Run (List (Except Payload Unit)) :=
  guards.mapM fun guard ↦ intercept (Run.release exec guard)

/-- What the releases of the guards at some indices of a row raise, one after another. -/
def releaseOutcomes (unwinding depth : ℕ) : (left : ℕ) → List ℕ → List (Except Payload Unit)
  | _, [] => []
  | left, index :: rest =>
    releaseOutcome unwinding depth left index ::
      releaseOutcomes unwinding depth (min left index) rest

/-- Overrides that are installed one after another stand in a row on the stack. -/
theorem installEach_of_alive (halive : machine.thread.tornDown = false) (objects : List ObjectId) :
    ∃ row after, installEach exec objects machine =
        .ok (rowGuards machine.thread.stack.entries.toList.length row) after ∧
      row.map Installed.override = objects ∧
      after.thread.stack.entries.toList = machine.thread.stack.entries.toList ++ row ∧
      after.thread.tornDown = false := by
  unfold installEach
  induction objects generalizing machine with
  | nil => exact ⟨[], machine, rfl, rfl, (List.append_nil _).symm, halive⟩
  | cons object rest ih =>
    obtain ⟨process, hinstall, -⟩ := @install_of_alive exec machine halive object
    let placed : Machine := { process, thread :=
      { machine.thread with stack := (machine.thread.stack.install object).2 } }
    have hplaced : placed.thread.stack.entries.toList = machine.thread.stack.entries.toList ++
        [{ generation := machine.thread.stack.nextGeneration, override := object }] := by
      simp [placed]
    obtain ⟨row, after, hrest, hrow, hentries, hafter⟩ := @ih placed halive
    refine ⟨{ generation := machine.thread.stack.nextGeneration, override := object } :: row,
      after, ?_, by simp [hrow], ?_, hafter⟩
    · rw [List.mapM_cons, bind_of_ok hinstall, bind_of_ok hrest, hplaced]
      simp [rowGuards, Stack.install, Stack.height, pure, EStateM.pure]
    · rw [hentries, hplaced, List.append_assoc, List.singleton_append]

section Row

variable {base row : List (Installed ObjectId)} {left : ℕ}

theorem releaseEach_row (halive : machine.thread.tornDown = false) (hleft : left ≤ row.length)
    (hentries : machine.thread.stack.entries.toList = base ++ row.take left)
    (hharmless : ∀ standing ∈ row, HarmlessAt exec machine standing.override)
    (order : List (Fin (rowGuards base.length row).length)) :
    ∃ after, releaseEach exec (order.map (rowGuards base.length row).get) machine =
        .ok (releaseOutcomes machine.thread.unwinding base.length left (order.map Fin.val)) after ∧
      after.thread.stack.entries.toList = base ++ row.take (leftOf left (order.map Fin.val)) ∧
      machine.AsBefore after := by
  unfold releaseEach
  induction order generalizing machine left with
  | nil => exact ⟨machine, rfl, hentries, .refl _⟩
  | cons index rest ih =>
    have hindex : index.val < row.length := length_rowGuards base.length row ▸ index.isLt
    have hrow : row[index.val]? = some row[index.val] := List.getElem?_eq_getElem hindex
    have hguard : (rowGuards base.length row).get index =
        { depth := base.length + index, generation := row[index.val].generation } := by
      have hplace : (rowGuards base.length row)[index.val]? =
          some { depth := base.length + index, generation := row[index.val].generation } :=
        getElem?_rowGuards hrow
      exact (List.getElem?_eq_some_iff.mp hplace).2
    obtain ⟨middle, hfirst, hmiddleEntries, hmiddle⟩ :=
      intercept_release_row halive hleft hentries hrow hharmless
    obtain ⟨after, hrest, hafterEntries, hafter⟩ := @ih middle (min left index)
      (hmiddle.tornDown.trans halive) ((min_le_left _ _).trans hleft) hmiddleEntries
      fun standing hstanding ↦ (hharmless standing hstanding).asBefore hmiddle
    refine ⟨after, ?_, hafterEntries, hmiddle.trans hafter⟩
    rw [List.map_cons, List.mapM_cons, hguard, bind_of_ok hfirst, bind_of_ok hrest,
      hmiddle.unwinding]
    rfl

end Row

/-- While a thread is unwinding, no release is reported. -/
theorem eq_ok_of_mem_releaseOutcomes {unwinding depth left : ℕ} {order : List ℕ}
    (hbusy : unwinding ≠ 0) :
    ∀ outcome ∈ releaseOutcomes unwinding depth left order, outcome = .ok () := by
  induction order generalizing left with
  | nil => exact fun outcome h ↦ by cases h
  | cons index rest ih =>
    intro outcome houtcome
    rcases List.mem_cons.mp houtcome with rfl | hrest
    · exact if_neg fun h ↦ hbusy h.1
    · exact ih outcome hrest

/-- No release of a whole row is reported exactly if the guards are released from the top down. -/
theorem releaseOutcomes_eq_ok_iff {depth left : ℕ} {order : List ℕ}
    (horder : order.Perm (List.range left)) :
    (∀ outcome ∈ releaseOutcomes 0 depth left order, outcome = .ok ()) ↔
      order = (List.range left).reverse := by
  induction order generalizing left with
  | nil =>
    obtain rfl : left = 0 := by simpa using horder.length_eq.symm
    simp [releaseOutcomes]
  | cons index rest ih =>
    obtain ⟨lower, rfl⟩ : ∃ lower, left = lower + 1 :=
      ⟨rest.length, by simpa using horder.length_eq.symm⟩
    have hplace : index < lower + 1 := by
      simpa using horder.mem_iff.mp (List.mem_cons_self (a := index) (l := rest))
    rw [releaseOutcomes, List.forall_mem_cons, List.range_succ, List.reverse_append,
      List.reverse_singleton, List.singleton_append, List.cons.injEq]
    by_cases htop : index = lower
    · subst htop
      rw [List.range_succ] at horder
      have hrest : rest.Perm (List.range index) := by
        refine (List.perm_cons index).mp (horder.trans ?_)
        exact List.perm_append_singleton index (List.range index)
      rw [min_eq_right (Nat.le_succ index), ih hrest]
      simp [releaseOutcome]
    · have hraised : releaseOutcome 0 depth (lower + 1) index ≠ .ok () := by
        unfold releaseOutcome
        rw [if_pos ⟨rfl, hplace, by omega⟩]
        exact fun h ↦ by cases h
      exact ⟨fun h ↦ absurd h.1 hraised, fun h ↦ absurd h.1 htop⟩

end Run

/-! ### Every order -/

variable {exec : Exec} {machine : Machine} {objects : List ObjectId}

/-- Assumes: the storage of the thread is there.
Then installing overrides one after another puts a row of them on the stack; and if their
destructors neither raise nor touch the stack, whatever guards of the row are released in whatever
order, each behind a catch and with whatever number of raises not caught yet:
* the stack is what it was with those overrides of the row on it that are below the least index
  released;
* one more release is reported exactly if its override is left and not on top, and the thread is not
  unwinding;
* once all guards were released, the stack is what it was, and no release was reported exactly if
  the thread is unwinding or the order was the reverse of that of installation. -/
theorem releases_in_any_order (halive : machine.thread.tornDown = false) :
    ∃ (guards : List Guard) (installed : Machine) (row : List (Installed ObjectId)),
      Run.installEach exec objects machine = .ok guards installed ∧
      guards.length = objects.length ∧ row.map Installed.override = objects ∧
      ((∀ object ∈ objects, Run.HarmlessAt exec installed object) → ∀ unwinding,
        (∀ (released : List (Fin guards.length)) (index : Fin guards.length),
          let left := leftOf objects.length (released.map Fin.val)
          ∃ outcomes before after,
            Run.releaseEach exec (released.map guards.get) (installed.unwindingBy unwinding) =
              .ok outcomes before ∧
            before.thread.stack.entries.toList =
              machine.thread.stack.entries.toList ++ row.take left ∧
            Run.intercept (Run.release exec (guards.get index)) before =
              .ok (if unwinding = 0 ∧ index < left ∧ index + 1 ≠ left then
                .error (.message (Run.outOfOrderMessage (guards.get index).depth))
                else .ok ()) after ∧
            after.thread.stack.entries.toList =
              machine.thread.stack.entries.toList ++ row.take (min left index)) ∧
        ∀ order : List (Fin guards.length), order.Perm (List.finRange guards.length) →
          ∃ outcomes after,
            Run.releaseEach exec (order.map guards.get) (installed.unwindingBy unwinding) =
              .ok outcomes after ∧
            after.thread.stack.entries = machine.thread.stack.entries ∧
            ((∀ outcome ∈ outcomes, outcome = .ok ()) ↔
              unwinding ≠ 0 ∨ order = (List.finRange guards.length).reverse)) := by
  obtain ⟨row, installed, hinstall, hrow, hentries, halive'⟩ :=
    @Run.installEach_of_alive exec machine halive objects
  have hlength := length_rowGuards machine.thread.stack.entries.toList.length row
  refine ⟨_, installed, row, hinstall, by rw [hlength, ← hrow, List.length_map], hrow,
    fun hharmless unwinding ↦ ?_⟩
  have hrowHarmless : ∀ standing ∈ row,
      Run.HarmlessAt exec (installed.unwindingBy unwinding) standing.override := by
    intro standing hstanding
    have hobject := hharmless standing.override (hrow ▸ List.mem_map_of_mem hstanding)
    exact hobject.unwindingBy unwinding
  have hheight : objects.length = row.length := by rw [← hrow, List.length_map]
  have hplaced : (installed.unwindingBy unwinding).thread.stack.entries.toList =
      machine.thread.stack.entries.toList ++ row.take row.length := by
    rw [List.take_length]
    exact hentries
  have heach := @Run.releaseEach_row exec (installed.unwindingBy unwinding)
    machine.thread.stack.entries.toList row row.length halive' le_rfl hplaced hrowHarmless
  refine ⟨fun released index ↦ ?_, fun order horder ↦ ?_⟩
  · obtain ⟨before, hreleased, hbeforeEntries, hbefore⟩ := heach released
    have hindex : index.val < row.length := hlength ▸ index.isLt
    have hplace : row[index.val]? = some row[index.val] := List.getElem?_eq_getElem hindex
    have hguards : (rowGuards machine.thread.stack.entries.toList.length row)[index.val]? = _ :=
      getElem?_rowGuards hplace
    have hguard := (List.getElem?_eq_some_iff.mp hguards).2
    obtain ⟨after, hrelease, hafterEntries, -⟩ :=
      Run.intercept_release_row (hbefore.tornDown.trans halive') (leftOf_le _ _) hbeforeEntries
        hplace fun standing hstanding ↦ (hrowHarmless standing hstanding).asBefore hbefore
    rw [hheight]
    refine ⟨_, before, after, hreleased, hbeforeEntries, ?_, hafterEntries⟩
    rw [List.get_eq_getElem, hguard]
    rw [hbefore.unwinding] at hrelease
    exact hrelease
  · obtain ⟨after, hreleased, hafterEntries, -⟩ := heach order
    have hindices : (List.finRange _).map Fin.val = List.range row.length :=
      List.map_coe_finRange_eq_range.trans (congrArg List.range hlength)
    have hrange : (order.map Fin.val).Perm (List.range row.length) :=
      hindices ▸ horder.map Fin.val
    rw [leftOf_of_perm hrange, List.take_zero, List.append_nil] at hafterEntries
    refine ⟨_, after, hreleased, Array.toList_inj.mp hafterEntries, ?_⟩
    by_cases hcalm : unwinding = 0
    · subst hcalm
      have hreverse : order.map Fin.val = (List.range row.length).reverse ↔
          order = (List.finRange _).reverse := by
        rw [← hindices, ← List.map_reverse]
        exact (List.map_injective_iff.mpr Fin.val_injective).eq_iff
      refine (Run.releaseOutcomes_eq_ok_iff hrange).trans (hreverse.trans ?_)
      simp
    · exact ⟨fun _ ↦ .inl hcalm, fun _ ↦ Run.eq_ok_of_mem_releaseOutcomes hcalm⟩

/-- Two overrides, of which the upper one shows the stack when it is destroyed, are installed on an
empty stack. Releasing the lower guard first is reported, and the stack is empty again. -/
theorem releases_from_below :
    let upper : Script := { name := "upper", destructor := some { ops := [.inspectStack] } }
    let machine : Machine :=
      { thread :=
        { objects := #[{ override := .transparent, owners := 1 },
            { override := .script upper, owners := 1 }] } }
    let guards : List Guard := [{ depth := 0, generation := 0 }, { depth := 1, generation := 1 }]
    let stack : Stack ObjectId :=
      { entries := #[{ generation := 0, override := 0 }, { generation := 1, override := 1 }]
        nextGeneration := 2 }
    let installed : Machine := { thread := { machine.thread with stack } }
    let exec := Interpreter.run 2
    machine.thread.tornDown = false ∧
      Run.installEach exec [0, 1] machine = .ok guards installed ∧
      (∀ object ∈ [0, 1], Run.HarmlessAt exec installed object) ∧
      ∃ outcomes after, Run.releaseEach exec guards installed = .ok outcomes after ∧
        after.thread.stack.entries = #[] ∧ ∃ outcome ∈ outcomes, outcome ≠ .ok () := by
  intro upper machine guards stack installed exec
  have hinstall : Run.installEach exec [0, 1] machine = .ok guards installed := rfl
  have hharmless : ∀ object ∈ [0, 1], Run.HarmlessAt exec installed object := by
    intro object hobject
    rcases List.mem_pair.mp hobject with rfl | rfl
    · exact ⟨.transparent, rfl, fun _ later _ ↦ ⟨later, rfl, rfl, .refl later⟩⟩
    · refine ⟨.script upper, rfl, fun _ later _ ↦ ⟨_, rfl, rfl, ?_⟩⟩
      exact ⟨rfl, rfl, id, List.prefix_rfl⟩
  refine ⟨rfl, hinstall, hharmless, ?_⟩
  obtain ⟨given, placed, row, hplaced, hlength, hrow, hreleases⟩ :=
    @releases_in_any_order exec machine [0, 1] rfl
  obtain ⟨rfl, rfl⟩ : guards = given ∧ installed = placed :=
    EStateM.Result.ok.inj (hinstall.symm.trans hplaced)
  obtain ⟨outcomes, after, hreleased, hentries, hquiet⟩ :=
    (hreleases hharmless 0).2 (List.finRange 2) (.refl _)
  refine ⟨outcomes, after, hreleased, hentries, ?_⟩
  by_contra hsilent
  push Not at hsilent
  rcases hquiet.mp hsilent with hbusy | horder
  · exact hbusy rfl
  · exact absurd horder (by decide)

end Escalation
