import Escalation.Proofs.Dispatch
import Escalation.Proofs.Finishing
import Escalation.Proofs.Removal

/-!
# Owners of override objects

An override object is used by every place in which it is on the stack, by every name it is shared
under, and by whoever has it in hand: a handler of it that is running, or a release that has yet to
let go of it (`Machine.uses`). The books of a machine are in order, with some objects in hand, if
every object has as many owners as uses (`Machine.Accounts`). Then what is in use is alive, and what
is not has been destroyed (`Machine.Accounts.alive`, `Machine.Accounts.destroyed`).

Every step that has to do with owners moves uses from one side to another: a new object is in hand,
acquiring one takes it in hand, installing and sharing put it down, and cutting the stack or giving
up a name takes it up again. A step never brings a destroyed object back (`Machine.Ages`).
-/

set_option autoImplicit false
set_option relaxedAutoImplicit false

namespace Escalation

/-! ### Names in their order -/

namespace Table

variable {α : Type} {name : String} {value : α}

/-- The names are in their order, each of them once. -/
def Sorted (table : Table α) : Prop :=
  table.entries.Pairwise fun first second ↦ first.1 < second.1

theorem lookup_eq_none_of_lt {entries : List (String × α)}
    (h : ∀ entry ∈ entries, name < entry.1) : entries.lookup name = none := by
  rw [List.lookup_eq_none_iff]
  intro entry hentry
  simpa using (h entry hentry).ne

/-- A name that comes before all others is not among them. -/
theorem lt_of_pairwise_cons {first entry : String × α} {rest : List (String × α)}
    (h : (first :: rest).Pairwise fun entry other ↦ entry.1 < other.1) (hname : name < first.1)
    (hentry : entry ∈ first :: rest) : name < entry.1 := by
  rcases List.mem_cons.mp hentry with rfl | hrest
  · exact hname
  · exact hname.trans (List.rel_of_pairwise_cons h hrest)

theorem sorted_insertEntry {entries : List (String × α)}
    (h : entries.Pairwise fun first second ↦ first.1 < second.1) :
    (insertEntry name value entries).Pairwise fun first second ↦ first.1 < second.1 := by
  induction entries with
  | nil => exact List.pairwise_singleton _ _
  | cons first rest ih =>
    obtain ⟨hfirst, hrest⟩ := List.pairwise_cons.mp h
    unfold insertEntry
    by_cases hbefore : name < first.1
    · rw [if_pos hbefore]
      exact List.pairwise_cons.mpr ⟨fun entry hentry ↦ lt_of_pairwise_cons h hbefore hentry, h⟩
    · rw [if_neg hbefore]
      by_cases hsame : name = first.1
      · rw [if_pos hsame]
        exact List.pairwise_cons.mpr ⟨fun entry hentry ↦ hsame ▸ hfirst entry hentry, hrest⟩
      · rw [if_neg hsame]
        refine List.pairwise_cons.mpr ⟨fun entry hentry ↦ ?_, ih hrest⟩
        rcases mem_of_mem_insertEntry hentry with rfl | hold
        · exact lt_of_le_of_ne (not_lt.mp hbefore) (Ne.symm hsame)
        · exact hfirst entry hold

variable {table : Table α}

theorem Sorted.insert (h : table.Sorted) (name : String) (value : α) :
    (table.insert name value).Sorted := sorted_insertEntry h

theorem Sorted.erase (h : table.Sorted) (name : String) : (table.erase name).Sorted :=
  h.sublist List.filter_sublist

variable [DecidableEq α]

/-- A value under a name takes the place of the value before. -/
theorem count_values_insert (h : table.Sorted) (name : String) (value other : α) :
    (table.insert name value).values.count other + (table.find? name).toList.count other =
      table.values.count other + [value].count other := by
  obtain ⟨entries⟩ := table
  unfold Sorted at h
  unfold insert find? values
  dsimp only at h ⊢
  induction entries with
  | nil => simp [insertEntry]
  | cons first rest ih =>
    obtain ⟨hfirst, hrest⟩ := List.pairwise_cons.mp h
    unfold insertEntry
    by_cases hbefore : name < first.1
    · have hnone : (first :: rest).lookup name = none :=
        lookup_eq_none_of_lt fun entry hentry ↦ lt_of_pairwise_cons h hbefore hentry
      rw [if_pos hbefore, hnone, List.map_cons, List.count_cons, List.count_singleton]
      simp
    · rw [if_neg hbefore]
      by_cases hsame : name = first.1
      · rw [if_pos hsame, List.lookup_cons, hsame]
        simp only [beq_self_eq_true, Option.toList_some, List.map_cons, List.count_cons,
          List.count_nil]
        omega
      · have hne : (name == first.1) = false := by simpa using hsame
        have hbehind := ih hrest
        rw [if_neg hsame, List.lookup_cons, hne]
        simp only [List.map_cons, List.count_cons] at hbehind ⊢
        omega

/-- Only the value under a name goes with the name. -/
theorem count_values_erase (h : table.Sorted) (name : String) (other : α) :
    (table.erase name).values.count other + (table.find? name).toList.count other =
      table.values.count other := by
  obtain ⟨entries⟩ := table
  unfold Sorted at h
  unfold erase find? values
  dsimp only at h ⊢
  induction entries with
  | nil => rfl
  | cons first rest ih =>
    obtain ⟨hfirst, hrest⟩ := List.pairwise_cons.mp h
    have hbehind := ih hrest
    by_cases hsame : name = first.1
    · subst hsame
      have hnone : rest.lookup first.1 = none := lookup_eq_none_of_lt hfirst
      rw [hnone] at hbehind
      rw [List.filter_cons, List.lookup_cons]
      simp only [bne_self_eq_false, beq_self_eq_true, Option.toList_some, Option.toList_none,
        List.map_cons, List.count_cons, List.count_nil, Bool.false_eq_true, if_false] at hbehind ⊢
      omega
    · have hne : (name == first.1) = false := by simpa using hsame
      have hkeep : (first.1 != name) = true := by simpa using Ne.symm hsame
      rw [List.filter_cons, if_pos hkeep, List.lookup_cons, hne]
      simp only [List.map_cons, List.count_cons] at hbehind ⊢
      omega

end Table

/-! ### Owners and uses -/

namespace Machine

/-- The number of owners of an object; none if there is no such object. -/
def owners (machine : Machine) (object : ObjectId) : ℕ :=
  ((machine.thread.objects[object]?).map Object.owners).getD 0

/-- An object has been destroyed: it was made, and has no owners any more. -/
def Destroyed (machine : Machine) (object : ObjectId) : Prop :=
  object < machine.thread.objects.size ∧ machine.owners object = 0

/-- The overrides in place, outermost first. -/
def placed (machine : Machine) : List ObjectId :=
  machine.thread.stack.entries.toList.map Installed.override

/-- The overrides that are shared, in the order of their names. -/
def named (machine : Machine) : List ObjectId := machine.thread.shared.values

/-- The number of uses of an object: on the stack, under names, and in hand. -/
def uses (machine : Machine) (held : List ObjectId) (object : ObjectId) : ℕ :=
  machine.placed.count object + machine.named.count object + held.count object

/-- The books are in order, with some objects in hand: every object has as many owners as uses. -/
structure Accounts (machine : Machine) (held : List ObjectId) : Prop where
  sorted : machine.thread.shared.Sorted
  owners_eq : ∀ object, machine.owners object = machine.uses held object

/-- No override was made on the thread yet. -/
structure Unused (machine : Machine) : Prop where
  objects : machine.thread.objects = #[]
  entries : machine.thread.stack.entries = #[]
  shared : machine.thread.shared = {}

/-- What is in hand is in use once more. -/
theorem uses_cons (machine : Machine) (held : List ObjectId) (object other : ObjectId) :
    machine.uses (object :: held) other = machine.uses held other + [object].count other := by
  unfold uses
  rw [List.count_cons, List.count_singleton, ← Nat.add_assoc]

/-- Later on, no object has gone, and what was destroyed still is. -/
structure Ages (machine after : Machine) : Prop where
  size_le : machine.thread.objects.size ≤ after.thread.objects.size
  destroyed : ∀ object, machine.Destroyed object → after.Destroyed object

section Accounts

variable {machine after last : Machine} {held left : List ObjectId} {object : ObjectId}

theorem Ages.refl (machine : Machine) : machine.Ages machine := ⟨le_rfl, fun _ h ↦ h⟩

theorem Ages.trans (h : machine.Ages after) (hlast : after.Ages last) : machine.Ages last :=
  ⟨h.size_le.trans hlast.size_le,
    fun object hobject ↦ hlast.destroyed object (h.destroyed object hobject)⟩

theorem owners_pos_iff : 0 < machine.owners object ↔
    ∃ alive, machine.thread.objects[object]? = some alive ∧ 0 < alive.owners := by
  unfold owners
  rcases machine.thread.objects[object]? with _ | alive <;> simp

/-- An override that a link leads to is in place. -/
theorem mem_placed_of_resolve {link next : Link}
    (h : machine.thread.stack.resolve link = some (object, next)) : object ∈ machine.placed := by
  cases link with
  | root => cases h
  | override depth =>
    obtain ⟨installed, hinstalled, hfound⟩ := Option.map_eq_some_iff.mp h
    obtain rfl : installed.override = object := congrArg Prod.fst hfound
    exact List.mem_map_of_mem (Array.mem_toList_iff.mpr (Array.mem_of_getElem? hinstalled))

/-- What is in place, under a name or in hand is alive. -/
theorem Accounts.alive (h : machine.Accounts held)
    (huse : object ∈ machine.placed ∨ object ∈ machine.named ∨ object ∈ held) :
    0 < machine.owners object := by
  rw [h.owners_eq]
  unfold uses
  rcases huse with huse | huse | huse <;>
    · have hpos := List.count_pos_iff.mpr huse
      omega

/-- What is neither in place nor under a name nor in hand has been destroyed. -/
theorem Accounts.destroyed (h : machine.Accounts held)
    (hobject : object < machine.thread.objects.size) (hplaced : object ∉ machine.placed)
    (hnamed : object ∉ machine.named) (hheld : object ∉ held) : machine.Destroyed object := by
  refine ⟨hobject, ?_⟩
  rw [h.owners_eq]
  unfold uses
  rw [List.count_eq_zero_of_not_mem hplaced, List.count_eq_zero_of_not_mem hnamed,
    List.count_eq_zero_of_not_mem hheld]

/-- On a thread on which no override was made yet, the books are in order. -/
theorem Unused.accounts (h : machine.Unused) : machine.Accounts [] := by
  refine ⟨by rw [h.shared]; exact .nil, fun object ↦ ?_⟩
  simp [owners, uses, placed, named, Table.values, h.objects, h.entries, h.shared]

/-! ### Steps that have to do with owners -/

/-- The stack, the objects and the names are the same. -/
structure SameBooks (machine after : Machine) : Prop where
  entries : after.thread.stack.entries = machine.thread.stack.entries
  objects : after.thread.objects = machine.thread.objects
  shared : after.thread.shared = machine.thread.shared

theorem SameBooks.of_thread_eq (h : after.thread = machine.thread) : machine.SameBooks after := by
  constructor <;> rw [h]

theorem SameBooks.ages (h : machine.SameBooks after) : machine.Ages after := by
  refine ⟨h.objects ▸ le_rfl, fun object hobject ↦ ?_⟩
  unfold Destroyed owners at hobject ⊢
  rwa [h.objects]

theorem SameBooks.accounts (h : machine.SameBooks after) (hmachine : machine.Accounts held) :
    after.Accounts held := by
  refine ⟨h.shared ▸ hmachine.sorted, fun object ↦ ?_⟩
  have howners := hmachine.owners_eq object
  unfold owners uses placed named at howners ⊢
  rwa [h.objects, h.entries, h.shared]

/-- Uses are moved, and no owner comes or goes. -/
theorem Accounts.move (hmachine : machine.Accounts held)
    (hobjects : after.thread.objects = machine.thread.objects)
    (hsorted : after.thread.shared.Sorted)
    (huses : ∀ object, after.uses left object = machine.uses held object) :
    after.Accounts left ∧ machine.Ages after := by
  have howners (object : ObjectId) : after.owners object = machine.owners object := by
    unfold owners
    rw [hobjects]
  refine ⟨⟨hsorted, fun object ↦ ?_⟩, hobjects ▸ le_rfl, fun object hobject ↦ ?_⟩
  · rw [howners, hmachine.owners_eq, huses]
  · unfold Destroyed at hobject ⊢
    rwa [howners, hobjects]

/-- A new object is in hand. -/
theorem Accounts.newObject (hmachine : machine.Accounts held) {override : Override}
    (hafter : after = { machine with thread := { machine.thread with
      objects := machine.thread.objects.push { override, owners := 1 } } }) :
    after.Accounts (machine.thread.objects.size :: held) ∧ machine.Ages after := by
  have hold (object : ObjectId) (h : object < machine.thread.objects.size) :
      after.owners object = machine.owners object := by
    unfold owners
    rw [hafter, Array.getElem?_push_lt h, ← Array.getElem?_eq_getElem h]
  have hnew : after.owners machine.thread.objects.size = 1 := by
    unfold owners
    rw [hafter, Array.getElem?_push_size]
    rfl
  have hbeyond (object : ObjectId) (h : machine.thread.objects.size ≤ object) :
      machine.owners object = 0 := by
    unfold owners
    rw [Array.getElem?_eq_none h]
    rfl
  have huses (object : ObjectId) : after.uses (machine.thread.objects.size :: held) object =
      machine.uses held object + [machine.thread.objects.size].count object := by
    rw [uses_cons, hafter]
    rfl
  refine ⟨⟨by rw [hafter]; exact hmachine.sorted, fun object ↦ ?_⟩, ?_, fun object hobject ↦ ?_⟩
  · rw [huses, ← hmachine.owners_eq]
    rcases lt_trichotomy object machine.thread.objects.size with hlt | rfl | hgt
    · rw [hold object hlt, List.count_eq_zero_of_not_mem (by simpa using hlt.ne)]
      rfl
    · rw [hnew, hbeyond _ le_rfl]
      simp
    · have hnone : after.owners object = 0 := by
        unfold owners
        rw [hafter, Array.getElem?_eq_none (by simpa using hgt)]
        rfl
      rw [hnone, hbeyond _ hgt.le, List.count_eq_zero_of_not_mem (by simpa using hgt.ne')]
  · rw [hafter]
    simp
  · refine ⟨?_, (hold object hobject.1).trans hobject.2⟩
    rw [hafter]
    simpa using hobject.1.trans (Nat.lt_succ_self _)

/-- The number of owners of one object changes. -/
theorem owners_of_set {alive : Object} {count : ℕ}
    (halive : machine.thread.objects[object]? = some alive)
    (hobjects : after.thread.objects =
      machine.thread.objects.setIfInBounds object { alive with owners := count }) :
    after.owners object = count ∧ ∀ other ≠ object, after.owners other = machine.owners other := by
  have hlt : object < machine.thread.objects.size := (Array.getElem?_eq_some_iff.mp halive).1
  constructor
  · unfold owners
    rw [hobjects, Array.getElem?_setIfInBounds_self_of_lt hlt]
    rfl
  · intro other hother
    unfold owners
    rw [hobjects, Array.getElem?_setIfInBounds, if_neg hother.symm]

/-- As long as an object is alive, its owners may come and go. -/
theorem ages_of_set {alive : Object} {count : ℕ}
    (halive : machine.thread.objects[object]? = some alive) (hpos : 0 < machine.owners object)
    (hobjects : after.thread.objects =
      machine.thread.objects.setIfInBounds object { alive with owners := count }) :
    machine.Ages after := by
  have hsize : after.thread.objects.size = machine.thread.objects.size := by
    rw [hobjects, Array.size_setIfInBounds]
  refine ⟨hsize.ge, fun other hother ↦ ⟨hother.1.trans_eq hsize.symm, ?_⟩⟩
  have hne : other ≠ object := by
    rintro rfl
    exact hpos.ne' hother.2
  exact ((owners_of_set halive hobjects).2 other hne).trans hother.2

/-- An object that is alive is taken in hand. -/
theorem Accounts.acquire (hmachine : machine.Accounts held) (hpos : 0 < machine.owners object) :
    ∃ override after, Run.acquire object machine = .ok (some override) after ∧
      machine.overrideOf? object = some override ∧ after.Accounts (object :: held) ∧
        machine.Ages after := by
  obtain ⟨alive, halive, howners⟩ := owners_pos_iff.mp hpos
  let after : Machine := { machine with thread := { machine.thread with
    objects := machine.thread.objects.setIfInBounds object
      { alive with owners := alive.owners + 1 } } }
  obtain ⟨hself, hothers⟩ := @owners_of_set machine after object alive _ halive rfl
  have hcount : machine.owners object = alive.owners := by simp [owners, halive]
  have huses (other : ObjectId) :
      after.uses (object :: held) other = machine.uses held other + [object].count other :=
    after.uses_cons held object other
  refine ⟨alive.override, after, Run.acquire_eq halive, by simp [overrideOf?, halive],
    ⟨hmachine.sorted, fun other ↦ ?_⟩, ages_of_set halive hpos rfl⟩
  rw [huses, ← hmachine.owners_eq]
  by_cases hsame : other = object
  · rw [hsame, hself, hcount]
    simp
  · rw [hothers other hsame, List.count_eq_zero_of_not_mem (by simpa using hsame)]
    rfl

/-- An object in hand is let go. What it does is found out if that took its last owner away. -/
theorem Accounts.disown (hmachine : machine.Accounts (object :: held)) :
    ∃ override after, machine.overrideOf? object = some override ∧
      Run.disown object machine =
        .ok (if machine.owners object = 1 then some override else none) after ∧
      after.Accounts held ∧ machine.Ages after := by
  have hpos := hmachine.alive (.inr (.inr List.mem_cons_self))
  obtain ⟨alive, halive, howners⟩ := owners_pos_iff.mp hpos
  let after : Machine := { machine with thread := { machine.thread with
    objects := machine.thread.objects.setIfInBounds object
      { alive with owners := alive.owners - 1 } } }
  obtain ⟨hself, hothers⟩ := @owners_of_set machine after object alive _ halive rfl
  have hcount : machine.owners object = alive.owners := by simp [owners, halive]
  have huses (other : ObjectId) :
      machine.uses (object :: held) other = after.uses held other + [object].count other :=
    machine.uses_cons held object other
  have hdisown : Run.disown object machine =
      .ok (if machine.owners object = 1 then some alive.override else none) after := by
    rw [hcount]
    exact Run.disown_eq halive
  refine ⟨alive.override, after, by simp [overrideOf?, halive], hdisown,
    ⟨hmachine.sorted, fun other ↦ ?_⟩, ages_of_set halive hpos rfl⟩
  have hbooks := hmachine.owners_eq other
  rw [huses] at hbooks
  by_cases hsame : other = object
  · rw [hsame] at hbooks ⊢
    rw [hself, ← hcount, hbooks]
    simp
  · rw [hothers other hsame, hbooks, List.count_eq_zero_of_not_mem (by simpa using hsame)]
    rfl

/-! ### Putting down and taking up -/

/-- An object in hand is put on the stack. -/
theorem Accounts.install (hmachine : machine.Accounts (object :: held)) {process : Process}
    (hafter : after = { process, thread := { machine.thread with
      stack := (machine.thread.stack.install object).2 } }) :
    after.Accounts held ∧ machine.Ages after := by
  refine hmachine.move (by rw [hafter]) (by rw [hafter]; exact hmachine.sorted) fun other ↦ ?_
  have hplaced : after.placed = machine.placed ++ [object] := by
    rw [hafter]
    simp [placed]
  have hnamed : after.named = machine.named := by rw [hafter]; rfl
  unfold uses
  simp only [hplaced, hnamed, List.count_append, List.count_cons, List.count_nil]
  omega

/-- Objects are taken in hand, to be let go one after another. -/
inductive Collects (machine : Machine) : List ObjectId → Machine → Prop
  /-- Releasing a guard that owns its override cuts the stack. -/
  | release {guard : Guard} : machine.thread.tornDown = false →
    machine.thread.stack.owns guard = true →
      Collects machine (machine.objectsFrom guard.depth) (machine.cutTo guard.depth)
  /-- At the end of its program, a thread gives up all names. -/
  | names : Collects machine machine.named
    { machine with thread := { machine.thread with shared := {} } }
  /-- Last, the stack goes with the storage of the thread. -/
  | stack : Collects machine machine.placed
    { machine with thread := { machine.thread with
      stack := machine.thread.stack.clear.2, tornDown := true } }

/-- What is taken in hand was in place or under a name before. -/
theorem Accounts.collects {taken : List ObjectId} (hmachine : machine.Accounts held)
    (hcollects : machine.Collects taken after) :
    after.Accounts (taken ++ held) ∧ machine.Ages after := by
  cases hcollects with
  | @release guard halive howns =>
    refine hmachine.move rfl hmachine.sorted fun object ↦ ?_
    have hplaced : machine.placed =
        (machine.cutTo guard.depth).placed ++ machine.objectsFrom guard.depth := by
      unfold placed cutTo objectsFrom
      rw [← List.map_append]
      simp
    have hnamed : (machine.cutTo guard.depth).named = machine.named := rfl
    unfold uses
    rw [hplaced, hnamed, List.count_append, List.count_append]
    omega
  | names =>
    refine hmachine.move rfl .nil fun object ↦ ?_
    change machine.placed.count object + 0 + (machine.named ++ held).count object = _
    unfold uses
    rw [List.count_append]
    omega
  | stack =>
    refine hmachine.move rfl hmachine.sorted fun object ↦ ?_
    change 0 + machine.named.count object + (machine.placed ++ held).count object = _
    unfold uses
    rw [List.count_append]
    omega

/-- An object in hand is put under a name, and what was there is taken in hand. -/
theorem Accounts.share (hmachine : machine.Accounts (object :: held)) (name : String)
    (hafter : after = { machine with thread := { machine.thread with
      shared := machine.thread.shared.insert name object } }) :
    after.Accounts ((machine.thread.shared.find? name).toList ++ held) ∧ machine.Ages after := by
  have hsorted := hmachine.sorted.insert name object
  refine hmachine.move (by rw [hafter]) (by rw [hafter]; exact hsorted) fun other ↦ ?_
  have hplaced : after.placed = machine.placed := by rw [hafter]; rfl
  have hnamed : after.named = (machine.thread.shared.insert name object).values := by
    rw [hafter]
    rfl
  have hcount := Table.count_values_insert hmachine.sorted name object other
  unfold uses
  rw [hplaced, hnamed, List.count_append, List.count_cons]
  rw [List.count_singleton] at hcount
  unfold named
  omega

/-- What is under a name is taken in hand. -/
theorem Accounts.unshare (hmachine : machine.Accounts held) (name : String)
    (hafter : after = { machine with thread := { machine.thread with
      shared := machine.thread.shared.erase name } }) :
    after.Accounts ((machine.thread.shared.find? name).toList ++ held) ∧ machine.Ages after := by
  have hsorted := hmachine.sorted.erase name
  refine hmachine.move (by rw [hafter]) (by rw [hafter]; exact hsorted) fun other ↦ ?_
  have hplaced : after.placed = machine.placed := by rw [hafter]; rfl
  have hnamed : after.named = (machine.thread.shared.erase name).values := by
    rw [hafter]
    rfl
  have hcount := Table.count_values_erase hmachine.sorted name other
  unfold uses
  rw [hplaced, hnamed, List.count_append]
  unfold named
  omega

end Accounts

end Machine

end Escalation
