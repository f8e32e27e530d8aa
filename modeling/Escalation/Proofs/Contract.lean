import Mathlib
import Escalation.Machine.Delivery

/-!
# Contracts of parts of a run

A part of a run returns, raises or breaks off. A contract (`Contract`) says in which machines the
part may start, and how the machine that it leaves is related to the one it started in, whether it
returns or raises (`Run.Keeps`). Where a run is aborted or its depth of nesting is used up, nothing
is promised; where it is stopped by whoever watches it, a fact is promised that the contract leaves
open.

A contract is composable (`Contract.Composable`) if parts that keep it one after another keep it
together. Then everything that is built from parts that keep it keeps it, too: sequences
(`Run.Keeps.bind`), catches (`Run.Keeps.catching`), and parts with a cleanup
(`Run.Keeps.andFinally`).

Most parts have nothing to do with overrides. They leave the stack, the open lists, the names of
shared overrides and what each override does as they are (`Machine.SameOverrides`), and a composable
contract asks no more of them (`Run.Keeps.of_aside`).
-/

set_option autoImplicit false
set_option relaxedAutoImplicit false

namespace Escalation

/-- The thread is the same as far as overrides are concerned, their numbers of owners apart. -/
structure Machine.SameOverrides (machine after : Machine) : Prop where
  stack : after.thread.stack = machine.thread.stack
  tornDown : after.thread.tornDown = machine.thread.tornDown
  frames : after.thread.frames = machine.thread.frames
  shared : after.thread.shared = machine.thread.shared
  overrides : after.thread.objects.map Object.override =
    machine.thread.objects.map Object.override

namespace Machine.SameOverrides

variable {machine after last : Machine}

theorem refl (machine : Machine) : machine.SameOverrides machine := ⟨rfl, rfl, rfl, rfl, rfl⟩

theorem trans (h : machine.SameOverrides after) (hlast : after.SameOverrides last) :
    machine.SameOverrides last :=
  ⟨hlast.stack.trans h.stack, hlast.tornDown.trans h.tornDown, hlast.frames.trans h.frames,
    hlast.shared.trans h.shared, hlast.overrides.trans h.overrides⟩

/-- A machine with the same thread is the same as far as overrides are concerned. -/
theorem of_thread_eq (h : after.thread = machine.thread) : machine.SameOverrides after := by
  constructor <;> rw [h]

end Machine.SameOverrides

/-- What an override object does. -/
def Machine.overrideOf? (machine : Machine) (object : ObjectId) : Option Override :=
  (machine.thread.objects[object]?).map Object.override

theorem Machine.SameOverrides.overrideOf_eq {machine after : Machine}
    (h : machine.SameOverrides after) (object : ObjectId) :
    after.overrideOf? object = machine.overrideOf? object := by
  unfold Machine.overrideOf?
  rw [← Array.getElem?_map, ← Array.getElem?_map, h.overrides]

/-- In which machines a part of a run may start, and how the machine that it leaves is related to
that one. -/
structure Contract where
  /-- The part may start here. -/
  before : Machine → Prop
  /-- The part leaves this machine when it is started in that one. -/
  change : Machine → Machine → Prop

namespace Contract

/-- Parts that keep the contract one after another keep it together, and a part that has nothing to
do with overrides keeps it. -/
class Composable (contract : Contract) : Prop where
  change_of_sameOverrides {machine after : Machine} : contract.before machine →
    machine.SameOverrides after → contract.change machine after
  before_of_change {machine after : Machine} : contract.before machine →
    contract.change machine after → contract.before after
  trans {machine after last : Machine} : contract.before machine → contract.change machine after →
    contract.change after last → contract.change machine last

/-- The end of a part is as the contract says. -/
def Permits (contract : Contract) (stop : Prop) (machine : Machine) {α : Type} :
    EStateM.Result Interrupt Machine α → Prop
  | .ok _ after => contract.change machine after
  | .error (.raised _) after => contract.change machine after
  | .error .stopped _ => stop
  | .error .aborted _ | .error .exhausted _ => True

namespace Permits

variable {contract : Contract} {stop : Prop} {start origin machine after : Machine} {α β : Type}

/-- An end that a contract permits is permitted by one that relates more, possibly from another
start. -/
theorem mono {other : Contract} {fact : Prop} {result : EStateM.Result Interrupt Machine α}
    (h : contract.Permits stop machine result)
    (hchange : ∀ {after}, contract.change machine after → other.change start after)
    (hfact : stop → fact) : other.Permits fact start result := by
  cases result with
  | ok value after => exact hchange h
  | error interrupt after =>
    cases interrupt with
    | raised payload => exact hchange h
    | stopped => exact hfact h
    | aborted => trivial
    | exhausted => trivial

/-- What breaks a part off breaks off what it is a part of. -/
theorem error {interrupt : Interrupt}
    (h : contract.Permits stop machine (.error interrupt after : EStateM.Result _ _ α)) :
    contract.Permits stop machine (.error interrupt after : EStateM.Result _ _ β) := by
  cases interrupt <;> exact h

/-- An end that is permitted behind a permitted change is permitted from its start on. -/
theorem of_change [contract.Composable] {result : EStateM.Result Interrupt Machine α}
    (h : contract.Permits stop after result) (hbefore : contract.before machine)
    (hchange : contract.change machine after) : contract.Permits stop machine result :=
  h.mono (fun hlast ↦ Composable.trans hbefore hchange hlast) id

/-- A part and what follows it, each with a contract of its own. -/
theorem bind {first : Contract} {part : Run α} {next : α → Run β}
    (hpart : first.Permits stop origin (part machine))
    (herror : ∀ {after}, first.change origin after → contract.change start after)
    (hnext : ∀ {value after}, part machine = .ok value after → first.change origin after →
      contract.Permits stop start (next value after)) :
    contract.Permits stop start ((part >>= next) machine) := by
  change contract.Permits stop start (EStateM.bind part next machine)
  unfold EStateM.bind
  cases hend : part machine with
  | ok value after =>
    rw [hend] at hpart
    exact hnext hend hpart
  | error interrupt after =>
    rw [hend] at hpart
    exact (hpart.mono herror id).error

/-- A part and its cleanup, each with a contract of its own. -/
theorem andFinally {first : Contract} {body : Run α} {cleanup : Run Unit}
    (hbody : first.Permits stop origin (body machine))
    (hcleanup : ∀ {after}, first.change origin after →
      contract.Permits stop start (cleanup after)) :
    contract.Permits stop start (Run.andFinally body cleanup machine) := by
  unfold Run.andFinally
  split
  case h_1 value after hend =>
    rw [hend] at hbody
    have hafter := hcleanup hbody
    split
    case h_1 last hlast =>
      rw [hlast] at hafter
      exact hafter
    case h_2 interrupt last hlast =>
      rw [hlast] at hafter
      exact hafter.error
  case h_2 payload after hend =>
    rw [hend] at hbody
    have hafter := hcleanup hbody
    split
    case h_1 last hlast =>
      rw [hlast] at hafter
      exact hafter
    case h_2 second last hlast => trivial
    case h_3 interrupt last _ hlast =>
      rw [hlast] at hafter
      exact hafter.error
  case h_3 interrupt after hraised hend =>
    rw [hend] at hbody
    cases interrupt with
    | raised payload => exact absurd rfl (hraised payload)
    | aborted => trivial
    | exhausted => trivial
    | stopped => exact hbody

end Permits

/-- The contract of the parts that have nothing to do with overrides. -/
def aside : Contract := { before := fun _ ↦ True, change := Machine.SameOverrides }

instance : aside.Composable where
  change_of_sameOverrides _ h := h
  before_of_change _ _ := trivial
  trans _ h hlast := h.trans hlast

/-- The contract that says nothing. A part keeps it if it cannot be stopped. -/
def anything : Contract := { before := fun _ ↦ True, change := fun _ _ ↦ True }

instance : anything.Composable where
  change_of_sameOverrides _ _ := trivial
  before_of_change _ _ := trivial
  trans _ _ _ := trivial

end Contract

namespace Run

/-- A part that returns hands its value to what follows. -/
theorem bind_of_ok {machine after : Machine} {α β : Type} {part : Run α} {next : α → Run β}
    {value : α} (h : part machine = .ok value after) :
    (part >>= next) machine = next value after := by
  change EStateM.bind part next machine = _
  unfold EStateM.bind
  rw [h]

/-- A part that breaks off breaks off what it is a part of. -/
theorem bind_of_error {machine after : Machine} {α β : Type} {part : Run α} {next : α → Run β}
    {interrupt : Interrupt} (h : part machine = .error interrupt after) :
    (part >>= next) machine = .error interrupt after := by
  change EStateM.bind part next machine = _
  unfold EStateM.bind
  rw [h]

/-- A body that breaks off without raising is followed by no cleanup. -/
theorem andFinally_of_break {machine after : Machine} {α : Type} {body : Run α} {cleanup : Run Unit}
    {interrupt : Interrupt} (hbreak : ∀ payload, interrupt ≠ .raised payload)
    (h : body machine = .error interrupt after) :
    andFinally body cleanup machine = .error interrupt after := by
  unfold andFinally
  rw [h]
  cases interrupt with
  | raised payload => exact absurd rfl (hbreak payload)
  | aborted => rfl
  | exhausted => rfl
  | stopped => rfl

/-- A cleanup that does nothing can be put in front of another one. -/
theorem andFinally_pure (cleanup : Run Unit) : andFinally (pure ()) cleanup = cleanup := by
  funext machine
  have hbody : (pure () : Run Unit) machine = .ok () machine := rfl
  unfold andFinally
  rw [hbody]
  dsimp only
  rcases cleanup machine with ⟨_, after⟩ | ⟨interrupt, after⟩
  · rfl
  · rfl

/-- A part returns or raises, and leaves this machine. -/
def Ends {α : Type} (part : Run α) (machine after : Machine) : Prop :=
  (∃ value, part machine = .ok value after) ∨
    ∃ payload, part machine = .error (.raised payload) after

/-- A part ends in one way. -/
theorem Ends.unique {machine after other : Machine} {α : Type} {part : Run α}
    (h : Ends part machine after) (hother : Ends part machine other) : after = other := by
  rcases h with ⟨_, hend⟩ | ⟨_, hend⟩ <;> rcases hother with ⟨_, hlast⟩ | ⟨_, hlast⟩
  all_goals rw [hend] at hlast
  · exact (EStateM.Result.ok.inj hlast).2
  · cases hlast
  · cases hlast
  · exact (EStateM.Result.error.inj hlast).2

/-- A part that returns or raises leaves a machine that its contract permits. -/
theorem Ends.change {contract : Contract} {stop : Prop} {start machine after : Machine} {α : Type}
    {part : Run α} (h : Ends part machine after)
    (hpart : contract.Permits stop start (part machine)) : contract.change start after := by
  rcases h with ⟨value, hend⟩ | ⟨payload, hend⟩
  · rw [hend] at hpart
    exact hpart
  · rw [hend] at hpart
    exact hpart

/-- A part keeps a contract; if it is stopped, the fact holds. -/
def Keeps (contract : Contract) (stop : Prop) {α : Type} (part : Run α) : Prop :=
  ∀ machine, contract.before machine → contract.Permits stop machine (part machine)

/-- A part has nothing to do with overrides, and nothing in it can be stopped. -/
abbrev Aside {α : Type} (part : Run α) : Prop := Keeps .aside False part

namespace Keeps

variable {contract : Contract} {stop : Prop} {α β : Type}

/-- A part that is kept apart from overrides keeps every composable contract. -/
theorem of_aside [contract.Composable] {part : Run α} (h : Aside part) :
    Keeps contract stop part := fun machine hbefore ↦
  (h machine trivial).mono (Contract.Composable.change_of_sameOverrides hbefore) False.elim

/-- A part that keeps a contract keeps one that may be started in fewer machines and relates
more. -/
theorem mono {other : Contract} {part : Run α} (h : Keeps contract stop part)
    (hbefore : ∀ {machine}, other.before machine → contract.before machine)
    (hchange : ∀ {machine after}, other.before machine → contract.change machine after →
      other.change machine after) : Keeps other stop part := fun machine hmachine ↦
  (h machine (hbefore hmachine)).mono (hchange hmachine) id

/-- A value that comes of the value of a part changes nothing else. -/
theorem map {part : Run α} (change : α → β) (hpart : Keeps contract stop part) :
    Keeps contract stop (change <$> part) := by
  intro machine hbefore
  have hmachine := hpart machine hbefore
  change contract.Permits stop machine (EStateM.map change part machine)
  unfold EStateM.map
  cases hend : part machine with
  | ok value after =>
    rw [hend] at hmachine
    exact hmachine
  | error interrupt after =>
    rw [hend] at hmachine
    exact hmachine.error

section Composable

variable [contract.Composable]

theorem pure (value : α) : Keeps contract stop (Pure.pure value : Run α) := fun machine hbefore ↦
  Contract.Composable.change_of_sameOverrides hbefore (.refl machine)

/-- Two parts one after the other, where what the second one has to keep may depend on how the first
one ended. -/
theorem bind_of_ok {part : Run α} {next : α → Run β} (hpart : Keeps contract stop part)
    (hnext : ∀ {machine value after}, contract.before machine → part machine = .ok value after →
      contract.change machine after → contract.Permits stop after (next value after)) :
    Keeps contract stop (part >>= next) := fun machine hbefore ↦
  (hpart machine hbefore).bind id fun hend hchange ↦
    (hnext hbefore hend hchange).of_change hbefore hchange

theorem bind {part : Run α} {next : α → Run β} (hpart : Keeps contract stop part)
    (hnext : ∀ value, Keeps contract stop (next value)) :
    Keeps contract stop (part >>= next) := by
  refine bind_of_ok hpart fun {machine value after} hbefore _ hchange ↦ ?_
  exact hnext value after (Contract.Composable.before_of_change hbefore hchange)

/-- A list of parts, one after another. -/
theorem forM {γ : Type} {items : List γ} {part : γ → Run Unit}
    (h : ∀ item ∈ items, Keeps contract stop (part item)) :
    Keeps contract stop (items.forM part) := by
  induction items with
  | nil => exact .pure _
  | cons item rest ih =>
    rw [List.forM_eq_forM, List.forM_cons]
    exact (h item (by simp)).bind fun _ ↦ ih fun other hother ↦ h other (by simp [hother])

/-- Raises that are handed over count no longer, which overrides do not notice. -/
theorem intercept {body : Run α} (hbody : Keeps contract stop body) :
    Keeps contract stop (Run.intercept body) := by
  intro machine hbefore
  have hmachine := hbody machine hbefore
  unfold Run.intercept
  split
  case h_1 value after hend =>
    rw [hend] at hmachine
    exact hmachine
  case h_2 payload after hend =>
    rw [hend] at hmachine
    exact Contract.Composable.trans hbefore hmachine
      (Contract.Composable.change_of_sameOverrides
        (Contract.Composable.before_of_change hbefore hmachine) ⟨rfl, rfl, rfl, rfl, rfl⟩)
  case h_3 interrupt after _ hend =>
    rw [hend] at hmachine
    exact hmachine.error

/-- A part and its cleanup. -/
theorem andFinally {body : Run α} {cleanup : Run Unit} (hbody : Keeps contract stop body)
    (hcleanup : Keeps contract stop cleanup) :
    Keeps contract stop (Run.andFinally body cleanup) :=
  fun machine hbefore ↦ (hbody machine hbefore).andFinally fun hchange ↦
    (hcleanup _ (Contract.Composable.before_of_change hbefore hchange)).of_change hbefore hchange

end Composable

end Keeps

end Run

end Escalation
