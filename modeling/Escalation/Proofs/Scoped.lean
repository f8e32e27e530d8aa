import Escalation.Proofs.Following

/-!
# Programs that release what they install

A program is scoped (`Op.Scoped`) if it holds every guard in the list that installed it: no guard is
released before its list is left, lost, or handed to the outermost list. The same is asked of the
programs of all overrides that it installs. A machine is scoped (`Machine.Scoped`) if its stack and
its shared overrides have such programs only.

The guards of an open list then lie on each other like the overrides that they were given for
(`Piled`), so closing the list takes these overrides away, one by one from the top, and what was
below them is left (`Discipline.lexical_closeFrame`). Raises do not matter to that: a list is closed
on every way out, and what destructors do on the way is scoped, too (`Discipline.lexical`).
-/

set_option autoImplicit false
set_option relaxedAutoImplicit false

namespace Escalation

/-! ### Scoped programs and machines -/

/-- An operation that leaves the guards of lists alone and keeps its own in its list. -/
def Op.isScoped : Op → Bool
  | .release _ | .forget _ | .thread .. => false
  | op => op.lends? != some true

/-- An operation is scoped with all operations inside it. -/
abbrev Op.Scoped : Op → Prop := Op.Everywhere fun op ↦ op.isScoped = true

theorem Op.isScoped_of_lends {op : Op} (h : op.isScoped = true) : op.lends? ≠ some true := by
  cases op with
  | release guard => cases h
  | forget guard => cases h
  | thread plan ops slot => cases h
  | _ => simpa [isScoped] using h

namespace Machine

variable {machine after last : Machine} {object : ObjectId} {override : Override}

/-- An override object is there, and its programs are scoped. -/
def Knows (machine : Machine) (object : ObjectId) : Prop :=
  ∃ override, machine.overrideOf? object = some override ∧ ∀ op ∈ override.ops, op.Scoped

/-- Every override that the thread can deliver to or let go of is known. -/
structure Scoped (machine : Machine) : Prop where
  alive : machine.thread.tornDown = false
  stack : ∀ installed ∈ machine.thread.stack.entries.toList, machine.Knows installed.override
  shared : ∀ object ∈ machine.thread.shared.values, machine.Knows object

/-- The overrides that are there do what they did, and the machine is scoped. -/
structure Continues (machine after : Machine) : Prop where
  isScoped : after.Scoped
  overrideOf {object : ObjectId} {override : Override} :
    machine.overrideOf? object = some override → after.overrideOf? object = some override

theorem Continues.knows (h : machine.Continues after) (hobject : machine.Knows object) :
    after.Knows object :=
  hobject.imp fun _ hoverride ↦ ⟨h.overrideOf hoverride.1, hoverride.2⟩

theorem Continues.trans (h : machine.Continues after) (hlast : after.Continues last) :
    machine.Continues last :=
  ⟨hlast.isScoped, fun hoverride ↦ hlast.overrideOf (h.overrideOf hoverride)⟩

theorem SameOverrides.knows (h : machine.SameOverrides after) (hobject : machine.Knows object) :
    after.Knows object :=
  hobject.imp fun _ hoverride ↦ ⟨h.overrideOf_eq object ▸ hoverride.1, hoverride.2⟩

/-- A machine that is the same as far as overrides are concerned is as scoped. -/
theorem SameOverrides.continues (h : machine.SameOverrides after) (hmachine : machine.Scoped) :
    machine.Continues after := by
  refine ⟨⟨h.tornDown.trans hmachine.alive, ?_, ?_⟩, fun hoverride ↦ ?_⟩
  · rw [h.stack]
    exact fun installed hinstalled ↦ h.knows (hmachine.stack installed hinstalled)
  · rw [h.shared]
    exact fun object hobject ↦ h.knows (hmachine.shared object hobject)
  · rwa [h.overrideOf_eq]

/-- A change of the frames, of the stack and of the shared overrides leaves the machine scoped as
long as it brings in what is known. -/
theorem Scoped.continues_of_objects (hmachine : machine.Scoped)
    (hobjects : after.thread.objects = machine.thread.objects)
    (halive : after.thread.tornDown = machine.thread.tornDown)
    (hstack : ∀ installed ∈ after.thread.stack.entries.toList, machine.Knows installed.override)
    (hshared : ∀ object ∈ after.thread.shared.values, machine.Knows object) :
    machine.Continues after := by
  have hsame (object : ObjectId) : after.overrideOf? object = machine.overrideOf? object := by
    unfold overrideOf?
    rw [hobjects]
  have hknows {object : ObjectId} (hobject : machine.Knows object) : after.Knows object :=
    hobject.imp fun _ hoverride ↦ ⟨hsame object ▸ hoverride.1, hoverride.2⟩
  exact ⟨⟨halive.trans hmachine.alive, fun installed h ↦ hknows (hstack installed h),
    fun object h ↦ hknows (hshared object h)⟩, fun h ↦ hsame _ ▸ h⟩

end Machine

/-! ### Guards that lie on each other -/

/-- The overrides in place are those of `base` and above them those of the guards of a frame, the
latest on top. -/
inductive Piled (base : Array (Installed ObjectId)) : Frame → Array (Installed ObjectId) → Prop
  | nil : Piled base [] base
  | cons {frame : Frame} {entries : Array (Installed ObjectId)} {installed : Installed ObjectId}
      {name : String} : Piled base frame entries →
      Piled base ({ name, guard := { depth := entries.size, generation := installed.generation } }
        :: frame) (entries.push installed)

/-- What is piled on a pile makes one pile with it. -/
theorem Piled.append {base middle top : Array (Installed ObjectId)} {lower upper : Frame}
    (hlower : Piled base lower middle) (hupper : Piled middle upper top) :
    Piled base (upper ++ lower) top := by
  induction hupper with
  | nil => exact hlower
  | cons _ ih => exact ih.cons

/-- A guard owns the top of the stack, and `base` is below it. -/
def Guard.OnTop (guard : Guard) (entries base : Array (Installed ObjectId)) : Prop :=
  ∃ installed, entries = base.push installed ∧
    guard = { depth := base.size, generation := installed.generation }

theorem Guard.OnTop.unique {guard : Guard} {entries base other : Array (Installed ObjectId)}
    (h : guard.OnTop entries base) (hother : guard.OnTop entries other) : base = other := by
  obtain ⟨installed, hentries, -⟩ := h
  obtain ⟨top, rfl, -⟩ := hother
  exact (Array.push_eq_push.mp hentries).2.symm

/-- Releasing the guard of the top removes the top alone, in order. -/
theorem Stack.release_of_top {stack : Stack ObjectId} {base : Array (Installed ObjectId)}
    {installed : Installed ObjectId} (h : stack.entries = base.push installed) :
    stack.release { depth := base.size, generation := installed.generation } =
      (.inOrder [installed.override], { stack with entries := base }) := by
  have howns : stack.owns { depth := base.size, generation := installed.generation } = true :=
    Stack.owns_eq_true_iff.mpr ⟨installed, by simp [h], rfl⟩
  have hheight : stack.height = base.size + 1 := by simp [Stack.height, h]
  unfold Stack.release
  rw [if_pos howns]
  dsimp only
  rw [if_pos hheight]
  simp [h]

/-- The latest guard of a pile owns the top, and the others are a pile below it. -/
theorem Piled.exists_onTop {base entries : Array (Installed ObjectId)} {held : Held}
    {frame : Frame} (h : Piled base (held :: frame) entries) :
    ∃ lower, held.guard.OnTop entries lower ∧ Piled base frame lower := by
  cases h with
  | cons hlower => exact ⟨_, ⟨_, rfl, rfl⟩, hlower⟩

theorem Piled.eq_of_nil {base entries : Array (Installed ObjectId)} (h : Piled base [] entries) :
    entries = base := by
  cases h
  rfl

/-! ### The contracts of scoped programs -/

namespace Contract

/-- What was installed is released again. -/
def restoring : Contract where
  before := Machine.Scoped
  change machine after := machine.Continues after ∧
    after.thread.frames = machine.thread.frames ∧
      after.thread.stack.entries = machine.thread.stack.entries

/-- What was installed is held by the innermost open list. -/
def piling : Contract where
  before machine := machine.Scoped ∧ machine.thread.frames ≠ []
  change machine after := machine.Continues after ∧ ∀ frame rest,
    machine.thread.frames = frame :: rest → ∃ more,
      after.thread.frames = (more ++ frame) :: rest ∧
        Piled machine.thread.stack.entries more after.thread.stack.entries

/-- The innermost open list is closed, and what its guards hold is released. -/
def unpiling : Contract where
  before machine := machine.Scoped ∧ ∃ frame rest base, machine.thread.frames = frame :: rest ∧
    Piled base frame machine.thread.stack.entries
  change machine after := machine.Continues after ∧ ∀ frame rest base,
    machine.thread.frames = frame :: rest → Piled base frame machine.thread.stack.entries →
      after.thread.frames = rest ∧ after.thread.stack.entries = base

/-- A guard releases the top of the stack. -/
def unstacking (guard : Guard) : Contract where
  before machine := machine.Scoped ∧
    ∃ base, guard.OnTop machine.thread.stack.entries base
  change machine after := machine.Continues after ∧
    after.thread.frames = machine.thread.frames ∧ ∀ base,
      guard.OnTop machine.thread.stack.entries base →
        after.thread.stack.entries = base

instance : restoring.Composable where
  change_of_sameOverrides hbefore hsame :=
    ⟨hsame.continues hbefore, hsame.frames, congrArg Stack.entries hsame.stack⟩
  before_of_change _ hchange := hchange.1.isScoped
  trans _ hchange hlast := ⟨hchange.1.trans hlast.1, hlast.2.1.trans hchange.2.1,
    hlast.2.2.trans hchange.2.2⟩

instance : piling.Composable where
  change_of_sameOverrides {machine after} hbefore hsame := by
    refine ⟨hsame.continues hbefore.1, fun frame rest hframes ↦ ⟨[], ?_, ?_⟩⟩
    · rw [hsame.frames, hframes]
      rfl
    · rw [hsame.stack]
      exact .nil
  before_of_change {machine after} hbefore hchange := by
    obtain ⟨frame, rest, hframes⟩ := List.exists_cons_of_ne_nil hbefore.2
    obtain ⟨more, hafter, -⟩ := hchange.2 frame rest hframes
    exact ⟨hchange.1.isScoped, hafter ▸ List.cons_ne_nil _ _⟩
  trans {machine after last} _ hchange hlast := by
    refine ⟨hchange.1.trans hlast.1, fun frame rest hframes ↦ ?_⟩
    obtain ⟨more, hafter, hpiled⟩ := hchange.2 frame rest hframes
    obtain ⟨others, hothers, hpiledOthers⟩ := hlast.2 _ rest hafter
    exact ⟨others ++ more, by rw [hothers, List.append_assoc], hpiled.append hpiledOthers⟩

end Contract

namespace Discipline

open Run

/-- The discipline of scoped programs. -/
def lexical (stop : Prop) : Discipline where
  allows := Op.Scoped
  knows := Machine.Knows
  kept := .restoring
  grown := .piling
  closing := .unpiling
  releasing := .unstacking
  stop := stop

variable {stop : Prop} {exec : Exec}

/-- What restores the stack piles nothing on it. -/
theorem piling_of_restoring {machine after : Machine}
    (h : Contract.restoring.change machine after) : Contract.piling.change machine after := by
  refine ⟨h.1, fun frame rest hframes ↦ ⟨[], ?_, ?_⟩⟩
  · rw [h.2.1, hframes]
    rfl
  · rw [h.2.2]
    exact .nil

/-- A new list piles its guards on the stack as it was, so closing it restores the stack. -/
theorem lexical_bracket {body tidy : Run Unit} (hexec : (lexical stop).Governs exec)
    (hbody : Keeps .piling stop body) (htidy : Keeps .restoring stop tidy) :
    Keeps .restoring stop (do
      openFrame
      Run.andFinally body (Run.andFinally tidy (exec .closeFrame))) := by
  intro machine hmachine
  let opened : Machine :=
    { machine with thread := { machine.thread with frames := [] :: machine.thread.frames } }
  have hopened : machine.Continues opened :=
    hmachine.continues_of_objects rfl rfl hmachine.stack hmachine.shared
  change Contract.restoring.Permits stop machine
    (Run.andFinally body (Run.andFinally tidy (exec .closeFrame)) opened)
  refine (hbody opened ⟨hopened.isScoped, List.cons_ne_nil _ _⟩).andFinally ?_
  intro after hafter
  obtain ⟨more, hframes, hpiled⟩ := hafter.2 [] machine.thread.frames rfl
  rw [List.append_nil] at hframes
  refine (htidy after hafter.1.isScoped).andFinally ?_
  intro tidied htidied
  have hclosing : Contract.unpiling.before tidied := by
    refine ⟨htidied.1.isScoped, more, machine.thread.frames, machine.thread.stack.entries, ?_, ?_⟩
    · rw [htidied.2.1, hframes]
    · rwa [htidied.2.2]
  refine (hexec .closeFrame tidied hclosing).mono ?_ id
  intro closed hclosed
  have hrestored := hclosed.2 more machine.thread.frames machine.thread.stack.entries
    (htidied.2.1.trans hframes) (htidied.2.2 ▸ hpiled)
  exact ⟨((hopened.trans hafter.1).trans htidied.1).trans hclosed.1, hrestored⟩

instance : (lexical stop).Bracketing where
  composable_kept := inferInstanceAs Contract.restoring.Composable
  composable_grown := inferInstanceAs Contract.piling.Composable
  allows_inner := by
    rintro op inner ⟨-, hinner⟩ hmem
    exact hinner inner hmem
  before_kept hbefore := hbefore.1
  change_grown _ hchange := piling_of_restoring hchange
  allows_of_knows := by
    rintro machine object held ⟨override, hoverride, hops⟩ hheld
    unfold Machine.overrideOf? at hoverride
    rw [hheld] at hoverride
    exact Option.some.inj hoverride ▸ hops
  knows_of_resolve := by
    intro machine link next object hmachine hresolve
    cases link with
    | root => cases hresolve
    | override depth =>
      obtain ⟨installed, hinstalled, hfound⟩ := Option.map_eq_some_iff.mp hresolve
      cases hfound
      exact hmachine.stack installed (Array.mem_toList_iff.mpr (Array.mem_of_getElem? hinstalled))
  knows_of_shared hmachine hfind := hmachine.shared _ (Table.mem_values_of_find? hfind)
  knows_of_change _ hchange hobject := hchange.1.knows hobject
  bracket := lexical_bracket

/-! ### Releasing and closing -/

/-- Releasing a guard that owns the top takes away the top and nothing else, in order. -/
theorem lexical_release (hexec : (lexical stop).Governs exec) (guard : Guard) :
    Keeps (.unstacking guard) stop (Run.release exec guard) := by
  rintro machine ⟨hmachine, base, htop⟩
  rw [release_of_alive hmachine.alive]
  obtain ⟨installed, hentries, rfl⟩ := id htop
  rw [Stack.release_of_top hentries]
  let cut : Machine := { machine with thread := { machine.thread with
    stack := { machine.thread.stack with entries := base } } }
  have hmem : ∀ other ∈ base.toList, machine.Knows other.override := fun other hother ↦
    hmachine.stack other (by simp [hentries, Array.mem_toList_iff.mp hother])
  have hcut : machine.Continues cut :=
    hmachine.continues_of_objects rfl rfl hmem hmachine.shared
  have hremoved : machine.Knows installed.override := hmachine.stack installed (by simp [hentries])
  have hkeeps : Keeps ((lexical stop).given .restoring [installed.override]) stop
      (settle exec { depth := base.size, generation := installed.generation }
        (.inOrder [installed.override])) :=
    (keeps_relinquishAll hexec _).bind fun _ ↦ .of_aside (aside_traceEvent _ _ _)
  refine (hkeeps cut ⟨hcut.isScoped, ?_⟩).mono ?_ id
  · exact fun object hobject ↦ List.mem_singleton.mp hobject ▸ hcut.knows hremoved
  · intro after hafter
    refine ⟨hcut.trans hafter.1, hafter.2.1, fun other hother ↦ ?_⟩
    rw [hafter.2.2, hother.unique htop]

/-- A list without guards is closed at once. -/
theorem lexical_closeFrame_nil {machine : Machine} {rest : List Frame} (hmachine : machine.Scoped)
    (hframes : machine.thread.frames = [] :: rest) : Contract.unpiling.change machine
      { machine with thread := { machine.thread with frames := rest } } := by
  refine ⟨hmachine.continues_of_objects rfl rfl hmachine.stack hmachine.shared, ?_⟩
  intro frame others base hothers hpiled
  rw [hframes] at hothers
  cases hothers
  exact ⟨rfl, hpiled.eq_of_nil⟩

/-- The latest guard of a list is released first, and then the list is closed, which gets the stack
without the top. -/
theorem lexical_closeFrame_cons (hexec : (lexical stop).Governs exec) {machine : Machine}
    {held : Held} {frame : Frame} {rest : List Frame} {base : Array (Installed ObjectId)}
    (hmachine : machine.Scoped) (hframes : machine.thread.frames = (held :: frame) :: rest)
    (hpiled : Piled base (held :: frame) machine.thread.stack.entries) :
    Contract.unpiling.Permits stop machine
      (Run.andFinally (exec (.release held.guard)) (exec .closeFrame)
        { machine with thread := { machine.thread with frames := frame :: rest } }) := by
  obtain ⟨lower, htop, hlower⟩ := hpiled.exists_onTop
  have htaken : machine.Continues
      { machine with thread := { machine.thread with frames := frame :: rest } } :=
    hmachine.continues_of_objects rfl rfl hmachine.stack hmachine.shared
  refine (hexec (.release held.guard) _ ⟨htaken.isScoped, lower, htop⟩).andFinally ?_
  intro released hreleased
  have hentries : released.thread.stack.entries = lower := hreleased.2.2 lower htop
  refine (hexec .closeFrame released ⟨hreleased.1.isScoped, frame, rest, base, hreleased.2.1,
    hentries ▸ hlower⟩).mono ?_ id
  intro closed hclosed
  refine ⟨(htaken.trans hreleased.1).trans hclosed.1, ?_⟩
  -- The base of a pile is determined by its guards, since each of them tells what is below it.
  intro others rest' other hothers hother
  rw [hframes] at hothers
  cases hothers
  obtain ⟨lower', htop', hlower'⟩ := hother.exists_onTop
  refine hclosed.2 frame rest other hreleased.2.1 ?_
  rwa [hentries, htop.unique htop']

/-- Closing a list releases its guards from the top of the stack down. -/
theorem lexical_closeFrame (hexec : (lexical stop).Governs exec) :
    Keeps .unpiling stop (Run.closeFrame exec) := by
  rintro machine ⟨hmachine, frame, rest, base, hframes, hpiled⟩
  have hread : Run.thread machine = .ok machine.thread machine := rfl
  unfold Run.closeFrame
  rw [bind_of_ok hread, hframes]
  rcases frame with _ | ⟨held, frame⟩
  · exact lexical_closeFrame_nil hmachine hframes
  · exact lexical_closeFrame_cons hexec hmachine hframes hpiled

/-! ### Installing -/

/-- Installing an override that is known leaves the machine scoped. -/
theorem continues_of_install {machine : Machine} {object : ObjectId} (hmachine : machine.Scoped)
    (hobject : machine.Knows object) (process : Process) : machine.Continues
      { process, thread :=
        { machine.thread with stack := (machine.thread.stack.install object).2 } } := by
  refine hmachine.continues_of_objects rfl rfl (fun installed hinstalled ↦ ?_) hmachine.shared
  rw [Stack.entries_install, Array.toList_push, List.mem_append] at hinstalled
  rcases hinstalled with hold | hnew
  · exact hmachine.stack installed hold
  · exact List.mem_singleton.mp hnew ▸ hobject

/-- An installation for the rest of a list puts the guard on the pile of the list. -/
theorem lexical_push {op : Op} {keep : Bool} {object : ObjectId} {name : String}
    (hop : op.Scoped) (hlends : op.lends? = some keep) :
    Keeps ((lexical stop).given .piling [object]) stop (pushObject exec object name keep) := by
  rintro machine ⟨⟨hmachine, hopen⟩, hobject⟩
  obtain rfl : keep = false := by
    obtain ⟨hscoped, -⟩ := hop
    have hkept := Op.isScoped_of_lends hscoped
    rw [hlends] at hkept
    simpa using hkept
  obtain ⟨frame, rest, hframes⟩ := List.exists_cons_of_ne_nil hopen
  obtain ⟨process, hend, -⟩ := install_of_alive hmachine.alive object
  have hinstalled := continues_of_install hmachine (hobject object (by simp)) process
  unfold pushObject
  rw [bind_of_ok hend]
  refine ⟨hinstalled.trans (hinstalled.isScoped.continues_of_objects rfl rfl
    hinstalled.isScoped.stack hinstalled.isScoped.shared), ?_⟩
  let held : Held := { name, guard := (machine.thread.stack.install object).1 }
  have hpile : Piled machine.thread.stack.entries [held]
      (machine.thread.stack.install object).2.entries :=
    @Piled.cons machine.thread.stack.entries [] machine.thread.stack.entries
      { generation := machine.thread.stack.nextGeneration, override := object } name .nil
  intro frame' rest' hframes'
  refine ⟨[held], ?_, hpile⟩
  simp [hframes', held]

/-- An override that is installed around a list is on top again when the list is closed. -/
theorem lexical_within (hexec : (lexical stop).Governs exec) {object : ObjectId} {body : List Op}
    (hbody : Keeps .restoring stop (runList exec body)) :
    Keeps ((lexical stop).given .restoring [object]) stop (runWithin exec object body) := by
  rintro machine ⟨hmachine, hobject⟩
  obtain ⟨process, hend, -⟩ := install_of_alive hmachine.alive object
  have hinstalled := continues_of_install hmachine (hobject object (by simp)) process
  unfold runWithin
  rw [bind_of_ok hend]
  have hinside : Keeps .restoring stop (do runList exec body; height) :=
    hbody.bind fun _ ↦ .of_aside aside_height
  have hreleased : Contract.restoring.Permits stop machine
      (Run.andFinally (do runList exec body; height)
        (exec (.release (machine.thread.stack.install object).1))
        { process, thread :=
          { machine.thread with stack := (machine.thread.stack.install object).2 } }) := by
    refine (hinside _ hinstalled.isScoped).andFinally ?_
    intro after hafter
    have htop : (machine.thread.stack.install object).1.OnTop after.thread.stack.entries
        machine.thread.stack.entries := ⟨_, hafter.2.2, rfl⟩
    refine (hexec (.release _) after ⟨hafter.1.isScoped, _, htop⟩).mono ?_ id
    intro released hlast
    exact ⟨(hinstalled.trans hafter.1).trans hlast.1, hlast.2.1.trans hafter.2.1,
      hlast.2.2 _ htop⟩
  have hanswer (inside : Nat) : Keeps .restoring stop
      (do return .heights inside (← height) : Run Answer) :=
    (Keeps.of_aside aside_height).bind fun _ ↦ .pure _
  refine hreleased.bind id fun {inside after} _ hchange ↦ ?_
  exact (hanswer inside after hchange.1.isScoped).of_change hmachine hchange

/-- A new object is known if its programs are scoped, and the others do what they did. -/
theorem continues_of_newObject {machine : Machine} {override : Override}
    (hmachine : machine.Scoped) (hops : ∀ op ∈ override.ops, op.Scoped) :
    let made : Machine := { machine with thread := { machine.thread with
      objects := machine.thread.objects.push { override, owners := 1 } } }
    machine.Continues made ∧ made.Knows machine.thread.objects.size := by
  intro made
  have hold {object : ObjectId} {other : Override}
      (h : machine.overrideOf? object = some other) : made.overrideOf? object = some other := by
    obtain ⟨held, hheld, hother⟩ := Option.map_eq_some_iff.mp h
    have hlt := (Array.getElem?_eq_some_iff.mp hheld).1
    unfold Machine.overrideOf?
    rw [Array.getElem?_push_lt hlt, ← Array.getElem?_eq_getElem hlt, hheld, ← hother]
    rfl
  have hknows {object : ObjectId} (h : machine.Knows object) : made.Knows object :=
    h.imp fun _ hoverride ↦ ⟨hold hoverride.1, hoverride.2⟩
  refine ⟨⟨⟨hmachine.alive, fun installed h ↦ hknows (hmachine.stack installed h),
    fun object h ↦ hknows (hmachine.shared object h)⟩, hold⟩, override, ?_, hops⟩
  unfold Machine.overrideOf?
  rw [Array.getElem?_push_size]
  rfl

instance : (lexical stop).Lawful where
  newObject {machine after override object} hmachine hops hmade := by
    cases hmade
    obtain ⟨hcontinues, hknows⟩ := continues_of_newObject hmachine hops
    exact ⟨⟨hcontinues, rfl, rfl⟩, hknows⟩
  share hmachine hobject := by
    refine ⟨hmachine.continues_of_objects rfl rfl hmachine.stack fun other hother ↦ ?_, rfl, rfl⟩
    rcases Table.mem_values_of_mem_insert hother with rfl | hold
    · exact hobject
    · exact hmachine.shared other hold
  unshare hmachine := by
    refine ⟨hmachine.continues_of_objects rfl rfl hmachine.stack fun other hother ↦ ?_, rfl, rfl⟩
    exact hmachine.shared other (Table.mem_values_of_mem_erase hother)
  within hexec hbody := lexical_within hexec hbody
  push _ hop hlends := lexical_push hop hlends
  takeGuard hallows := by
    rcases hallows with ⟨hrelease, -⟩ | ⟨hforget, -⟩
    · cases hrelease
    · cases hforget
  releaseHeld _ hallows := by
    obtain ⟨hrelease, -⟩ := hallows
    cases hrelease
  closeFrame hexec := lexical_closeFrame hexec
  release hexec := lexical_release hexec _

/-- Scoped programs start no threads. -/
instance : (lexical stop).SpansThreads where
  runThread _ hallows := by
    obtain ⟨hthread, -⟩ := hallows
    cases hthread

end Discipline

end Escalation
