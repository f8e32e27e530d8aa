import Escalation.Proofs.Output

/-!
# The chain that an event walks

From the link that an event is delivered to, the chain leads through the overrides further and
further out (`Machine.chain`). Some leave an event of its kind to the link below, some of them
annotating it on the way (`Override.remark?`), and others are where it ends (`Override.endFor?`). An
event ends at the first of these, and at the policy of the process if there is none
(`chainEnd`); it arrives there with the remarks of exactly the overrides that it passed
(`remarksPassed`), so a failure has them in front of its chain, the outermost first
(`Event.passThrough_failure`), and a line is nested once for each (`Event.passThrough_line`).

This is so where overrides do what their kind says: a script either leaves an event alone or
swallows it (`Override.Plain`). A thread with such overrides only, all of them alive, is plain
(`Machine.Plain`). Installing more of them keeps it so (`Machine.Plain.install`).
-/

set_option autoImplicit false
set_option relaxedAutoImplicit false

namespace Escalation

/-! ### Where an event ends -/

/-- Where the walk of an event along the chain ends. -/
inductive ChainEnd
  /-- At an override that does nothing about it. -/
  | swallowed
  /-- In the log of the program. -/
  | forwarded (level : Level)
  /-- At a policy of the thread. -/
  | policy (index : ℕ)
  /-- At the policy of the process. -/
  | root
  deriving DecidableEq, Repr

namespace Override

/-- Where an event of a kind ends if it reaches the override; otherwise the override leaves it to
the link below. -/
def endFor? (kind : EventKind) : Override → Option ChainEnd
  | .transparent | .context _ => none
  | .script program => (program.handler kind).map fun _ ↦ .swallowed
  | .bridge level => if kind = .line then some (.forwarded level) else none
  | .policy index => some (.policy index)

/-- What an override leaves on the events that pass it. -/
def remark? : Override → Option Remark
  | .context remark => some remark
  | .transparent | .script _ | .bridge _ | .policy _ => none

end Override

/-- Where an event of a kind ends on a chain of overrides. -/
def chainEnd (kind : EventKind) (chain : List Override) : ChainEnd :=
  (chain.findSome? (Override.endFor? kind)).getD .root

/-- The remarks of the overrides that an event of a kind passes on a chain, in its order. -/
def remarksPassed (kind : EventKind) (chain : List Override) : List Remark :=
  (chain.takeWhile fun override ↦ (override.endFor? kind).isNone).filterMap Override.remark?

section ChainEnd

variable {kind : EventKind} {override : Override} {rest : List Override} {stop : ChainEnd}

theorem chainEnd_cons_of_end (h : override.endFor? kind = some stop) :
    chainEnd kind (override :: rest) = stop := by
  simp [chainEnd, h]

theorem chainEnd_cons_of_pass (h : override.endFor? kind = none) :
    chainEnd kind (override :: rest) = chainEnd kind rest := by
  simp [chainEnd, h]

theorem remarksPassed_cons_of_end (h : override.endFor? kind = some stop) :
    remarksPassed kind (override :: rest) = [] := by
  simp [remarksPassed, h]

theorem remarksPassed_cons_of_pass (h : override.endFor? kind = none) :
    remarksPassed kind (override :: rest) = override.remark?.toList ++ remarksPassed kind rest := by
  unfold remarksPassed
  rw [List.takeWhile_cons_of_pos (by simp [h]), List.filterMap_cons]
  cases override.remark? <;> rfl

end ChainEnd

/-! ### What passing does to an event -/

namespace Event

variable (remarks others : List Remark)

theorem passThrough_append (event : Event) :
    event.passThrough (remarks ++ others) = (event.passThrough remarks).passThrough others :=
  List.foldl_append

@[simp] theorem kind_passThrough (event : Event) :
    (event.passThrough remarks).kind = event.kind := by
  induction remarks generalizing event with
  | nil => rfl
  | cons remark rest ih => exact (ih (event.annotate remark)).trans (event.kind_annotate remark)

/-- A failure gets the remarks in front of its chain, the last one first, and keeps all else. -/
theorem passThrough_failure (severity : Severity) (reported : Failure) :
    (Event.failure severity reported).passThrough remarks =
      .failure severity { reported with context := remarks.reverse ++ reported.context } := by
  induction remarks generalizing reported with
  | nil => rfl
  | cons remark rest ih =>
    refine (ih (reported.annotate remark)).trans ?_
    simp [Failure.annotate]

/-- A line is nested once for each remark, and keeps its place and its text. -/
theorem passThrough_line (sent : Line) :
    (Event.line sent).passThrough remarks =
      .line { sent with depth := deeper^[remarks.length] sent.depth } := by
  induction remarks generalizing sent with
  | nil => rfl
  | cons remark rest ih => exact ih sent.nest

end Event

/-! ### The chain of a thread -/

/-- Every link is the one just below some height. -/
theorem Link.eq_below (link : Link) : ∃ height, link = Link.below height := by
  cases link with
  | root => exact ⟨0, rfl⟩
  | override depth => exact ⟨depth + 1, rfl⟩

namespace Machine

/-- The overrides from a link on outward. A link at or beyond the height of the stack meets none,
and neither does the root. -/
def chain (machine : Machine) : Link → List Override
  | .root => []
  | .override depth =>
    if depth < machine.thread.stack.height then
      (machine.thread.stack.entries.toList.take (depth + 1)).reverse.filterMap
        fun installed ↦ machine.overrideOf? installed.override
    else []

/-- An override object is alive and does this. -/
def Owned (machine : Machine) (object : ObjectId) (override : Override) : Prop :=
  ∃ held, machine.thread.objects[object]? = some held ∧ held.override = override ∧ 0 < held.owners

section Chain

variable {machine : Machine} {object : ObjectId} {override : Override} {height : ℕ}
  {installed : Installed ObjectId}

theorem Owned.overrideOf_eq (h : machine.Owned object override) :
    machine.overrideOf? object = some override := by
  obtain ⟨held, hheld, rfl, -⟩ := h
  simp [overrideOf?, hheld]

/-- A link that means nothing starts an empty chain. -/
theorem chain_of_resolve_none {link : Link} (h : machine.thread.stack.resolve link = none) :
    machine.chain link = [] := by
  cases link with
  | root => rfl
  | override depth =>
    have hsize : machine.thread.stack.height ≤ depth := by
      simpa [Stack.resolve, Stack.height] using h
    exact if_neg (Nat.not_lt.mpr hsize)

theorem chain_below (h : height ≤ machine.thread.stack.height) : machine.chain (Link.below height) =
    (machine.thread.stack.entries.toList.take height).reverse.filterMap
      fun installed ↦ machine.overrideOf? installed.override := by
  rcases height with _ | depth
  · rfl
  · exact if_pos h

/-- The chain from a link that means an override is that override and the chain from the link
below. -/
theorem chain_of_entry (hentry : machine.thread.stack.entries[height]? = some installed)
    (hoverride : machine.overrideOf? installed.override = some override) :
    machine.chain (.override height) = override :: machine.chain (Link.below height) := by
  have hlt : height < machine.thread.stack.height :=
    (Array.getElem?_eq_some_iff.mp hentry).1
  have hentries : machine.thread.stack.entries.toList[height]? = some installed := by
    rwa [Array.getElem?_toList]
  rw [chain_below hlt.le, chain, if_pos hlt, List.take_add_one, hentries, Option.toList_some,
    List.reverse_append, List.reverse_singleton, List.singleton_append]
  exact List.filterMap_cons_some hoverride

/-- An override that is put on top of the stack is put in front of the chain. -/
theorem chain_current_of_push {after : Machine}
    (hentries : after.thread.stack.entries = machine.thread.stack.entries.push installed)
    (hnew : after.overrideOf? installed.override = some override)
    (hold : ∀ earlier ∈ machine.thread.stack.entries,
      after.overrideOf? earlier.override = machine.overrideOf? earlier.override) :
    after.chain after.thread.stack.current =
      override :: machine.chain machine.thread.stack.current := by
  have hheight : after.thread.stack.height = machine.thread.stack.height + 1 := by
    unfold Stack.height
    rw [hentries, Array.size_push]
  have hlast : after.thread.stack.entries[machine.thread.stack.height]? = some installed := by
    rw [hentries]
    exact Array.getElem?_push_size
  have hlength : machine.thread.stack.entries.toList.length = machine.thread.stack.height := rfl
  have hbelow : after.chain (Link.below machine.thread.stack.height) =
      machine.chain (Link.below machine.thread.stack.height) := by
    rw [chain_below (by omega), chain_below le_rfl, hentries, Array.toList_push,
      List.take_append_of_le_length hlength.ge]
    refine List.filterMap_congr fun earlier hearlier ↦ hold earlier ?_
    exact Array.mem_toList_iff.mp (List.mem_of_mem_take (List.mem_reverse.mp hearlier))
  unfold Stack.current
  rw [hheight, Link.below_succ, chain_of_entry hlast hnew, hbelow]

/-- No chain is longer than the stack is high. -/
theorem length_chain_le (link : Link) :
    (machine.chain link).length ≤ machine.thread.stack.height := by
  cases link with
  | root => exact Nat.zero_le _
  | override depth =>
    change (if depth < machine.thread.stack.height then _ else []).length ≤ _
    by_cases hdepth : depth < machine.thread.stack.height
    · rw [if_pos hdepth]
      refine (List.length_filterMap_le _ _).trans ?_
      rw [List.length_reverse, List.length_take]
      exact Nat.min_le_right _ _
    · rw [if_neg hdepth]
      exact Nat.zero_le _

end Chain

end Machine

/-! ### Plain threads -/

/-- The override does what its kind says. A script does if it leaves an event alone or swallows it,
whatever the event. -/
def Override.Plain : Override → Prop
  | .script program => ∀ kind, program.handler kind = none ∨ program.handler kind = some []
  | .transparent | .context _ | .bridge _ | .policy _ => True

/-- All overrides in place are alive and plain. -/
def Machine.Plain (machine : Machine) : Prop :=
  ∀ installed ∈ machine.thread.stack.entries, ∃ override,
    machine.Owned installed.override override ∧ override.Plain

/-- A new object changes nothing about those that are alive. -/
theorem Machine.Owned.newObject {machine after : Machine} {object : ObjectId}
    {override other : Override} (h : machine.Owned object override)
    (hobjects : after.thread.objects =
      machine.thread.objects.push { override := other, owners := 1 }) :
    after.Owned object override := by
  obtain ⟨held, hheld, hoverride, howners⟩ := h
  have hlt : object < machine.thread.objects.size := (Array.getElem?_eq_some_iff.mp hheld).1
  refine ⟨held, ?_, hoverride, howners⟩
  rw [hobjects, Array.getElem?_push_lt hlt, ← Array.getElem?_eq_getElem hlt, hheld]

/-- One owner more of an object leaves those that are alive alive. -/
theorem Machine.Owned.acquire {machine after : Machine} {object other : ObjectId}
    {override : Override} {held : Object} (h : machine.Owned other override)
    (hheld : machine.thread.objects[object]? = some held)
    (hobjects : after.thread.objects = machine.thread.objects.setIfInBounds object
      { held with owners := held.owners + 1 }) : after.Owned other override := by
  obtain ⟨before, hbefore, hoverride, howners⟩ := h
  unfold Machine.Owned
  rw [hobjects, Array.getElem?_setIfInBounds]
  by_cases hother : object = other
  · have hlt : object < machine.thread.objects.size := (Array.getElem?_eq_some_iff.mp hheld).1
    rw [if_pos hother, if_pos hlt]
    refine ⟨_, rfl, ?_, Nat.succ_pos _⟩
    rw [← hother, hheld] at hbefore
    rw [← hoverride, Option.some.inj hbefore]
  · rw [if_neg hother]
    exact ⟨before, hbefore, hoverride, howners⟩

/-- Assumes: a thread is plain and its storage is there. Installing a new plain override on top puts
it in front of the chain and keeps the thread plain. -/
theorem Machine.Plain.install {machine : Machine} {override : Override} (exec : Exec)
    (hplain : machine.Plain) (halive : machine.thread.tornDown = false)
    (hoverride : override.Plain) :
    ∃ guard after, (Run.newObject override >>= Run.install exec) machine = .ok guard after ∧
      after.Plain ∧ after.thread.tornDown = false ∧
      after.chain after.thread.stack.current =
        override :: machine.chain machine.thread.stack.current := by
  let made : Machine := { machine with thread := { machine.thread with
    objects := machine.thread.objects.push { override, owners := 1 } } }
  have hmade : Run.newObject override machine = .ok machine.thread.objects.size made := rfl
  obtain ⟨process, hinstall, -⟩ :=
    @Run.install_of_alive exec made halive machine.thread.objects.size
  let after : Machine := { process, thread :=
    { made.thread with stack := (made.thread.stack.install machine.thread.objects.size).2 } }
  have hnew : after.Owned machine.thread.objects.size override :=
    ⟨_, Array.getElem?_push_size, rfl, Nat.one_pos⟩
  have hold (object : ObjectId) (old : Override) (howned : machine.Owned object old) :
      after.Owned object old := howned.newObject rfl
  have hentries : after.thread.stack.entries = machine.thread.stack.entries.push
      { generation := machine.thread.stack.nextGeneration
        override := machine.thread.objects.size } := rfl
  have hafter : after.Plain := by
    intro installed hinstalled
    rw [hentries, Array.mem_push] at hinstalled
    rcases hinstalled with hinstalled | rfl
    · obtain ⟨old, howned, hkind⟩ := hplain installed hinstalled
      exact ⟨old, hold _ _ howned, hkind⟩
    · exact ⟨override, hnew, hoverride⟩
  refine ⟨_, after, (Run.bind_of_ok hmade).trans hinstall, hafter, halive, ?_⟩
  refine Machine.chain_current_of_push hentries hnew.overrideOf_eq fun earlier hearlier ↦ ?_
  obtain ⟨old, howned, -⟩ := hplain earlier hearlier
  rw [howned.overrideOf_eq, (hold _ _ howned).overrideOf_eq]

end Escalation
