import Escalation.Proofs.Narrative
import Escalation.Proofs.Scoped

/-!
# Threads with open scopes

The overrides of scopes annotate, or forward lines (`Override.IsLayer`). A thread on which scopes
are open, and nothing else is installed, is layered (`Machine.Layered`). A failure that is delivered
there passes all scopes, and a line comes out as its emission says
(`Machine.Layered.exists_of_comesOut`).

Opening a scope puts an override on top, closing it takes that away again; either way the thread
stays layered (`Machine.Layered.push`, `Machine.Layered.pop`). Where scopes have been opened, the
innermost open list holds their guards, and everything below is as it was (`Machine.Grown`).
-/

set_option autoImplicit false
set_option relaxedAutoImplicit false

namespace Escalation

/-! ### Scopes -/

/-- The override of a scope: it annotates, or forwards lines. -/
def Override.IsLayer : Override → Prop
  | .context _ | .bridge _ => True
  | .transparent | .script _ | .policy _ => False

namespace Override.IsLayer

variable {override : Override} (h : override.IsLayer)
include h

theorem plain : override.Plain := by
  cases override <;> first | exact h.elim | trivial

/-- Every failure passes a scope. -/
theorem endFor_failure (severity : Severity) : override.endFor? (.failure severity) = none := by
  cases override <;> first | exact h.elim | rfl

/-- A line comes out at a scope that forwards it, and passes any other. -/
theorem endFor_line : override.endFor? .line = override.outlet? := by
  cases override <;> first | exact h.elim | rfl

end Override.IsLayer

/-- A scope leaves a remark if it annotates. -/
theorem Override.isSome_remark (override : Override) :
    override.remark?.isSome = override.isContext := by
  cases override <;> rfl

section Layers

variable {layers : List Override} (hlayers : ∀ override ∈ layers, override.IsLayer)
include hlayers

theorem chainEnd_failure_of_layers (severity : Severity) :
    chainEnd (.failure severity) layers = .root := by
  have hnone : layers.findSome? (Override.endFor? (.failure severity)) = none :=
    List.findSome?_eq_none_iff.mpr fun override hmem ↦ (hlayers override hmem).endFor_failure _
  simp [chainEnd, hnone]

theorem remarksPassed_failure_of_layers (severity : Severity) :
    remarksPassed (.failure severity) layers = layers.filterMap Override.remark? := by
  unfold remarksPassed
  rw [List.takeWhile_eq_self_iff.mpr]
  intro override hmem
  rw [(hlayers override hmem).endFor_failure]
  rfl

theorem chainEnd_line_of_layers : chainEnd .line layers = outlet layers := by
  unfold chainEnd outlet
  congr 1
  induction layers with
  | nil => rfl
  | cons override rest ih =>
    rw [List.forall_mem_cons] at hlayers
    rw [List.findSome?_cons, List.findSome?_cons, hlayers.1.endFor_line, ih hlayers.2]

theorem length_remarksPassed_line_of_layers :
    (remarksPassed .line layers).length = contextsPassed layers := by
  have htake : (layers.takeWhile fun override ↦ (override.endFor? .line).isNone) =
      layers.takeWhile fun override ↦ override.outlet?.isNone := by
    induction layers with
    | nil => rfl
    | cons override rest ih =>
      rw [List.forall_mem_cons] at hlayers
      rw [List.takeWhile_cons, List.takeWhile_cons, hlayers.1.endFor_line, ih hlayers.2]
  unfold remarksPassed contextsPassed
  rw [htake, List.length_filterMap_eq_countP]
  exact List.countP_congr fun override _ ↦ by rw [override.isSome_remark]

/-- Lines come out of scopes in the log of the program or at the policy of the process. -/
theorem outlet_of_layers : (∃ level, outlet layers = .forwarded level) ∨ outlet layers = .root := by
  unfold outlet
  rcases hfound : layers.findSome? Override.outlet? with _ | stop
  · exact .inr rfl
  · obtain ⟨override, hmem, hstop⟩ := List.exists_of_findSome?_eq_some hfound
    have hlayer := hlayers override hmem
    cases override <;> first | exact hlayer.elim | skip
    · cases hstop
    · cases hstop
      exact .inl ⟨_, rfl⟩

end Layers

/-- All overrides in place are scopes that are alive, and each is in place once. -/
structure Machine.Layered (machine : Machine) : Prop where
  /-- The storage of the thread is there. -/
  alive : machine.thread.tornDown = false
  /-- No override is in place twice. -/
  distinct : (machine.thread.stack.entries.toList.map Installed.override).Nodup
  /-- The overrides are scopes, and the stack is their only owner. -/
  layers : ∀ installed ∈ machine.thread.stack.entries, ∃ override,
    machine.thread.objects[installed.override]? = some { override, owners := 1 } ∧ override.IsLayer

namespace Machine.Layered

variable {machine : Machine} (hlayered : machine.Layered)
include hlayered

theorem plain : machine.Plain := by
  intro installed hinstalled
  obtain ⟨override, hheld, hlayer⟩ := hlayered.layers installed hinstalled
  exact ⟨override, ⟨_, hheld, rfl, Nat.one_pos⟩, hlayer.plain⟩

theorem isLayer_of_mem_chain (link : Link) {override : Override}
    (h : override ∈ machine.chain link) : override.IsLayer := by
  obtain ⟨installed, hinstalled, hoverride⟩ := exists_of_mem_chain h
  obtain ⟨other, hheld, hlayer⟩ := hlayered.layers installed hinstalled
  have heq : machine.overrideOf? installed.override = some other := by simp [overrideOf?, hheld]
  rw [heq] at hoverride
  cases hoverride
  exact hlayer

end Machine.Layered

/-! ### What comes of an event among scopes -/

/-- An emission is all that a part shows. -/
def Emission.Shown (emission : Emission) (process after : Process) : Prop :=
  match emission with
  | .diagnostics text => process.Shows after text []
  | .log level text => process.Shows after "" [(level, text)]
  | .writer .. => False

section Dispatch

variable {machine : Machine} (hlayered : machine.Layered)
include hlayered

/-- What comes of a line among scopes is its emission. -/
theorem Machine.Layered.exists_of_comesOut {part : Run Unit} {sent : Line} {link : Link}
    (h : Run.ComesOut part machine (machine.sentOutcome sent link)) :
    ∃ process, part machine = .ok () { machine with process } ∧
      (emissionOn machine.process.effectiveSettings #[] (machine.chain link) sent).Shown
        machine.process process := by
  have hlayers (override : Override) (hmem : override ∈ machine.chain link) : override.IsLayer :=
    hlayered.isLayer_of_mem_chain link hmem
  obtain ⟨process, hend, hshows⟩ := h
  unfold sentOutcome at hend hshows
  dsimp only at hend hshows
  rw [chainEnd_line_of_layers hlayers, length_remarksPassed_line_of_layers hlayers] at hend hshows
  refine ⟨process, ?_, ?_⟩
  · rw [hend]
    obtain ⟨level, hstop⟩ | hstop := outlet_of_layers hlayers <;> rw [hstop] <;> rfl
  · unfold emissionOn
    rw [← toNat_iterate_deeper]
    obtain ⟨level, hstop⟩ | hstop := outlet_of_layers hlayers <;> rw [hstop] at hshows ⊢ <;>
      exact hshows

end Dispatch

/-! ### Scopes that open and close -/

/-- Every override that was in place below a pile is in place. -/
theorem Piled.mem_of_mem {base entries : Array (Installed ObjectId)} {frame : Frame}
    (h : Piled base frame entries) {installed : Installed ObjectId} (hmem : installed ∈ base) :
    installed ∈ entries := by
  induction h with
  | nil => exact hmem
  | cons _ ih => exact Array.mem_push.mpr (.inl ih)

theorem Piled.size_eq {base entries : Array (Installed ObjectId)} {frame : Frame}
    (h : Piled base frame entries) : entries.size = base.size + frame.length := by
  induction h with
  | nil => rfl
  | cons _ ih => rw [Array.size_push, ih, List.length_cons, Nat.add_assoc]

namespace Machine.Layered

variable {machine after : Machine} (hlayered : machine.Layered)
include hlayered

/-- A new scope is opened on top. -/
theorem push {override : Override} {generation : UInt64} (hlayer : override.IsLayer)
    (halive : after.thread.tornDown = machine.thread.tornDown)
    (hentries : after.thread.stack.entries = machine.thread.stack.entries.push
      { generation, override := machine.thread.objects.size })
    (hobjects : after.thread.objects = machine.thread.objects.push { override, owners := 1 }) :
    after.Layered ∧ ∀ installed ∈ machine.thread.stack.entries,
      after.thread.objects[installed.override]? =
        machine.thread.objects[installed.override]? := by
  have hlt {installed : Installed ObjectId} (h : installed ∈ machine.thread.stack.entries) :
      installed.override < machine.thread.objects.size := by
    obtain ⟨_, hheld, -⟩ := hlayered.layers installed h
    exact (Array.getElem?_eq_some_iff.mp hheld).1
  have hold (installed : Installed ObjectId) (h : installed ∈ machine.thread.stack.entries) :
      after.thread.objects[installed.override]? =
        machine.thread.objects[installed.override]? := by
    rw [hobjects, Array.getElem?_push_lt (hlt h), ← Array.getElem?_eq_getElem (hlt h)]
  refine ⟨⟨halive.trans hlayered.alive, ?_, fun installed h ↦ ?_⟩, hold⟩
  · rw [hentries, Array.toList_push, List.map_append, List.nodup_append_comm]
    refine List.nodup_cons.mpr ⟨fun hmem ↦ ?_, hlayered.distinct⟩
    obtain ⟨installed, hinstalled, heq⟩ := List.mem_map.mp hmem
    exact absurd heq (hlt (Array.mem_toList_iff.mp hinstalled)).ne
  · rw [hentries, Array.mem_push] at h
    rcases h with h | rfl
    · rw [hold installed h]
      exact hlayered.layers installed h
    · exact ⟨override, by rw [hobjects, Array.getElem?_push_size], hlayer⟩

/-- The scope on top is closed. -/
theorem pop {base : Array (Installed ObjectId)} {installed : Installed ObjectId} {last : Object}
    (halive : after.thread.tornDown = machine.thread.tornDown)
    (hentries : machine.thread.stack.entries = base.push installed)
    (hbase : after.thread.stack.entries = base)
    (hobjects : after.thread.objects =
      machine.thread.objects.setIfInBounds installed.override last) :
    after.Layered ∧ ∀ lower ∈ base,
      after.thread.objects[lower.override]? = machine.thread.objects[lower.override]? := by
  have hdistinct := hlayered.distinct
  rw [hentries, Array.toList_push, List.map_append, List.nodup_append_comm] at hdistinct
  obtain ⟨hnew, hrest⟩ := List.nodup_cons.mp hdistinct
  have hold (lower : Installed ObjectId) (h : lower ∈ base) :
      after.thread.objects[lower.override]? = machine.thread.objects[lower.override]? := by
    rw [hobjects, Array.getElem?_setIfInBounds, if_neg]
    intro heq
    exact hnew (List.mem_map.mpr ⟨lower, Array.mem_toList_iff.mpr h, heq.symm⟩)
  refine ⟨⟨halive.trans hlayered.alive, by rwa [hbase], fun lower h ↦ ?_⟩, hold⟩
  rw [hbase] at h
  rw [hold lower h]
  exact hlayered.layers lower (by rw [hentries]; exact Array.mem_push.mpr (.inl h))

end Machine.Layered

/-- Scopes were opened, at most so many. The innermost open list holds their guards, and everything
below is as it was. -/
structure Machine.Grown (most : ℕ) (machine after : Machine) : Prop where
  layered : after.Layered
  piled : ∃ more, more.length ≤ most ∧
    Piled machine.thread.stack.entries more after.thread.stack.entries ∧
      ∀ frame outer, machine.thread.frames = frame :: outer →
        after.thread.frames = (more ++ frame) :: outer
  objects : ∀ installed ∈ machine.thread.stack.entries,
    after.thread.objects[installed.override]? = machine.thread.objects[installed.override]?

namespace Machine.Grown

variable {machine after last : Machine} {most more : ℕ}

/-- Nothing was opened. -/
theorem of_eq (hlayered : machine.Layered)
    (halive : after.thread.tornDown = machine.thread.tornDown)
    (hentries : after.thread.stack.entries = machine.thread.stack.entries)
    (hframes : ∀ frame outer, machine.thread.frames = frame :: outer →
      after.thread.frames = machine.thread.frames)
    (hobjects : ∀ installed ∈ machine.thread.stack.entries,
      after.thread.objects[installed.override]? = machine.thread.objects[installed.override]?) :
    machine.Grown 0 after where
  layered := by
    refine ⟨halive.trans hlayered.alive, by rw [hentries]; exact hlayered.distinct, ?_⟩
    rw [hentries]
    exact fun installed h ↦ by rw [hobjects installed h]; exact hlayered.layers installed h
  piled := by
    refine ⟨[], le_rfl, by rw [hentries]; exact .nil, fun frame outer hframe ↦ ?_⟩
    rw [hframes frame outer hframe, hframe]
    rfl
  objects := hobjects

theorem refl (hlayered : machine.Layered) : machine.Grown 0 machine :=
  .of_eq hlayered rfl rfl (fun _ _ _ ↦ rfl) fun _ _ ↦ rfl

theorem trans (h : machine.Grown most after) (hlast : after.Grown more last) :
    machine.Grown (most + more) last := by
  obtain ⟨first, hfirst, hpiled, hframes⟩ := h.piled
  obtain ⟨second, hsecond, hpiledSecond, hframesSecond⟩ := hlast.piled
  refine ⟨hlast.layered, ⟨second ++ first, ?_, hpiled.append hpiledSecond, ?_⟩, ?_⟩
  · rw [List.length_append]
    omega
  · intro frame outer hframe
    rw [hframesSecond _ _ (hframes frame outer hframe), List.append_assoc]
  · intro installed hinstalled
    rw [hlast.objects installed (hpiled.mem_of_mem hinstalled), h.objects installed hinstalled]

/-- What threads share does not matter. -/
theorem withProcess (h : machine.Grown most after) (process : Process) :
    machine.Grown most { after with process } :=
  ⟨⟨h.layered.alive, h.layered.distinct, h.layered.layers⟩, h.piled, h.objects⟩

theorem mono (h : machine.Grown most after) (hle : most ≤ more) : machine.Grown more after := by
  obtain ⟨first, hfirst, hpiled, hframes⟩ := h.piled
  exact ⟨h.layered, ⟨first, hfirst.trans hle, hpiled, hframes⟩, h.objects⟩

theorem height_le (h : machine.Grown most after) :
    after.thread.stack.height ≤ machine.thread.stack.height + most := by
  obtain ⟨first, hfirst, hpiled, -⟩ := h.piled
  have hsize := hpiled.size_eq
  unfold Stack.height
  omega

/-- Where nothing was opened, the same overrides are in place. -/
theorem entries_eq (h : machine.Grown 0 after) :
    after.thread.stack.entries = machine.thread.stack.entries := by
  obtain ⟨first, hfirst, hpiled, -⟩ := h.piled
  rw [List.eq_nil_of_length_eq_zero (Nat.le_zero.mp hfirst)] at hpiled
  exact hpiled.eq_of_nil

/-- What was in place does what it did. -/
theorem overrideOf_eq (h : machine.Grown most after) {installed : Installed ObjectId}
    (hinstalled : installed ∈ machine.thread.stack.entries) :
    after.overrideOf? installed.override = machine.overrideOf? installed.override := by
  unfold overrideOf?
  rw [h.objects installed hinstalled]

/-- Where nothing was opened, the chain is the same. -/
theorem chain_eq (h : machine.Grown 0 after) :
    after.chain after.thread.stack.current = machine.chain machine.thread.stack.current := by
  have hheight : after.thread.stack.height = machine.thread.stack.height :=
    congrArg Array.size h.entries_eq
  unfold Stack.current
  rw [chain_below le_rfl, chain_below le_rfl, hheight, h.entries_eq]
  refine List.filterMap_congr fun installed hinstalled ↦ h.overrideOf_eq ?_
  exact Array.mem_toList_iff.mp (List.mem_of_mem_take (List.mem_reverse.mp hinstalled))

end Machine.Grown

end Escalation
