import Mathlib
import Escalation.Session
import Escalation.Proofs.Capturing
import Escalation.Proofs.Course
import Escalation.Proofs.Discipline

/-!
# What failures come of

Failures are in slots and events, in records and in what is raised, and they come of drafts, which
are anywhere in programs and in the overrides that programs describe. The addresses of a failure are
known by the site where it arose, so those of one failure do not excuse another one (`Known`): they
are those that its draft gives, or the ones that the process captures (`Draft.taken`,
`Process.captured`).

What it means that the addresses of all failures are known is said once for each type (`Traced`): a
failure has a trace that holds the beginning of addresses that are known at its site, and an
operation gives no others (`Op.Gives`).

A part of a run bears this (`Run.Bears`) if from a state that is traced it goes to such a state,
with a value or an interrupt that is traced. So do the steps of which runs are made and everything
that is made of parts that do.
-/

set_option autoImplicit false
set_option relaxedAutoImplicit false

namespace Escalation

/-! ### Addresses that failures take -/

/-- The addresses that the failure of a draft takes, where `captured` are captured. -/
def Draft.taken (captured : List UInt64) (draft : Draft) : List UInt64 :=
  draft.origin.given?.getD captured

section Given

variable (captured : List UInt64)

/-- The sites and the addresses of the failures that an operation with this source makes. -/
def Source.given : Source → List (Site × List UInt64)
  | .made draft => [(draft.site, draft.taken captured)]
  | .slot _ | .handled => []

/-- The sites and the addresses of the failures that an operation with this line makes. -/
def LineRecipe.given (recipe : LineRecipe) : List (Site × List UInt64) :=
  match recipe.textOf with
  | some (_, source) => source.given captured
  | none => []

/-- The site and the addresses of what is raised, if it is a failure. -/
def Payload.given : Payload → List (Site × List UInt64)
  | .failure raised => [(raised.site, raised.trace.addresses)]
  | .message _ | .opaqueValue => []

/-- The sites and the addresses of the failures that an operation makes itself. -/
def Op.given : Op → List (Site × List UInt64)
  | .make _ draft => [(draft.site, draft.taken captured)]
  | .copy source _ | .describe source | .listContext source _ | .inspect source _ _
  | .report _ source _ | .throw source => source.given captured
  | .compare first second _ _ => first.given captured ++ second.given captured
  | .log line _ => line.given captured
  | .delegate source line | .handle _ _ source line => source.given captured ++ line.given captured
  | .panic payload => payload.given
  | _ => []

/-- An operation makes a failure of this site with these addresses, itself or in an operation inside
it. -/
inductive Op.Gives (site : Site) (addresses : List UInt64) : Op → Prop
  | itself {op : Op} : (site, addresses) ∈ op.given captured → Op.Gives site addresses op
  | inside {op inner : Op} : inner ∈ op.inner → Op.Gives site addresses inner →
    Op.Gives site addresses op

end Given

/-! ### What is traced -/

/-- What is known about the addresses of failures. -/
structure Known where
  /-- The addresses that are captured. -/
  captured : List UInt64
  /-- The addresses that a failure of a site may have. -/
  allows : Site → List UInt64 → Prop

/-- A type of values that failures may be in or come of. -/
class Bearing (α : Type) where
  /-- The failures in a value, and those that come of it, hold the beginning of addresses that are
  known at their sites. -/
  Traced : (known : Known) → α → Prop

open Bearing (Traced)

/-- Values without failures. -/
abbrev Bearing.trivial (α : Type) : Bearing α := ⟨fun _ _ ↦ True⟩

instance : Bearing Unit := .trivial Unit
instance : Bearing Bool := .trivial Bool
instance : Bearing ℕ := .trivial ℕ
instance : Bearing String := .trivial String
instance : Bearing Line := .trivial Line
instance : Bearing Link := .trivial Link
instance : Bearing Guard := .trivial Guard
instance : Bearing (Release ObjectId) := .trivial _
instance : Bearing Settings := .trivial Settings
instance : Bearing WriteAnswer := .trivial WriteAnswer
instance : Bearing Refusal := .trivial Refusal

instance {α : Type} [Bearing α] : Bearing (Option α) :=
  ⟨fun known value ↦ ∀ some ∈ value, Traced known some⟩

instance {ε α : Type} [Bearing ε] [Bearing α] : Bearing (Except ε α) where
  Traced known
    | .ok value => Traced known value
    | .error problem => Traced known problem

instance : Bearing Failure :=
  ⟨fun known failure ↦ ∃ addresses,
    known.allows failure.site addresses ∧ failure.trace.Holds addresses⟩

instance : Bearing Event where
  Traced known
    | .failure _ reported => Traced known reported
    | .line _ => True

instance : Bearing Payload where
  Traced known
    | .failure failure => Traced known failure
    | .message _ | .opaqueValue => True

instance : Bearing Handling := ⟨fun known handling ↦ Traced known handling.event⟩

/-- The failure of an answer. -/
def Answer.failure? : Answer → Option Failure
  | .failure found | .described found | .raised found => some found
  | _ => none

instance : Bearing Answer := ⟨fun known answer ↦ Traced known answer.failure?⟩

/-- The failure of a record. -/
def Record.failure? : Record → Option Failure
  | .performed _ answer => answer.failure?
  | .done _ _ raised | .ended _ raised => raised
  | .received _ (.failure _ reported) _ => some reported
  | .contained _ raised => some raised
  | .uncaught raised => some raised
  | _ => none

instance : Bearing Record := ⟨fun known entry ↦ Traced known entry.failure?⟩

/-! #### Programs -/

instance : Bearing Draft :=
  ⟨fun known draft ↦ known.allows draft.site (draft.taken known.captured)⟩

instance : Bearing Source :=
  ⟨fun known source ↦ ∀ made ∈ source.given known.captured, known.allows made.1 made.2⟩

instance : Bearing LineRecipe :=
  ⟨fun known recipe ↦ ∀ made ∈ recipe.given known.captured, known.allows made.1 made.2⟩

instance : Bearing Op :=
  ⟨fun known op ↦ ∀ site addresses, op.Gives known.captured site addresses →
    known.allows site addresses⟩

instance : Bearing Recipe := ⟨fun known recipe ↦ ∀ op ∈ recipe.ops, Traced known op⟩
instance : Bearing Override := ⟨fun known override ↦ ∀ op ∈ override.ops, Traced known op⟩

instance : Bearing Task where
  Traced known
    | .perform op => Traced known op
    | .deliver event _ => Traced known event
    | .closeFrame | .release _ => True

/-! #### States -/

/-- The failures of a thread have traces from known addresses, and so have those that its overrides
make. -/
structure Thread.IsTraced (known : Known) (thread : Thread) : Prop where
  slots : ∀ failure ∈ thread.slots.values, Traced known failure
  handling : Traced known thread.handling
  objects : ∀ object ∈ thread.objects, Traced known object.override

instance : Bearing Thread := ⟨Thread.IsTraced⟩

/-- The captured addresses are those that are known as such, also at the sites of statements and of
what did not start out as a failure, and recorded failures have traces from known addresses. -/
structure Process.IsTraced (known : Known) (process : Process) : Prop where
  captured : process.captured = known.captured
  statements : known.allows process.statementSite known.captured
  unclassified : known.allows Run.unknownSite known.captured
  records : ∀ entry ∈ process.records, Traced known entry

instance : Bearing Process := ⟨Process.IsTraced⟩

instance : Bearing Machine :=
  ⟨fun known machine ↦ Traced known machine.process ∧ Traced known machine.thread⟩

instance : Bearing Interrupt where
  Traced known
    | .raised payload => Traced known payload
    | .aborted | .exhausted | .stopped => True

instance {α : Type} [Bearing α] : Bearing (EStateM.Result Interrupt Machine α) where
  Traced known
    | .ok value after => Traced known value ∧ Traced known after
    | .error interrupt after => Traced known interrupt ∧ Traced known after

variable {known : Known}

section Options

variable {α : Type} [Bearing α] {value : Option α} {found : α}

theorem traced_of_eq_none (h : value = none) : Traced known value := by
  intro held hheld
  rw [h] at hheld
  cases hheld

theorem traced_of_eq_some (h : value = some found) (hfound : Traced known found) :
    Traced known value := by
  intro held hheld
  rw [h] at hheld
  exact Option.some_inj.mp hheld ▸ hfound

theorem traced_none : Traced known (none : Option α) := traced_of_eq_none rfl

theorem traced_some (h : Traced known found) : Traced known (some found) :=
  traced_of_eq_some rfl h

end Options

/-! ### Failures on their way -/

section Values

variable {failure : Failure} {event : Event} {op inner : Op}

/-- Only the site and the trace of a failure matter. -/
theorem traced_of_trace_eq {other : Failure} (hsite : other.site = failure.site)
    (htrace : other.trace = failure.trace) (hfailure : Traced known failure) :
    Traced known other := by
  obtain ⟨addresses, hknown, hholds⟩ := hfailure
  exact ⟨addresses, hsite ▸ hknown, htrace ▸ hholds⟩

theorem Event.traced_annotate (remark : Remark) (h : Traced known event) :
    Traced known (event.annotate remark) := by
  cases event with
  | failure severity reported => exact traced_of_trace_eq rfl (reported.trace_annotate remark) h
  | line sent => trivial

/-- A failure is made at the site of its draft. -/
theorem Draft.site_build (draft : Draft) (walk : List UInt64) :
    (draft.build walk).site = draft.site := by
  rw [build, Failure.annotateAll_eq]
  cases draft.origin <;> rfl

/-- A failure has the addresses that its draft takes. -/
theorem Draft.traced_build {draft : Draft} (h : Traced known draft) :
    Traced known (draft.build known.captured) := by
  refine ⟨draft.taken known.captured, ?_, draft.holds_build known.captured⟩
  rw [draft.site_build]
  exact h

/-- A failure that a program raises has the addresses that it has. -/
theorem Payload.traced_of_given {payload : Payload}
    (h : ∀ made ∈ payload.given, known.allows made.1 made.2) : Traced known payload := by
  cases payload with
  | failure raised => exact ⟨_, h _ List.mem_cons_self, raised.trace.holds_addresses⟩
  | message text => trivial
  | opaqueValue => trivial

theorem Op.traced_inner (h : Traced known op) (hinner : inner ∈ op.inner) :
    Traced known inner := fun site addresses hgives ↦ h site addresses (.inside hinner hgives)

/-- Repeated remarks touch neither the site of a failure nor its trace. -/
theorem traced_annotateRepeatedly (site : Site) (description : String) (times : ℕ)
    (h : Traced known failure) :
    Traced known (failure.annotateRepeatedly site description times) := by
  refine traced_of_trace_eq ?_ (failure.trace_annotateRepeatedly site description times) h
  rw [Failure.annotateRepeatedly_eq, Failure.annotateAll_eq]

namespace Process.IsTraced

variable {process : Process}

theorem recorded {entry : Record} (h : process.IsTraced known) (hentry : Traced known entry) :
    (process.recorded entry).IsTraced known := by
  have hpush {records : Array Record} {last : Record}
      (hrecords : ∀ earlier ∈ records, Traced known earlier) (hlast : Traced known last) :
      ∀ recorded ∈ records.push last, Traced known recorded := by
    intro recorded hrecorded
    rcases Array.mem_push.mp hrecorded with hbefore | rfl
    · exact hrecords recorded hbefore
    · exact hlast
  unfold Process.recorded Process.flushed
  split
  · exact ⟨h.captured, h.statements, h.unclassified, hpush h.records hentry⟩
  · exact ⟨h.captured, h.statements, h.unclassified,
      hpush (hpush h.records (traced_of_eq_none rfl)) hentry⟩

/-- Loading the settings changes nothing about what is captured, and its warning is no failure. -/
theorem asked (h : process.IsTraced known) : process.asked.IsTraced known := by
  unfold Process.asked Process.loaded
  have hsettled : IsTraced known (process.withSettings process.effectiveSettings) :=
    ⟨h.captured, h.statements, h.unclassified, h.records⟩
  have hwarnings : ∀ entry ∈ process.dueWarnings, Traced known entry := by
    intro entry hentry
    unfold Process.dueWarnings at hentry
    split at hentry
    · cases hentry
    · split at hentry
      · rw [List.mem_singleton.mp hentry]
        exact traced_of_eq_none rfl
      · cases hentry
  split
  · exact h
  · exact List.foldlRecOn _ _ hsettled fun _ hbefore entry hentry ↦
      hbefore.recorded (hwarnings entry hentry)

end Process.IsTraced

/-- An object that is found does what is traced, and counting its owners changes nothing of that. -/
theorem Thread.IsTraced.countOwners {thread : Thread} (h : thread.IsTraced known)
    {object : ObjectId} {held : Object} (hheld : thread.objects[object]? = some held)
    (owners : ℕ) :
    Traced known held.override ∧
      Traced known { thread with
        objects := thread.objects.setIfInBounds object { held with owners } } := by
  have hoverride := h.objects held (Array.mem_of_getElem? hheld)
  refine ⟨hoverride, h.slots, h.handling, fun other hother ↦ ?_⟩
  rcases Array.mem_or_eq_of_mem_setIfInBounds hother with hbefore | rfl
  · exact h.objects other hbefore
  · exact hoverride

end Values

/-! ### Parts of runs -/

namespace Run

/-- From a state that is traced, a part goes to such a state, with a value or an interrupt that is
traced. -/
def Bears (known : Known) {α : Type} [Bearing α] (part : Run α) : Prop :=
  ∀ machine : Machine, Traced known machine → Traced known (part machine)

namespace Bears

variable {α β : Type} [Bearing α] [Bearing β]

theorem pure {value : α} (h : Traced known value) :
    Bears known (Pure.pure value : Run α) := fun _ hmachine ↦ ⟨h, hmachine⟩

theorem throw {interrupt : Interrupt} (h : Traced known interrupt) :
    Bears known (throw interrupt : Run α) := fun _ hmachine ↦ ⟨h, hmachine⟩

theorem bind {part : Run α} {next : α → Run β} (hpart : Bears known part)
    (hnext : ∀ value, Traced known value → Bears known (next value)) :
    Bears known (part >>= next) := by
  intro machine hmachine
  have hend := hpart machine hmachine
  change Traced known (EStateM.bind part next machine)
  unfold EStateM.bind
  cases hresult : part machine with
  | ok value after =>
    rw [hresult] at hend
    exact hnext value hend.1 after hend.2
  | error interrupt after =>
    rw [hresult] at hend
    exact hend

theorem map {part : Run α} {change : α → β} (hpart : Bears known part)
    (hchange : ∀ value, Traced known value → Traced known (change value)) :
    Bears known (change <$> part) := by
  rw [map_eq_pure_bind]
  exact hpart.bind fun value hvalue ↦ .pure (hchange value hvalue)

theorem forM {γ : Type} {items : List γ} {part : γ → Run Unit}
    (h : ∀ item ∈ items, Bears known (part item)) : Bears known (items.forM part) := by
  induction items with
  | nil => exact .pure trivial
  | cons item rest ih =>
    rw [List.forM_eq_forM, List.forM_cons]
    refine (h item List.mem_cons_self).bind fun _ _ ↦ ?_
    exact ih fun other hother ↦ h other (List.mem_cons_of_mem item hother)

/-- What is raised and handed over stays traced. -/
theorem intercept {body : Run α} (hbody : Bears known body) : Bears known (Run.intercept body) := by
  intro machine hmachine
  have hend := hbody machine hmachine
  unfold Run.intercept
  split
  case h_1 value after hresult =>
    rw [hresult] at hend
    exact hend
  case h_2 payload after hresult =>
    rw [hresult] at hend
    obtain ⟨hpayload, hprocess, hthread⟩ := hend
    exact ⟨hpayload, hprocess, hthread.slots, hthread.handling, hthread.objects⟩
  case h_3 interrupt after _ hresult =>
    rw [hresult] at hend
    exact hend

theorem andFinally {body : Run α} {cleanup : Run Unit} (hbody : Bears known body)
    (hcleanup : Bears known cleanup) : Bears known (Run.andFinally body cleanup) := by
  intro machine hmachine
  have hend := hbody machine hmachine
  unfold Run.andFinally
  split
  case h_1 value after hresult =>
    rw [hresult] at hend
    have hlast := hcleanup after hend.2
    split <;> rename_i htidy <;> rw [htidy] at hlast
    · exact ⟨hend.1, hlast.2⟩
    · exact hlast
  case h_2 payload after hresult =>
    rw [hresult] at hend
    have hlast := hcleanup after hend.2
    split
    case h_1 last htidy => exact ⟨hend.1, (htidy ▸ hlast).2⟩
    case h_2 last htidy => exact ⟨trivial, (htidy ▸ hlast).2⟩
    case h_3 interrupt last _ htidy =>
      rw [htidy] at hlast
      exact hlast
  case h_3 interrupt after _ hresult =>
    rw [hresult] at hend
    exact hend

/-! #### Steps -/

theorem updateThread {change : Thread → α × Thread} (h : ∀ thread, Traced known thread →
    Traced known (change thread).1 ∧ Traced known (change thread).2) :
    Bears known (updateThread change) := fun _ hmachine ↦
  have hchanged := h _ hmachine.2
  ⟨hchanged.1, hmachine.1, hchanged.2⟩

theorem modifyThread {change : Thread → Thread}
    (h : ∀ thread, Traced known thread → Traced known (change thread)) :
    Bears known (modifyThread change) := fun _ hmachine ↦
  ⟨trivial, hmachine.1, h _ hmachine.2⟩

/-- A change of a thread by which no failure and no override comes in. -/
theorem modifyThread_of_same {change : Thread → Thread} (h : ∀ thread,
      (change thread).slots = thread.slots ∧ (change thread).handling = thread.handling ∧
        (change thread).objects = thread.objects) : Bears known (Run.modifyThread change) := by
  refine .modifyThread fun thread hthread ↦ ?_
  obtain ⟨hslots, hhandling, hobjects⟩ := h thread
  exact ⟨hslots ▸ hthread.slots, hhandling ▸ hthread.handling, hobjects ▸ hthread.objects⟩

theorem thread : Bears known thread := fun _ hmachine ↦ ⟨hmachine.2, hmachine⟩

theorem process : Bears known process := fun _ hmachine ↦ ⟨hmachine.1, hmachine⟩

theorem modifyProcess {change : Process → Process}
    (h : ∀ process, Traced known process → Traced known (change process)) :
    Bears known (modifyProcess change) := fun _ hmachine ↦
  ⟨trivial, h _ hmachine.1, hmachine.2⟩

/-- A change of what threads share by which no failure comes in. -/
theorem modifyProcess_of_same {change : Process → Process} (h : ∀ process,
      (change process).captured = process.captured ∧
        (change process).statementSite = process.statementSite ∧
          (change process).records = process.records) :
    Bears known (Run.modifyProcess change) := by
  refine .modifyProcess fun process hprocess ↦ ?_
  obtain ⟨hcaptured, hsite, hrecords⟩ := h process
  exact ⟨hcaptured.trans hprocess.captured, hsite ▸ hprocess.statements, hprocess.unclassified,
    hrecords ▸ hprocess.records⟩

/-- Changes of the stack are no changes of what its overrides do. -/
theorem updateStack {change : Stack ObjectId → α × Stack ObjectId}
    (h : ∀ stack, Traced known (change stack).1) : Bears known (updateStack change) :=
  .updateThread fun _ hthread ↦ ⟨h _, hthread.slots, hthread.handling, hthread.objects⟩

theorem height : Bears known height := .bind .thread fun _ _ ↦ .pure trivial

theorem current : Bears known current := .bind .thread fun _ _ ↦ .pure trivial

theorem isUnwinding : Bears known isUnwinding := .bind .thread fun _ _ ↦ .pure trivial

theorem store {slot : String} {failure : Failure} (h : Traced known failure) :
    Bears known (store slot failure) := by
  refine .modifyThread fun thread hthread ↦ ⟨fun held hheld ↦ ?_, hthread.handling, hthread.objects⟩
  rcases Table.mem_values_of_mem_insert hheld with rfl | hbefore
  · exact h
  · exact hthread.slots held hbefore

/-! #### Output and settings -/

theorem record {entry : Record} (h : Traced known entry) : Bears known (record entry) :=
  fun _ hmachine ↦ ⟨trivial, hmachine.1.recorded h, hmachine.2⟩

theorem writeDiagnostics {text : String} : Bears known (writeDiagnostics text) :=
  .modifyProcess_of_same fun _ ↦ ⟨rfl, rfl, rfl⟩

/-- A record without a failure. -/
theorem record_of_none {entry : Record} (h : entry.failure? = none) :
    Bears known (Run.record entry) := .record (traced_of_eq_none h)

theorem traceEvent {level : Level} {target text : String} :
    Bears known (traceEvent level target text) := by
  refine Bears.process.bind fun process _ ↦ ?_
  split
  · exact .record_of_none rfl
  · exact .pure trivial

theorem settings : Bears known settings := by
  intro machine hmachine
  rw [settings_eq_asked]
  exact ⟨trivial, hmachine.1.asked, hmachine.2⟩

/-- The policy of the process changes nothing about what is captured. -/
theorem rootSettings : Bears known rootSettings := by
  refine Bears.process.bind fun process _ ↦ ?_
  split
  · exact .pure trivial
  · exact settings.bind fun _ _ ↦ Bears.bind (.modifyProcess_of_same fun _ ↦ ⟨rfl, rfl, rfl⟩)
      fun _ _ ↦ .pure trivial

theorem build {draft : Draft} (h : Traced known draft) : Bears known (build draft) := by
  intro machine hmachine
  rw [build_eq, hmachine.1.captured]
  refine ⟨draft.traced_build h, ?_, hmachine.2⟩
  unfold Process.drafted
  split
  · exact hmachine.1.asked
  · exact hmachine.1

/-! #### Raising and catching -/

theorem give {notice : Notice} : Bears known (give notice) := by
  cases notice with
  | written text => exact writeDiagnostics
  | noted message => exact .record_of_none rfl

theorem raise {payload : Payload} (h : Traced known payload) :
    Bears known (raise payload : Run α) := by
  have htold : Bears known (reportRaise payload) :=
    process.bind fun _ _ ↦ thread.bind fun _ _ ↦ .forM fun _ _ ↦ .give
  refine Bears.bind (.modifyThread_of_same fun _ ↦ ⟨rfl, rfl, rfl⟩) fun _ _ ↦ ?_
  exact htold.bind fun _ _ ↦ .throw h

theorem installHook : Bears known installHook := by
  refine process.bind fun process _ ↦ ?_
  split
  · exact .pure trivial
  · exact .raise trivial
  · refine isUnwinding.bind fun unwinding _ ↦ ?_
    split
    · refine Bears.bind (.modifyProcess_of_same fun _ ↦ ⟨rfl, rfl, rfl⟩) fun _ _ ↦ .raise trivial
    · exact .modifyProcess_of_same fun _ ↦ ⟨rfl, rfl, rfl⟩

/-- A message becomes a failure with the addresses that are captured. -/
theorem absorb {payload : Payload} (h : Traced known payload) : Bears known (absorb payload) := by
  intro machine hmachine
  cases payload with
  | failure raised => exact ⟨h, hmachine⟩
  | message text => exact Bears.build hmachine.1.unclassified machine hmachine
  | opaqueValue => exact Bears.build hmachine.1.unclassified machine hmachine

theorem catching {body : Run α} (hbody : Bears known body) : Bears known (Run.catching body) := by
  refine hbody.intercept.bind fun outcome houtcome ↦ ?_
  cases outcome with
  | ok value => exact .pure houtcome
  | error payload => exact (absorb houtcome).bind fun _ hfailure ↦ .pure hfailure

theorem withHandling {handling : Option Handling} {body : Run α} (h : Traced known handling)
    (hbody : Bears known body) : Bears known (Run.withHandling handling body) := by
  refine thread.bind fun before hbefore ↦ ?_
  refine Bears.bind (.modifyThread fun _ hthread ↦ ⟨hthread.slots, h, hthread.objects⟩) fun _ _ ↦ ?_
  exact hbody.andFinally (.modifyThread fun _ hthread ↦
    ⟨hthread.slots, hbefore.handling, hthread.objects⟩)

/-! #### Refusals -/

theorem run_pure {value : α} (h : Traced known value) :
    Bears known (Pure.pure value : Attempt α).run := Bears.pure h

/-- An operation goes on with a value unless it is refused. -/
theorem run_bind {part : Attempt α} {next : α → Attempt β} (hpart : Bears known part.run)
    (hnext : ∀ value, Traced known value → Bears known (next value).run) :
    Bears known (part >>= next).run := by
  rw [ExceptT.run_bind]
  refine hpart.bind fun outcome houtcome ↦ ?_
  cases outcome with
  | ok value => exact hnext value houtcome
  | error refusal => exact .pure trivial

theorem run_liftM {part : Run α} (hpart : Bears known part) :
    Bears known (liftM part : Attempt α).run := hpart.map fun _ hvalue ↦ hvalue

theorem run_refuse {refusal : Refusal} : Bears known (refuse refusal : Attempt α).run :=
  .pure trivial

theorem run_require {refusal : Refusal} {value : Option α} (h : Traced known value) :
    Bears known (require refusal value).run := by
  cases value with
  | none => exact .run_refuse
  | some found => exact .run_pure (h found rfl)

theorem attempt {op : Op} {action : Attempt Answer} (haction : Bears known action.run) :
    Bears known (Run.attempt op action) := by
  refine Bears.bind haction fun outcome houtcome ↦ ?_
  cases outcome with
  | ok answer => exact .record houtcome
  | error refusal => exact .record_of_none rfl

/-! #### Objects -/

theorem newObject {override : Override} (h : Traced known override) :
    Bears known (newObject override) := by
  refine .updateThread fun thread hthread ↦
    ⟨trivial, hthread.slots, hthread.handling, fun object hobject ↦ ?_⟩
  rcases Array.mem_push.mp hobject with hbefore | rfl
  · exact hthread.objects object hbefore
  · exact h

theorem acquire {object : ObjectId} : Bears known (acquire object) := by
  refine .updateThread fun thread hthread ↦ ?_
  split
  · exact ⟨traced_none, hthread⟩
  · rename_i held hheld
    have h := hthread.countOwners hheld (held.owners + 1)
    exact ⟨traced_some h.1, h.2⟩

theorem disown {object : ObjectId} : Bears known (disown object) := by
  refine .updateThread fun thread hthread ↦ ?_
  split
  · exact ⟨traced_none, hthread⟩
  · rename_i held hheld
    have h := hthread.countOwners hheld (held.owners - 1)
    refine ⟨?_, h.2⟩
    split
    · exact traced_some h.1
    · exact traced_none

/-! #### Finding what an operation names -/

theorem handledFailure? : Bears known handledFailure? := by
  refine thread.bind fun thread hthread ↦ ?_
  split
  · rename_i hhandling
    exact .pure (traced_some (hthread.handling _ hhandling))
  · exact .pure traced_none

theorem handledLine? : Bears known handledLine? := by
  refine thread.bind fun thread hthread ↦ ?_
  split
  · exact .pure (traced_some trivial)
  · exact .pure traced_none

/-- A copy has the trace of what it is a copy of. -/
theorem findFailure {source : Source} (h : Traced known source) :
    Bears known (findFailure source).run := by
  cases source with
  | slot name =>
    refine (run_liftM thread).run_bind fun thread hthread ↦ Bears.run_bind (.run_require ?_) ?_
    · exact fun held hheld ↦ hthread.slots held (Table.mem_values_of_find? hheld)
    · exact fun held hheld ↦ .run_pure (traced_of_trace_eq rfl held.trace_copy hheld)
  | handled =>
    refine (run_liftM handledFailure?).run_bind fun found hfound ↦ ?_
    refine Bears.run_bind (.run_require hfound) fun held hheld ↦ ?_
    exact .run_pure (traced_of_trace_eq rfl held.trace_copy hheld)
  | made draft =>
    exact .run_liftM (.build (h _ List.mem_cons_self))

theorem buildLine {recipe : LineRecipe} (h : Traced known recipe) :
    Bears known (buildLine recipe).run := by
  have hsource {part : TextPart} {source : Source} (htext : recipe.textOf = some (part, source)) :
      Traced known source := by
    simpa [Traced, LineRecipe.given, htext] using h
  refine (run_liftM handledLine?).run_bind fun handled _ ↦ ?_
  dsimp only
  split
  · rename_i htext
    exact (findFailure (hsource htext)).run_bind fun _ _ ↦ .run_pure trivial
  · rename_i htext
    exact (findFailure (hsource htext)).run_bind fun _ _ ↦ .run_pure trivial
  · exact .run_pure trivial

theorem findLink {destination : Destination} : Bears known (findLink destination).run := by
  cases destination with
  | current => exact .run_liftM .current
  | next =>
    refine (run_liftM thread).run_bind fun thread hthread ↦ ?_
    refine Bears.run_bind (.run_require hthread.handling) fun handling _ ↦ ?_
    exact .run_pure trivial
  | _ => exact .run_pure trivial

theorem findPolicy {name : String} : Bears known (findPolicy name).run := by
  refine (run_liftM thread).run_bind fun thread _ ↦ .run_require ?_
  exact fun _ _ ↦ trivial

theorem findEvent {kind : EventKind} {source : Source} {line : LineRecipe}
    (hsource : Traced known source) (hline : Traced known line) :
    Bears known (findEvent kind source line).run := by
  cases kind with
  | failure severity =>
    exact (findFailure hsource).run_bind fun _ hfailure ↦ .run_pure hfailure
  | line => exact (buildLine hline).run_bind fun _ _ ↦ .run_pure trivial

theorem obtain {recipe : Recipe} (h : Traced known recipe) : Bears known (obtain recipe).run := by
  cases recipe with
  | policy name =>
    exact findPolicy.run_bind fun _ _ ↦ .run_liftM (.newObject (by simp [Traced, Override.ops]))
  | shared name =>
    refine (run_liftM thread).run_bind fun thread _ ↦ ?_
    refine Bears.run_bind (.run_require fun _ _ ↦ trivial) fun object _ ↦ ?_
    exact (run_liftM acquire).run_bind fun _ _ ↦ .run_pure trivial
  | _ => exact .run_liftM (.newObject h)

theorem takeGuard? {name : String} : Bears known (takeGuard? name) := by
  refine thread.bind fun thread hthread ↦ ?_
  split
  · exact .pure traced_none
  · refine Bears.bind (.modifyThread_of_same fun _ ↦ ⟨rfl, rfl, rfl⟩) fun _ _ ↦ ?_
    exact .pure (traced_some trivial)

theorem findGuard? {name : String} : Bears known (findGuard? name) :=
  thread.bind fun _ _ ↦ .pure fun _ _ ↦ trivial

theorem keepGuard {name : String} {guard : Guard} {outermost : Bool} :
    Bears known (keepGuard name guard outermost) :=
  .modifyThread_of_same fun _ ↦ ⟨rfl, rfl, rfl⟩

/-! #### Operations without tasks -/

/-- An answer without a failure. -/
theorem run_answer {answer : Answer} (h : answer.failure? = none) :
    Bears known (Pure.pure answer : Attempt Answer).run := .run_pure (traced_of_eq_none h)

/-- Remarks do not touch the trace, wherever the failure is that they are attached to. -/
theorem annotate {target : Target} {site : Site} {description : String} {times : ℕ} :
    Bears known (annotate target site description times).run := by
  cases target with
  | slot name =>
    refine (run_liftM thread).run_bind fun thread hthread ↦ ?_
    refine Bears.run_bind (.run_require fun held hheld ↦ ?_) fun held hheld ↦ ?_
    · exact hthread.slots held (Table.mem_values_of_find? hheld)
    · have hannotated : Traced known (held.annotateRepeatedly site description times) :=
        traced_annotateRepeatedly site description times hheld
      exact (run_liftM (.store hannotated)).run_bind fun _ _ ↦ .run_answer rfl
  | handled =>
    refine (run_liftM thread).run_bind fun thread hthread ↦ ?_
    split
    · rename_i severity reported next hhandling
      have hannotated : Traced known (reported.annotateRepeatedly site description times) :=
        traced_annotateRepeatedly site description times (hthread.handling _ hhandling)
      refine Bears.run_bind (.run_liftM (.modifyThread fun _ h ↦ ⟨h.slots, ?_, h.objects⟩))
        fun _ _ ↦ .run_answer rfl
      exact traced_some hannotated
    · exact .run_refuse

theorem inspect {source : Source} {part : Part} {layout : Text.Layout} (h : Traced known source) :
    Bears known (inspect source part layout).run := by
  refine (run_liftM process).run_bind fun process _ ↦ ?_
  split
  · exact .run_refuse
  · refine (findFailure h).run_bind fun failure _ ↦ ?_
    cases part <;> exact .run_answer rfl

theorem inspectOverride {recipe : Recipe} : Bears known (inspectOverride recipe).run := by
  cases recipe with
  | context remark => exact .run_answer rfl
  | bridge level => exact .run_answer rfl
  | _ => exact .run_refuse

/-- An answer without a failure, where nothing is refused. -/
theorem answer {answer : Answer} (h : answer.failure? = none) :
    Bears known (Pure.pure answer : Run Answer) := .pure (traced_of_eq_none h)

theorem makePolicy {name : String} {recipe : PolicyRecipe} :
    Bears known (makePolicy name recipe) := by
  refine process.bind fun process _ ↦ ?_
  refine Bears.bind (.modifyThread_of_same fun _ ↦ ⟨rfl, rfl, rfl⟩) fun _ _ ↦ ?_
  exact .answer rfl

theorem inspectWriter {index : ℕ} : Bears known (inspectWriter index) := by
  refine thread.bind fun thread _ ↦ ?_
  split
  · exact .answer rfl
  · exact .answer rfl

theorem captureInto {capacity : ℕ} : Bears known (captureInto capacity) :=
  process.bind fun _ _ ↦ .answer rfl

/-! #### Lines -/

theorem modifyWriter {index : ℕ} {change : ScriptedWriter → ScriptedWriter} :
    Bears known (modifyWriter index change) :=
  .modifyThread_of_same fun _ ↦ ⟨rfl, rfl, rfl⟩

theorem offer {index : ℕ} {bytes : List UInt8} : Bears known (offer index bytes) := by
  refine thread.bind fun thread _ ↦ ?_
  split
  · exact modifyWriter.bind fun _ _ ↦ .pure trivial
  · exact modifyWriter.bind fun _ _ ↦ .raise trivial

theorem writeFully {write : List UInt8 → Run WriteAnswer} {flush : Run Unit}
    (hwrite : ∀ bytes, Bears known (write bytes)) (hflush : Bears known flush)
    {bytes : List UInt8} : Bears known (writeFully write flush bytes) := by
  induction bytes using writeFully.induct with
  | case1 => rwa [writeFully_nil]
  | case2 byte rest ih =>
    rw [writeFully_cons]
    refine (hwrite _).bind fun answer _ ↦ ?_
    split
    · exact .pure trivial
    · exact .pure trivial
    · exact ih _

theorem forward {level : Level} {sent : Line} : Bears known (forward level sent) :=
  settings.bind fun _ _ ↦ .record_of_none rfl

end Bears

end Run

end Escalation
