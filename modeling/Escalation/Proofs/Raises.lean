import Mathlib
import Escalation.Proofs.Reporting
import Escalation.Proofs.Releasing
import Escalation.Proofs.Dispatch
import Escalation.Proofs.Catching

/-!
# How often raises are told

A part of a run makes certain raises and tells nothing else if whatever hook listens is told of just
these, one after another, and nothing comes on the diagnostic stream that the hook does not write
(`Run.Raises`). Which raises a part makes follows from its parts: what is raised is raised once
(`Machine.Raising.throws`), catches and cleanups add nothing of their own, and a thread makes the
raises of its operations (`Run.raises_perform_thread`).

What the hook of the library writes of a series of raises, and what the hook behind it is shown, is
known exactly then (`Run.Raises.seen`), and so it is in the life of a process (`raises_told_once`).
-/

set_option autoImplicit false
set_option relaxedAutoImplicit false

namespace Escalation

/-! ### What is seen of a raise -/

/-- What the hook of the library writes about a raise. -/
def Raise.shown (raise : Raise) : String :=
  match raise.payload with
  | .failure failure =>
    "thread '" ++ raise.thread.getD "<unnamed>" ++ "' raised exception:\n" ++ failure.text ++ "\n"
  | .message _ | .opaqueValue => ""

/-- What a hook that makes notes has of a raise behind the hook of the library. -/
def Raise.noted (notes : Raise → List (Option String)) (raise : Raise) : List (Option String) :=
  match raise.payload with
  | .failure _ => []
  | .message _ | .opaqueValue => notes raise

/-- What a hook noted. -/
def Record.note? : Record → Option (Option String)
  | .passedOn message => some message
  | _ => none

/-- A record that is neither part of the diagnostic stream nor a note of a hook. -/
def Record.Mute (entry : Record) : Prop := entry.writtenPart = "" ∧ entry.note? = none

/-- All that hooks noted. -/
def Process.notes (process : Process) : List (Option String) :=
  process.records.toList.filterMap Record.note?

theorem Process.notes_recorded (process : Process) (entry : Record) :
    (process.recorded entry).notes = process.notes ++ entry.note?.toList := by
  have hflushed : process.flushed.notes = process.notes := by
    unfold flushed
    split
    · rfl
    · simp [notes, Record.note?]
  rw [← hflushed]
  cases hnote : entry.note? <;> simp [notes, recorded, hnote]

/-- A warning about the settings is mute. -/
theorem Record.mute_of_warning {entry : Record} (h : entry.isWarning = true) : entry.Mute := by
  cases entry with
  | logged level target text => exact ⟨rfl, rfl⟩
  | _ => cases h

/-- What is raised, where something is. -/
def Happening.raise? : Happening → Option Raise
  | .raised raise => some raise
  | .recorded _ | .written _ => none

/-- Something is raised, or a mute record is made. -/
def Happening.Mute : Happening → Prop
  | .raised _ => True
  | .recorded entry => entry.Mute
  | .written _ => False

/-- The process that has put out something. -/
def Output.process (output : Output) : Process :=
  { Process.initial with records := output.records, diagnostics := output.diagnostics }

theorem Output.process_recorded (output : Output) (entry : Record) :
    (output.recorded entry).process = output.process.recorded entry := by
  have hflushed : output.flushed.process = output.process.flushed := by
    unfold flushed Process.flushed
    change (if output.diagnostics.isEmpty then _ else _ : Output).process =
      if output.diagnostics.isEmpty then _ else _
    split <;> rfl
  unfold recorded Process.recorded
  rw [← hflushed]
  rfl

/-- A hook that makes notes leaves them, and nothing else. -/
theorem Output.foldl_noticed (notes : List (Option String)) (output : Output) :
    let after := (notes.map Notice.noted).foldl noticed output
    after.process.written = output.process.written ∧
      after.process.notes = output.process.notes ++ notes := by
  induction notes generalizing output with
  | nil => simp
  | cons message rest ih =>
    obtain ⟨hwritten, hnotes⟩ := ih (output.recorded (.passedOn message))
    rw [process_recorded] at hwritten hnotes
    refine ⟨hwritten.trans ?_, hnotes.trans ?_⟩
    · exact ((output.process.shows_recorded _).written).trans String.append_empty
    · simp [Process.notes_recorded, Record.note?]

section Notes

variable (notes : Raise → List (Option String)) (output : Output)

/-- What comes out of a raise, told to the hook of the library in front of one that makes notes. -/
theorem Output.tell_raised (raise : Raise) :
    let after := Happening.tell (.reporting (.foreign notes)) output (.raised raise)
    after.process.written = output.process.written ++ raise.shown ∧
      after.process.notes = output.process.notes ++ raise.noted notes := by
  obtain ⟨thread, payload⟩ := raise
  have hnoted := output.foldl_noticed (notes { thread, payload })
  cases payload with
  | failure failure =>
    constructor
    · simp [Happening.tell, Hook.notices, noticed, written, Process.written, process,
        Raise.shown, Hook.report, String.append_assoc]
    · simp [Happening.tell, Hook.notices, noticed, written, Process.notes, process, Raise.noted]
  | message text => exact ⟨hnoted.1.trans String.append_empty.symm, hnoted.2⟩
  | opaqueValue => exact ⟨hnoted.1.trans String.append_empty.symm, hnoted.2⟩

/-- What comes out of raises among mute records. -/
theorem Output.foldl_tell {story : List Happening}
    (hmute : ∀ happening ∈ story, happening.Mute) :
    let raises := story.filterMap Happening.raise?
    let after := story.foldl (Happening.tell (.reporting (.foreign notes))) output
    after.process.written = output.process.written ++ String.join (raises.map Raise.shown) ∧
      after.process.notes = output.process.notes ++ raises.flatMap (Raise.noted notes) := by
  induction story generalizing output with
  | nil => simp
  | cons happening rest ih =>
    have hfirst := hmute happening List.mem_cons_self
    have hrest := fun output ↦ ih output fun other hother ↦
      hmute other (List.mem_cons_of_mem _ hother)
    cases happening with
    | written text => cases hfirst
    | recorded entry =>
      obtain ⟨hwritten, hnotes⟩ := hrest (output.recorded entry)
      rw [process_recorded] at hwritten hnotes
      rw [(output.process.shows_recorded entry).written, hfirst.1, String.append_empty] at hwritten
      rw [Process.notes_recorded, hfirst.2, Option.toList_none, List.append_nil] at hnotes
      exact ⟨hwritten, hnotes⟩
    | raised raise =>
      obtain ⟨hwritten, hnotes⟩ := output.tell_raised notes raise
      obtain ⟨hwrittenRest, hnotesRest⟩ := hrest
        (Happening.tell (.reporting (.foreign notes)) output (.raised raise))
      rw [hwritten] at hwrittenRest
      rw [hnotes] at hnotesRest
      constructor
      · refine hwrittenRest.trans ?_
        simp [Happening.raise?, String.append_assoc]
      · refine hnotesRest.trans ?_
        simp [Happening.raise?]

end Notes

namespace Run

/-! ### Parts that make certain raises -/

/-- Where the hook of the library is in front, a part makes these raises, one after another, and
tells nothing else: neither does it write to the diagnostic stream nor is a hook told more, whatever
hook that is. -/
structure Raises {α : Type} (part : Run α) (machine : Machine) (raises : List Raise) : Prop where
  done : machine.process.hookSetup = .done
  story : ∃ story : List Happening, Recounts part machine [] story ∧
    (∀ happening ∈ story, happening.Mute) ∧ story.filterMap Happening.raise? = raises

/-- A part that raises nothing and tells nothing. -/
def Hushed {α : Type} (part : Run α) : Prop :=
  ∀ machine : Machine, machine.process.hookSetup = .done → Raises part machine []

namespace Raises

variable {α β : Type} {part : Run α} {machine after : Machine} {value : α}
  {raises more : List Raise}

theorem stays (h : Raises part machine raises) :
    (left (part machine)).process.hookSetup = .done := by
  obtain ⟨story, hstory, -⟩ := h.story
  exact hstory.stays h.done

theorem stays_of_ok (h : Raises part machine raises) (hpart : part machine = .ok value after) :
    after.process.hookSetup = .done := by
  have hstays := h.stays
  rwa [hpart] at hstays

/-- What is raised is raised once, under the name of its thread. -/
theorem raise (payload : Payload) (hdone : machine.process.hookSetup = .done) :
    Raises (Run.raise payload : Run α) machine [{ thread := machine.thread.name, payload }] := by
  have h := @Recounts.raise α payload machine
  rw [if_pos hdone, if_pos hdone] at h
  exact ⟨hdone, _, h, by simp [Happening.Mute], rfl⟩

/-- A mute record. -/
theorem record {entry : Record} (hentry : entry.Mute) (hdone : machine.process.hookSetup = .done) :
    Raises (Run.record entry) machine [] := by
  have h := Recounts.record entry machine
  rw [if_pos hdone, if_pos hdone] at h
  exact ⟨hdone, _, h, by simpa [Happening.Mute] using hentry, rfl⟩

/-- A part that does the same whoever listens. -/
theorem of_silent (hdone : machine.process.hookSetup = .done)
    (hpart : part machine = .ok value after)
    (hsetup : after.process.hookSetup = machine.process.hookSetup)
    (hvoiced : ∀ listeners output, part (machine.voiced listeners output) =
      .ok value (after.voiced listeners output)) : Raises part machine [] :=
  ⟨hdone, [], .of_silent hpart hsetup hvoiced, by simp, rfl⟩

/-- A part that does what another one does. -/
theorem of_eq {other : Run α} {start : Machine} (h : Raises other start raises)
    (hdone : machine.process.hookSetup = .done) (hpart : part machine = other start)
    (hvoiced : ∀ listeners output,
      part (machine.voiced listeners output) = other (start.voiced listeners output)) :
    Raises part machine raises := by
  obtain ⟨story, hstory, hmute, hraises⟩ := h.story
  exact ⟨hdone, story, hstory.of_eq (iff_of_true h.done hdone) hpart hvoiced, hmute, hraises⟩

theorem bind_of_ok {next : α → Run β} (h : Raises part machine raises)
    (hpart : part machine = .ok value after) (hnext : Raises (next value) after more) :
    Raises (part >>= next) machine (raises ++ more) := by
  obtain ⟨story, hstory, hmute, rfl⟩ := h.story
  obtain ⟨rest, hrest, hmuteRest, rfl⟩ := hnext.story
  refine ⟨h.done, story ++ rest, hstory.bind_of_ok hpart hrest, fun happening hmem ↦ ?_,
    List.filterMap_append⟩
  exact (List.mem_append.mp hmem).elim (hmute happening) (hmuteRest happening)

theorem bind_of_error {next : α → Run β} {interrupt : Interrupt} (h : Raises part machine raises)
    (hpart : part machine = .error interrupt after) : Raises (part >>= next) machine raises := by
  obtain ⟨story, hstory, hmute, hraises⟩ := h.story
  exact ⟨h.done, story, hstory.bind_of_error hpart, hmute, hraises⟩

/-- What comes before raises nothing here. -/
theorem after_silence {next : α → Run β} (h : Raises part machine [])
    (hpart : part machine = .ok value after) (hnext : Raises (next value) after raises) :
    Raises (part >>= next) machine raises := h.bind_of_ok hpart hnext

/-- What comes before raises nothing anywhere. -/
theorem behind {next : α → Run β} (h : Hushed part) (hdone : machine.process.hookSetup = .done)
    (hpart : part machine = .ok value after) (hnext : Raises (next value) after raises) :
    Raises (part >>= next) machine raises := (h machine hdone).after_silence hpart hnext

/-- A cleanup adds nothing but its own raises. -/
theorem andFinally {cleanup : Run Unit} (h : Raises part machine raises)
    (hgoes : goesOn (part machine) = true) (hcleanup : Raises cleanup (left (part machine)) more) :
    Raises (Run.andFinally part cleanup) machine (raises ++ more) := by
  obtain ⟨story, hstory, hmute, rfl⟩ := h.story
  obtain ⟨rest, hrest, hmuteRest, rfl⟩ := hcleanup.story
  refine ⟨h.done, story ++ rest, hstory.andFinally hgoes hrest, fun happening hmem ↦ ?_,
    List.filterMap_append⟩
  exact (List.mem_append.mp hmem).elim (hmute happening) (hmuteRest happening)

/-- What is raised is handed over without another word. -/
theorem intercept (h : Raises part machine raises) :
    Raises (Run.intercept part) machine raises := by
  obtain ⟨story, hstory, hmute, hraises⟩ := h.story
  exact ⟨h.done, story, hstory.intercept, hmute, hraises⟩

/-- What is seen of the raises of a part. -/
theorem seen (h : Raises part machine raises) {notes : Raise → List (Option String)}
    (hhook : machine.process.hook = .reporting (.foreign notes)) :
    (left (part machine)).process.written =
        machine.process.written ++ String.join (raises.map Raise.shown) ∧
      (left (part machine)).process.notes =
        machine.process.notes ++ raises.flatMap (Raise.noted notes) ∧
      (left (part machine)).process.hook = .reporting (.foreign notes) := by
  obtain ⟨story, hstory, hmute, rfl⟩ := h.story
  let listeners : Listeners := { before := machine.process.hook, behind := machine.process.hook }
  let output : Output :=
    { records := machine.process.records, diagnostics := machine.process.diagnostics }
  have hsame : machine.voiced listeners output = machine := by
    have hfront : machine.process.front listeners = machine.process.hook := ite_self _
    unfold Machine.voiced Process.voiced
    rw [hfront]
  have hends := hstory.ends output (.inl h.done : machine.process.Admits listeners)
  rw [hsame] at hends
  let told := story.foldl (Happening.tell machine.process.hook) output
  have hleft : (left (part machine)).process =
      (left (part machine)).process.voiced listeners told := by
    conv_lhs => rw [hends, left_leaving]
    rfl
  obtain ⟨hwritten, hnotes⟩ := output.foldl_tell notes hmute
  rw [← hhook] at hwritten hnotes
  refine ⟨?_, ?_, ?_⟩
  · rw [hleft]
    exact hwritten
  · rw [hleft]
    exact hnotes
  · rw [hleft]
    exact (if_pos h.stays).trans hhook

end Raises

/-! ### Silent parts -/

namespace Hushed

variable {α β : Type}

/-- A part that returns, does not put a hook in front, and does the same whoever listens. -/
theorem of_ok {part : Run α} (value : Machine → α) (change : Machine → Machine)
    (hpart : ∀ machine, part machine = .ok (value machine) (change machine))
    (hsetup : ∀ machine, (change machine).process.hookSetup = machine.process.hookSetup)
    (hvoiced : ∀ machine listeners output,
      value (machine.voiced listeners output) = value machine ∧
        change (machine.voiced listeners output) = (change machine).voiced listeners output) :
    Hushed part := by
  refine fun machine hdone ↦ .of_silent hdone (hpart machine) (hsetup machine)
    fun listeners output ↦ ?_
  rw [hpart, (hvoiced machine listeners output).1, (hvoiced machine listeners output).2]

theorem pure (value : α) : Hushed (Pure.pure value : Run α) :=
  of_ok (fun _ ↦ value) id (fun _ ↦ rfl) (fun _ ↦ rfl) fun _ _ _ ↦ ⟨rfl, rfl⟩

theorem updateThread (change : Thread → α × Thread) : Hushed (Run.updateThread change) :=
  of_ok (fun machine ↦ (change machine.thread).1)
    (fun machine ↦ { machine with thread := (change machine.thread).2 }) (fun _ ↦ rfl)
    (fun _ ↦ rfl) fun _ _ _ ↦ ⟨rfl, rfl⟩

theorem thread : Hushed Run.thread := updateThread fun thread ↦ (thread, thread)

theorem modifyThread (change : Thread → Thread) : Hushed (Run.modifyThread change) :=
  updateThread fun thread ↦ ((), change thread)

theorem record {entry : Record} (h : entry.Mute) : Hushed (Run.record entry) :=
  fun _ hdone ↦ .record h hdone

theorem bind {part : Run α} {next : α → Run β} (hpart : Hushed part)
    (hnext : ∀ value, Hushed (next value)) : Hushed (part >>= next) := by
  intro machine hdone
  rcases hmachine : part machine with ⟨value, after⟩ | ⟨interrupt, after⟩
  · have hthere := (hpart machine hdone).stays_of_ok hmachine
    exact (hpart machine hdone).bind_of_ok hmachine (hnext value after hthere)
  · exact (hpart machine hdone).bind_of_error hmachine

/-- A look at what threads share, besides the hook and the output. -/
theorem observe {next : Process → Run α} (hsame : ∀ process, next process = next process.basis)
    (hnext : ∀ process, Hushed (next process)) : Hushed (process >>= next) := by
  refine fun machine hdone ↦ (hnext machine.process machine hdone).of_eq hdone rfl
    fun listeners output ↦ ?_
  have hvoiced : next (machine.voiced listeners output).process = next machine.process := by
    rw [hsame, hsame machine.process]
    rfl
  exact congrArg (fun part ↦ part (machine.voiced listeners output)) hvoiced

theorem traceEvent (level : Level) (target text : String) :
    Hushed (Run.traceEvent level target text) := by
  refine .observe (fun _ ↦ rfl) fun process ↦ ?_
  split
  · exact .record ⟨rfl, rfl⟩
  · exact .pure _

theorem settings : Hushed Run.settings := by
  intro machine hdone
  obtain ⟨warnings, hwarnings, h⟩ := Recounts.settings machine
  rw [if_pos hdone, if_pos hdone] at h
  refine ⟨hdone, _, h, fun happening hmem ↦ ?_, by simp [Happening.raise?]⟩
  obtain ⟨entry, hentry, rfl⟩ := List.mem_map.mp hmem
  exact Record.mute_of_warning (hwarnings entry hentry)

theorem rootSettings : Hushed Run.rootSettings := by
  intro machine hdone
  cases hroot : machine.process.root with
  | some kept =>
    exact .of_silent hdone (rootSettings_of_some hroot) rfl fun _ _ ↦ rootSettings_of_some hroot
  | none =>
    have hmaking : Hushed (do
        let settings ← Run.settings
        modifyProcess Process.withRoot
        return settings : Run Settings) := by
      refine settings.bind fun _ ↦ Hushed.bind ?_ fun _ ↦ .pure _
      exact .of_ok (fun _ ↦ ()) (fun machine ↦ { machine with process := machine.process.withRoot })
        (fun _ ↦ rfl) (fun _ ↦ rfl) fun _ _ _ ↦ ⟨rfl, rfl⟩
    exact (hmaking machine hdone).of_eq hdone (rootSettings_of_none hroot) fun _ _ ↦
      rootSettings_of_none hroot

theorem build (draft : Draft) : Hushed (Run.build draft) := by
  unfold Run.build
  split
  · exact settings.bind fun _ ↦ .observe (fun _ ↦ rfl) fun _ ↦ .pure _
  · exact .pure _

theorem absorb (payload : Payload) : Hushed (Run.absorb payload) := by
  cases payload with
  | failure failure => exact .pure _
  | message text => exact .build _
  | opaqueValue => exact .build _

theorem run_liftM {part : Run α} (h : Hushed part) : Hushed (liftM part : Attempt α).run := by
  change Hushed (Except.ok <$> part)
  rw [map_eq_pure_bind]
  exact h.bind fun _ ↦ .pure _

theorem run_bind {part : Attempt α} {next : α → Attempt β} (hpart : Hushed part.run)
    (hnext : ∀ value, Hushed (next value).run) : Hushed (part >>= next).run := by
  rw [ExceptT.run_bind]
  refine hpart.bind fun outcome ↦ ?_
  cases outcome with
  | ok value => exact hnext value
  | error refusal => exact .pure _

theorem findFailure (source : Source) : Hushed (Run.findFailure source).run := by
  have hrequire {found : Option Failure} : Hushed (require .noSuchFailure found).run := by
    cases found with
    | none => exact .pure _
    | some failure => exact .pure _
  cases source with
  | slot name => exact thread.run_liftM.run_bind fun _ ↦ hrequire.run_bind fun _ ↦ .pure _
  | handled =>
    have hhandled : Hushed handledFailure? := by
      refine thread.bind fun thread ↦ ?_
      split
      · exact .pure _
      · exact .pure _
    exact hhandled.run_liftM.run_bind fun _ ↦ hrequire.run_bind fun _ ↦ .pure _
  | made draft => exact (build draft).run_liftM

end Hushed

/-! ### Catches -/

namespace Raises

variable {α β : Type} {part : Run α} {machine after : Machine} {raises : List Raise}

/-- What follows says nothing. -/
theorem bind {next : α → Run β} (h : Raises part machine raises)
    (hnext : ∀ value, Hushed (next value)) : Raises (part >>= next) machine raises := by
  rcases hmachine : part machine with ⟨value, after⟩ | ⟨interrupt, after⟩
  · have hboth := h.bind_of_ok hmachine (hnext value after (h.stays_of_ok hmachine))
    rwa [List.append_nil] at hboth
  · exact h.bind_of_error hmachine

/-- A catch adds nothing to what was raised, whatever that is. -/
theorem catching (h : Raises part machine raises) : Raises (Run.catching part) machine raises := by
  refine h.intercept.bind fun outcome ↦ ?_
  cases outcome with
  | ok value => exact .pure _
  | error payload => exact (Hushed.absorb payload).bind fun _ ↦ .pure _

theorem attempt {op : Op} {action : Attempt Answer} (h : Raises action.run machine raises) :
    Raises (Run.attempt op action) machine raises := by
  refine h.bind fun outcome ↦ ?_
  cases outcome with
  | ok answer => exact .record ⟨rfl, rfl⟩
  | error refusal => exact .record ⟨rfl, rfl⟩

theorem run_liftM (h : Raises part machine raises) :
    Raises (liftM part : Attempt α).run machine raises := by
  change Raises (Except.ok <$> part) machine raises
  rw [map_eq_pure_bind]
  exact h.bind fun _ ↦ .pure _

theorem run_bind {part : Attempt α} {next : α → Attempt β} (h : Raises part.run machine raises)
    (hnext : ∀ value, Hushed (next value).run) : Raises (part >>= next).run machine raises := by
  rw [ExceptT.run_bind]
  refine h.bind fun outcome ↦ ?_
  cases outcome with
  | ok value => exact hnext value
  | error refusal => exact .pure _

end Raises

end Run

/-! ### Ways to raise something -/

/-- The thread behind the loss of one owner of an object. -/
def Thread.letGo (thread : Thread) (object : ObjectId) : Thread :=
  match thread.objects[object]? with
  | none => thread
  | some held =>
    { thread with
      objects := thread.objects.setIfInBounds object { held with owners := held.owners - 1 } }

section LetGo

variable (thread : Thread) (object : ObjectId) (objects : List ObjectId)

theorem Thread.letGo_spec : ∃ objects, thread.letGo object = { thread with objects } := by
  unfold letGo
  split
  · exact ⟨_, rfl⟩
  · exact ⟨_, rfl⟩

theorem Thread.foldl_letGo_spec :
    ∃ left, objects.foldl Thread.letGo thread = { thread with objects := left } := by
  induction objects generalizing thread with
  | nil => exact ⟨_, rfl⟩
  | cons object rest ih =>
    obtain ⟨after, hafter⟩ := thread.letGo_spec object
    obtain ⟨left, hleft⟩ := ih (thread.letGo object)
    exact ⟨left, by rw [List.foldl_cons, hleft, hafter]⟩

end LetGo

/-- The thread behind a cut of its stack at a guard. -/
def Thread.cut (thread : Thread) (guard : Guard) : Thread :=
  { thread with stack := (thread.stack.release guard).2 }

/-- All overrides of a thread are such that nothing runs when they are destroyed. -/
def Thread.Inert (thread : Thread) : Prop := ∀ held ∈ thread.objects, held.override.Inert

theorem Thread.Inert.letGo {thread : Thread} (h : thread.Inert) (object : ObjectId) :
    (thread.letGo object).Inert := by
  unfold Thread.letGo
  split
  · exact h
  · rename_i held hheld
    intro other hother
    rcases Array.mem_or_eq_of_mem_setIfInBounds hother with hbefore | rfl
    · exact h other hbefore
    · exact h held (Array.mem_of_getElem? hheld)

namespace Run

variable {exec : Exec} {machine : Machine}

theorem relinquish_of_inert (h : machine.thread.Inert) (object : ObjectId) :
    relinquish exec object machine =
      .ok () { machine with thread := machine.thread.letGo object } := by
  unfold Thread.letGo
  rcases hheld : machine.thread.objects[object]? with _ | held
  · exact relinquish_of_none hheld
  · refine (bind_of_ok (disown_eq hheld)).trans ?_
    split_ifs
    · exact destroy_of_inert (h held (Array.mem_of_getElem? hheld)) exec _
    · rfl

theorem relinquishAll_of_inert (h : machine.thread.Inert) (objects : List ObjectId) :
    relinquishAll exec objects machine =
      .ok () { machine with thread := objects.foldl Thread.letGo machine.thread } := by
  induction objects generalizing machine with
  | nil => rfl
  | cons object rest ih =>
    exact andFinally_of_ok (relinquish_of_inert h object)
      (@ih { machine with thread := machine.thread.letGo object } (h.letGo object))

/-- A release out of order raises its message when everything that it removed is let go. -/
theorem release_of_outOfOrder {guard : Guard} {removed : List ObjectId}
    (halive : machine.thread.tornDown = false) (hcalm : machine.thread.unwinding = 0)
    (hinert : machine.thread.Inert)
    (hreleased : (machine.thread.stack.release guard).1 = .outOfOrder removed) :
    Run.release exec guard machine = raise (.message (outOfOrderMessage guard.depth))
      { machine with thread := removed.foldl Thread.letGo (machine.thread.cut guard) } := by
  obtain ⟨left, hleft⟩ := (machine.thread.cut guard).foldl_letGo_spec removed
  let reached : Machine :=
    { machine with thread := removed.foldl Thread.letGo (machine.thread.cut guard) }
  have hrelease : Run.release exec guard machine = settle exec guard
      (machine.thread.stack.release guard).1 { machine with thread := machine.thread.cut guard } :=
    release_of_alive halive guard
  have hlook : isUnwinding reached = .ok false reached := by
    have hunwinding : reached.thread.unwinding = 0 :=
      (congrArg Thread.unwinding hleft).trans hcalm
    exact congrArg (EStateM.Result.ok · reached) (bne_eq_false_iff_eq.mpr hunwinding)
  have hgone : relinquishAll exec removed { machine with thread := machine.thread.cut guard } =
      .ok () reached :=
    @relinquishAll_of_inert exec { machine with thread := machine.thread.cut guard } hinert removed
  rw [hrelease, hreleased]
  exact (bind_of_ok hgone).trans (bind_of_ok hlook)

/-- A failure is found without a change of the thread. -/
theorem findFailure_eq (source : Source) (machine : Machine) : ∃ found process,
    (findFailure source).run machine = .ok found { machine with process } := by
  have hcopied (found : Option Failure) : ∃ outcome,
      (do return (← require .noSuchFailure found).copy : Attempt Failure).run machine =
        .ok outcome machine := by
    cases found with
    | none => exact ⟨_, rfl⟩
    | some failure => exact ⟨_, rfl⟩
  cases source with
  | slot name =>
    have hthread : thread machine = .ok machine.thread machine := rfl
    obtain ⟨outcome, houtcome⟩ := hcopied (machine.thread.slots.find? name)
    exact ⟨outcome, machine.process, (run_bind_of_ok (run_liftM_of_ok hthread)).trans houtcome⟩
  | handled =>
    have hthread : thread machine = .ok machine.thread machine := rfl
    obtain ⟨handled, hhandled⟩ : ∃ handled, handledFailure? machine = .ok handled machine := by
      unfold handledFailure?
      rw [bind_of_ok hthread]
      rcases machine.thread.handling with _ | ⟨⟨severity, reported⟩ | sent, next⟩
      · exact ⟨none, rfl⟩
      · exact ⟨some reported, rfl⟩
      · exact ⟨none, rfl⟩
    obtain ⟨outcome, houtcome⟩ := hcopied handled
    exact ⟨outcome, machine.process, (run_bind_of_ok (run_liftM_of_ok hhandled)).trans houtcome⟩
  | made draft => exact ⟨_, _, run_liftM_of_ok (build_eq draft machine)⟩

/-! ### Parts that raise something at once -/

/-- A part raises something, and tells that once, under the name of the thread. -/
structure Throws {α : Type} (part : Run α) (machine : Machine) (payload : Payload) : Prop where
  told : Raises part machine [{ thread := machine.thread.name, payload }]
  ends : ∃ last, part machine = .error (.raised payload) last

namespace Throws

variable {α β : Type} {part : Run α} {after : Machine} {value : α} {payload : Payload}

theorem raise (hdone : machine.process.hookSetup = .done) :
    Throws (Run.raise payload : Run α) machine payload :=
  ⟨.raise payload hdone, _, raise_eq_noticed payload machine⟩

theorem behind {next : α → Run β} (h : Hushed part) (hdone : machine.process.hookSetup = .done)
    (hpart : part machine = .ok value after) (hname : after.thread.name = machine.thread.name)
    (hnext : after.process.hookSetup = .done → Throws (next value) after payload) :
    Throws (part >>= next) machine payload := by
  obtain ⟨htold, last, hlast⟩ := hnext ((h machine hdone).stays_of_ok hpart)
  rw [hname] at htold
  exact ⟨.behind h hdone hpart htold, last, (bind_of_ok hpart).trans hlast⟩

theorem bind {next : α → Run β} (h : Throws part machine payload)
    (hnext : ∀ value, Hushed (next value)) : Throws (part >>= next) machine payload := by
  obtain ⟨last, hlast⟩ := h.ends
  exact ⟨h.told.bind hnext, last, bind_of_error hlast⟩

theorem attempt {op : Op} {action : Attempt Answer} (h : Throws action.run machine payload) :
    Throws (Run.attempt op action) machine payload := by
  refine h.bind fun outcome ↦ ?_
  cases outcome with
  | ok answer => exact .record ⟨rfl, rfl⟩
  | error refusal => exact .record ⟨rfl, rfl⟩

end Throws

end Run

/-- A task that raises something at once: a panic, the throwing of a failure that is found, be it
for the first time or again, a failure that the policy of the process raises, and the release of a
guard out of order. -/
inductive Machine.Raising (machine : Machine) : Task → Payload → Prop
  | panic (payload : Payload) : Raising machine (.perform (.panic payload)) payload
  | throw {source : Source} {failure : Failure} {after : Machine} :
    (Run.findFailure source).run machine = .ok (.ok failure) after →
    Raising machine (.perform (.throw source)) (.failure failure)
  | dispatch {severity : Severity} {failure : Failure} {link : Link} :
    machine.thread.stack.resolve link = none →
    machine.process.effectiveSettings.verdict severity (machine.thread.unwinding != 0) = .raise →
    Raising machine (.deliver (.failure severity failure) link) (.failure failure)
  | misuse {guard : Guard} {removed : List ObjectId} : machine.thread.tornDown = false →
    machine.thread.unwinding = 0 → machine.thread.Inert →
    (machine.thread.stack.release guard).1 = .outOfOrder removed →
    Raising machine (.release guard) (.message (Run.outOfOrderMessage guard.depth))

namespace Machine.Raising

open Run

variable {machine : Machine} {payload : Payload}

/-- A failure that the policy of the process raises. -/
theorem throws_concludeAtRoot {severity : Severity} {failure : Failure}
    (hdone : machine.process.hookSetup = .done)
    (hverdict : machine.process.effectiveSettings.verdict severity
      (machine.thread.unwinding != 0) = .raise) (exec : Exec) :
    Throws (concludeAtRoot exec (.failure severity failure)) machine (.failure failure) := by
  obtain ⟨process, hroot, -⟩ := rootSettings_eq machine
  refine .behind Hushed.rootSettings hdone hroot rfl fun hthere ↦ ?_
  let reached : Machine := { machine with process }
  have hlook : isUnwinding reached = .ok (machine.thread.unwinding != 0) reached := rfl
  have hushed : Hushed isUnwinding := Hushed.thread.bind fun _ ↦ .pure _
  refine .behind hushed hthere hlook rfl fun _ ↦ ?_
  rw [hverdict]
  obtain ⟨last, htrace, -⟩ := traceEvent_eq .debug (show rootTarget ≠ bridgeTarget by decide)
    _ reached
  exact .behind (Hushed.traceEvent _ _ _) hthere htrace rfl fun hlast ↦ .raise hlast

/-- A task that raises something tells that once, under the name of its thread. -/
theorem throws {task : Task} (h : machine.Raising task payload)
    (hdone : machine.process.hookSetup = .done) (depth : ℕ) :
    Throws (Interpreter.run (depth + 1) task) machine payload := by
  cases h with
  | panic => exact .attempt (.raise hdone)
  | @throw source failure after hfound =>
    obtain ⟨found, process, hfind⟩ := findFailure_eq source machine
    cases hfind.symm.trans hfound
    refine Throws.attempt ?_
    rw [ExceptT.run_bind]
    exact .behind (Hushed.findFailure source) hdone hfound rfl fun hthere ↦
      .raise hthere
  | dispatch hresolve hverdict =>
    have hthread : Run.thread machine = .ok machine.thread machine := rfl
    refine .behind Hushed.thread hdone hthread rfl fun _ ↦ ?_
    rw [hresolve]
    exact throws_concludeAtRoot hdone hverdict _
  | @misuse guard removed halive hcalm hinert hreleased =>
    let start : Machine :=
      { machine with thread := removed.foldl Thread.letGo (machine.thread.cut guard) }
    have hrelease : Run.release (Interpreter.run depth) guard machine = raise _ start :=
      release_of_outOfOrder halive hcalm hinert hreleased
    have hname : start.thread.name = machine.thread.name := by
      obtain ⟨left, hleft⟩ := (machine.thread.cut guard).foldl_letGo_spec removed
      have hnames := congrArg Thread.name hleft
      exact hnames
    have htold : Raises (raise _ : Run Unit) start _ :=
      .raise (.message (outOfOrderMessage guard.depth)) hdone
    rw [hname] at htold
    refine ⟨htold.of_eq hdone hrelease fun listeners output ↦ ?_, _,
      hrelease.trans (raise_eq_noticed _ start)⟩
    exact @release_of_outOfOrder _ (machine.voiced listeners output) guard removed halive hcalm
      hinert hreleased

end Machine.Raising

/-! ### Threads that raise one thing after another -/

namespace Process

/-- What an operation raises if it does nothing else. -/
def thrown (process : Process) : Op → Option Payload
  | .panic payload => some payload
  | .throw (.made draft) => some (.failure (draft.build process.captured))
  | _ => none

theorem captured_recorded (process : Process) (entry : Record) :
    (process.recorded entry).captured = process.captured := by
  obtain ⟨records, diagnostics, hrecorded⟩ := process.exists_recorded entry
  rw [hrecorded]
  rfl

/-- What a failure captures stays. -/
abbrev SameCaptured (process after : Process) : Prop := after.captured = process.captured

instance : Course SameCaptured where
  refl _ := rfl
  trans h hlast := hlast.trans h
  recorded := captured_recorded
  written _ _ := rfl
  hooked _ _ _ := rfl
  loaded _ _ := rfl
  rooted _ := rfl

theorem thrown_of_captured {process after : Process} (h : after.captured = process.captured)
    (op : Op) : after.thrown op = process.thrown op := by
  unfold thrown
  rw [h]

end Process

/-- Raises of a thread, in their order. -/
def Raise.series (thread : Option String) (payloads : List Payload) : List Raise :=
  payloads.map fun payload ↦ { thread, payload }

namespace Run

section Thrown

variable {machine : Machine} {op : Op} {payload : Payload}

theorem raising_of_thrown (h : machine.process.thrown op = some payload) :
    machine.Raising (.perform op) payload := by
  unfold Process.thrown at h
  split at h
  · cases h
    exact .panic _
  · cases h
    exact .throw (run_liftM_of_ok (build_eq _ machine))
  · cases h

theorem perform_of_thrown (h : machine.process.thrown op = some payload) (exec : Exec) :
    ∃ process, perform exec op machine = .error (.raised payload)
      { process, thread := { machine.thread with unwinding := machine.thread.unwinding + 1 } } := by
  unfold Process.thrown at h
  split at h
  · cases h
    exact ⟨_, bind_of_error (raise_eq_noticed payload machine)⟩
  · cases h
    rename_i draft
    have hfound : (findFailure (.made draft)).run machine = _ :=
      run_liftM_of_ok (build_eq draft machine)
    exact ⟨_, bind_of_error ((bind_of_ok hfound).trans (raise_eq_noticed _ _))⟩
  · cases h

/-- Behind a catch, an operation that raises something tells that once, and leaves the thread. -/
theorem catching_of_thrown (h : machine.process.thrown op = some payload)
    (hdone : machine.process.hookSetup = .done) (depth : ℕ) :
    let step := catching (Interpreter.run (depth + 1) (.perform op))
    Raises step machine [{ thread := machine.thread.name, payload }] ∧
      ∃ failure process, step machine = .ok (.error failure) { machine with process } ∧
        process.captured = machine.process.captured := by
  intro step
  refine ⟨((raising_of_thrown h).throws hdone depth).told.catching, ?_⟩
  have hrun : Holds (fun _ part ↦ Follows Process.SameCaptured part)
      (Interpreter.run (depth + 1) (.perform op)) :=
    @Interpreter.follows_run Process.SameCaptured _ _ _
  have hcaptured : Follows Process.SameCaptured step := hrun.catching
  obtain ⟨process, hperform⟩ := perform_of_thrown h (Interpreter.run depth)
  obtain ⟨failure, last, hstep⟩ : ∃ failure last,
      step machine = .ok (.error failure) { machine with process := last } := by
    cases hplain : payload.plainText? with
    | none =>
      cases payload with
      | failure failure => exact ⟨failure, process, catching_of_failure hperform⟩
      | message text => cases hplain
      | opaqueValue => cases hplain
    | some text =>
      obtain ⟨last, hcatching, -⟩ := catching_of_plain hplain hperform
      exact ⟨_, last, hcatching⟩
  have hthere := hcaptured machine
  rw [hstep] at hthere
  exact ⟨failure, last, hstep, hthere⟩

end Thrown

variable {machine : Machine} {ops : List Op} {payloads : List Payload}

/-- Steps each of which raises something tell all that, in order. -/
theorem raises_runSteps (hthrown : ops.map machine.process.thrown = payloads.map some)
    (hdone : machine.process.hookSetup = .done) (depth index : ℕ) :
    let steps := runSteps (Interpreter.run (depth + 1)) index ops
    Raises steps machine (Raise.series machine.thread.name payloads) ∧
      ∃ process, steps machine = .ok () { machine with process } := by
  intro steps
  induction ops generalizing machine payloads index with
  | nil =>
    obtain rfl : payloads = [] := by simpa using hthrown.symm
    exact ⟨.of_silent hdone rfl rfl fun _ _ ↦ rfl, machine.process, rfl⟩
  | cons op rest ih =>
    rcases payloads with _ | ⟨payload, others⟩
    · cases hthrown
    obtain ⟨hfirst, hrest⟩ := List.cons_eq_cons.mp hthrown
    obtain ⟨htold, failure, process, hstep, hcaptured⟩ := catching_of_thrown hfirst hdone depth
    let caught : Machine := { machine with process }
    let entry : Record := .done index machine.thread.stack.height (some failure)
    have hheight : height caught = .ok machine.thread.stack.height caught := rfl
    let stepped : Machine := { machine with process := process.recorded entry }
    have hrecord : Run.record entry caught = .ok () stepped := rfl
    have hthere := htold.stays_of_ok hstep
    have hsilent : Hushed height := Hushed.thread.bind fun _ ↦ .pure _
    have hmute : Hushed (Run.record entry) := .record ⟨rfl, rfl⟩
    have hstepped := (hmute caught hthere).stays_of_ok hrecord
    have hthrownRest : rest.map stepped.process.thrown = others.map some := by
      rw [← hrest]
      refine List.map_congr_left fun op _ ↦ Process.thrown_of_captured ?_ op
      exact (process.captured_recorded entry).trans hcaptured
    obtain ⟨hraises, last, hlast⟩ := ih hthrownRest hstepped (index + 1)
    refine ⟨htold.bind_of_ok hstep ?_, last, ?_⟩
    · exact .behind hsilent hthere hheight (.behind hmute hthere hrecord hraises)
    · exact (bind_of_ok hstep).trans
        ((bind_of_ok hheight).trans ((bind_of_ok hrecord).trans hlast))

section Thread

variable {process : Process} {name : Option String}

/-- What a thread that just started, and catches each operation, raises and leaves. -/
theorem raises_runCaught (hthrown : ops.map process.thrown = payloads.map some)
    (hdone : process.hookSetup = .done) (depth : ℕ) :
    let body := runCaught (Interpreter.run (depth + 1)) ops
    let fresh : Machine := { process, thread := { name } }
    Raises body fresh (Raise.series name payloads) ∧
      ∃ process, body fresh = .ok () { fresh with process } := by
  intro body fresh
  let opened : Machine := { process, thread := { name, frames := [[]] } }
  have hopen : openFrame fresh = .ok () opened := rfl
  obtain ⟨htold, last, hsteps⟩ := @raises_runSteps opened ops payloads hthrown hdone depth 0
  have hlast : last.hookSetup = .done := htold.stays_of_ok hsteps
  let ended : Machine := { process := last, thread := { name } }
  have hclose : catching (Interpreter.run (depth + 1) .closeFrame) { opened with process := last } =
      .ok (.ok ()) ended := rfl
  have hdrop : dropShared (Interpreter.run (depth + 1)) ended = .ok () ended := rfl
  have hheight : height ended = .ok 0 ended := rfl
  have hrecord : Run.record (.ended 0 none) ended = _ := record_eq _ ended
  refine ⟨?_, _, (bind_of_ok hopen).trans ((bind_of_ok hsteps).trans ((bind_of_ok hclose).trans
    ((bind_of_ok hdrop).trans ((bind_of_ok hheight).trans hrecord))))⟩
  have hclosing : Raises (catching (Interpreter.run (depth + 1) .closeFrame))
      { opened with process := last } [] := .of_silent hlast hclose rfl fun _ _ ↦ rfl
  have hdropping : Raises (dropShared (Interpreter.run (depth + 1))) ended [] :=
    .of_silent hlast hdrop rfl fun _ _ ↦ rfl
  have hreading : Raises height ended [] := .of_silent hlast hheight rfl fun _ _ ↦ rfl
  have hrecording : Raises (Run.record (.ended 0 none)) ended [] := .record ⟨rfl, rfl⟩ hlast
  rw [← List.append_nil (Raise.series name payloads)]
  refine .behind (Hushed.modifyThread _) hdone hopen (htold.bind_of_ok hsteps ?_)
  refine hclosing.after_silence hclose (hdropping.after_silence hdrop ?_)
  exact hreading.after_silence hheight hrecording

/-- What a thread that just started, and catches nothing, raises and leaves. -/
theorem raises_runList (hthrown : ops.map process.thrown = payloads.map some)
    (hdone : process.hookSetup = .done) (depth : ℕ) :
    let body := runList (Interpreter.run (depth + 1)) ops
    let fresh : Machine := { process, thread := { name } }
    Raises body fresh (Raise.series name (payloads.take 1)) ∧
      ∃ outcome process, Run.intercept body fresh = .ok outcome { fresh with process } := by
  intro body fresh
  let opened : Machine := { process, thread := { name, frames := [[]] } }
  have hopen : openFrame fresh = .ok () opened := rfl
  cases ops with
  | nil =>
    obtain rfl : payloads = [] := by simpa using hthrown.symm
    exact ⟨.of_silent hdone rfl rfl fun _ _ ↦ rfl, .ok (), process, rfl⟩
  | cons op rest =>
    rcases payloads with _ | ⟨payload, others⟩
    · cases hthrown
    have hfirst : opened.process.thrown op = some payload := (List.cons_eq_cons.mp hthrown).1
    obtain ⟨last, hraised⟩ := perform_of_thrown hfirst (Interpreter.run depth)
    let raised : Machine :=
      { process := last, thread := { name, frames := [[]], unwinding := 1 } }
    let list : Run Unit := (op :: rest).forM fun op ↦ Interpreter.run (depth + 1) (.perform op)
    have hlist : list opened = .error (.raised payload) raised := bind_of_error hraised
    have htold : Raises list opened [{ thread := name, payload }] :=
      ((raising_of_thrown hfirst).throws hdone depth).told.bind_of_error hraised
    let closed : Machine := { process := last, thread := { name, unwinding := 1 } }
    have hclose : Interpreter.run (depth + 1) .closeFrame raised = .ok () closed := rfl
    have hlast : last.hookSetup = .done := by
      have hstays := htold.stays
      rwa [hlist] at hstays
    have hclosing : Raises (Interpreter.run (depth + 1) .closeFrame) (left (list opened)) [] := by
      rw [hlist]
      exact .of_silent hlast hclose rfl fun _ _ ↦ rfl
    have hgoes : goesOn (list opened) = true := by
      rw [hlist]
      rfl
    refine ⟨.behind (Hushed.modifyThread _) hdone hopen (htold.andFinally hgoes hclosing),
      .error payload, last, ?_⟩
    have hbody : body fresh = .error (.raised payload) closed :=
      (bind_of_ok hopen).trans (andFinally_of_raised hlist hclose)
    exact intercept_of_raised hbody

end Thread

/-- What a thread of its own tells: all that its operations raise if each of them is caught, and the
first of it if nothing is. -/
theorem raises_runThread {plan : ThreadPlan} (hlate : plan.lateGuard = false)
    (hthrown : ops.map machine.process.thrown = payloads.map some)
    (hdone : machine.process.hookSetup = .done) (depth : ℕ) :
    Raises (runThread (Interpreter.run (depth + 1)) plan ops) machine
      (Raise.series plan.name (if plan.uncaught then payloads.take 1 else payloads)) := by
  let exec := Interpreter.run (depth + 1)
  let fresh : Machine := { machine with thread := { name := plan.name } }
  let body : Run Unit := if plan.uncaught then runList exec ops else runCaught exec ops
  obtain ⟨htold, outcome, process, hbody⟩ : Raises body fresh
      (Raise.series plan.name (if plan.uncaught then payloads.take 1 else payloads)) ∧
        ∃ outcome process, Run.intercept body fresh = .ok outcome { fresh with process } := by
    by_cases huncaught : plan.uncaught = true
    · simp only [body, if_pos huncaught]
      exact raises_runList hthrown hdone depth
    · simp only [body, if_neg huncaught]
      obtain ⟨htold, process, hbody⟩ := raises_runCaught hthrown hdone depth
      exact ⟨htold, _, process, intercept_of_ok hbody⟩
  have hthread : Run.thread machine = .ok machine.thread machine := rfl
  have hstart : modifyThread (fun _ ↦ { name := plan.name }) machine = .ok () fresh := rfl
  have hinstall : installLate exec plan fresh = .ok none fresh := by
    unfold installLate
    rw [hlate]
    rfl
  let torn : Machine := { process, thread := { name := plan.name, tornDown := true } }
  have htear : Run.intercept (tearDown exec none) { fresh with process } = .ok (.ok ()) torn := rfl
  have hthere : process.hookSetup = .done := htold.intercept.stays_of_ok hbody
  have htearing : Raises (Run.intercept (tearDown exec none)) { fresh with process } [] :=
    .of_silent hthere htear rfl fun _ _ ↦ rfl
  refine .behind Hushed.thread hdone hthread (.behind (Hushed.modifyThread _) hdone hstart ?_)
  have hinstalling : Raises (installLate exec plan) fresh [] := by
    refine .of_silent hdone hinstall rfl fun listeners output ↦ ?_
    unfold installLate
    rw [hlate]
    rfl
  rw [← List.append_nil (Raise.series _ _)]
  refine hinstalling.after_silence hinstall (htold.intercept.bind_of_ok hbody ?_)
  refine htearing.after_silence htear ?_
  refine ((Hushed.modifyThread _).bind fun _ ↦ ?_) torn hthere
  cases outcome with
  | ok value => exact .pure _
  | error payload => exact .pure _

/-- A list behind a catch, with its cleanup, tells what it tells without the catch. -/
theorem raises_perform_guarded {body : List Op} {deferred : Option Cleanup} {raises : List Raise}
    {depth : ℕ} (h : Raises (runScope (Interpreter.run depth) body deferred) machine raises)
    (slot : String) :
    Raises (Interpreter.run (depth + 1) (.perform (.guarded body deferred slot))) machine
      raises := by
  refine Raises.attempt (h.catching.run_liftM.run_bind fun outcome ↦ ?_)
  cases outcome with
  | ok value => exact .pure _
  | error failure => exact (Hushed.modifyThread _).run_liftM.run_bind fun _ ↦ .pure _

/-- An operation that starts a thread and waits for it tells what that thread tells. -/
theorem raises_perform_thread {plan : ThreadPlan} (hlate : plan.lateGuard = false)
    (hthrown : ops.map machine.process.thrown = payloads.map some)
    (hdone : machine.process.hookSetup = .done) (slot : String) (depth : ℕ) :
    Raises (Interpreter.run (depth + 2) (.perform (.thread plan ops slot))) machine
      (Raise.series plan.name (if plan.uncaught then payloads.take 1 else payloads)) := by
  have hrun := raises_runThread hlate hthrown hdone depth
  refine Raises.attempt (hrun.run_liftM.run_bind fun result ↦ ?_)
  cases result with
  | none => exact .pure _
  | some payload =>
    refine (Hushed.absorb payload).run_liftM.run_bind fun failure ↦ ?_
    exact (Hushed.modifyThread _).run_liftM.run_bind fun _ ↦ .pure _

end Run

/-! ### The life of a process -/

open Run in
theorem Episode.raises_task {machine : Machine} {depth : ℕ} {task : Task} {raises : List Raise}
    (h : Raises (Interpreter.run depth task) machine raises) :
    Raises (Episode.task depth task).part machine raises := h.catching.bind fun _ ↦ .pure _

namespace Machine

/-- Episodes that make raises, one after another, and tell nothing else. -/
inductive Makes : Machine → List Episode → List Raise → Prop
  | nothing (machine : Machine) : Makes machine [] []
  | next {machine : Machine} {episode : Episode} {rest : List Episode} {raises more : List Raise} :
    Run.Raises episode.part machine raises → Makes (Run.left (episode.part machine)) rest more →
    Makes machine (episode :: rest) (raises ++ more)

/-- Asking for the hook of the library once more makes nothing. -/
theorem Makes.hook {machine : Machine} {rest : List Episode} {raises : List Raise}
    (hdone : machine.process.hookSetup = .done) (h : machine.Makes rest raises) :
    machine.Makes (.hook :: rest) raises := by
  have hhook := Run.installHook_of_done hdone
  have hsilent : Run.Raises Episode.hook.part machine [] :=
    .of_silent hdone hhook rfl fun _ _ ↦ Run.installHook_of_done hdone
  have hleft : Run.left (Episode.hook.part machine) = machine := congrArg Run.left hhook
  exact .next hsilent (hleft.symm ▸ h)

/-- Going on with another thread makes nothing. -/
theorem Makes.switch {machine : Machine} {thread : Thread} {rest : List Episode}
    {raises : List Raise} (hdone : machine.process.hookSetup = .done)
    (h : { machine with thread }.Makes rest raises) :
    machine.Makes (.switch thread :: rest) raises := by
  have hsilent : Run.Raises (Episode.switch thread).part machine [] :=
    Run.Hushed.modifyThread (fun _ ↦ thread) machine hdone
  exact .next hsilent h

/-- What is seen of raises, behind the hook of the library in front of another one. -/
theorem Makes.seen {machine : Machine} {episodes : List Episode} {raises : List Raise}
    (h : machine.Makes episodes raises) {notes : Raise → List (Option String)}
    (hhook : machine.process.hook = .reporting (.foreign notes)) :
    (machine.behind episodes).process.written =
        machine.process.written ++ String.join (raises.map Raise.shown) ∧
      (machine.behind episodes).process.notes =
        machine.process.notes ++ raises.flatMap (Raise.noted notes) := by
  induction h with
  | nothing machine => simp [behind]
  | next hraises hrest ih =>
    obtain ⟨hwritten, hnotes, hfront⟩ := hraises.seen hhook
    obtain ⟨hwrittenRest, hnotesRest⟩ := ih hfront
    rw [hwritten] at hwrittenRest
    rw [hnotes] at hnotesRest
    constructor
    · refine hwrittenRest.trans ?_
      rw [List.map_append, String.join_append, String.append_assoc]
    · refine hnotesRest.trans ?_
      rw [List.flatMap_append, List.append_assoc]

end Machine

/-- Everything that is raised after the hook of the library was put in front is told once, and to
one hook alone. A failure is written by the hook of the library, under the name of its thread, and
everything else is shown to the previous hook. How often the hook is asked for, and when, makes no
difference.

So it is for each task, in the middle of which the hook may be put in front. A panic, the throwing
of a failure, a failure that the policy of the process raises and a release out of order tell their
raise and nothing else; a catch adds nothing to it, be it around any part or around a list of
operations, and a cleanup only its own raises; and a thread tells of each of its raises if it catches
them one by one, and of the one that ends it if not. So what is written and noted in the life of a
process is known exactly from what its episodes raise. -/
theorem raises_told_once :
    (∀ (previous : Hook) (output : Output) (thread : Option String) (failure : Failure),
      Happening.tell (.reporting previous) output
          (.raised { thread, payload := .failure failure }) =
        output.written ("thread '" ++ thread.getD "<unnamed>" ++ "' raised exception:\n" ++
          failure.text ++ "\n")) ∧
    (∀ (previous : Hook) (output : Output) (raise : Raise),
      (∀ failure, raise.payload ≠ .failure failure) →
        Happening.tell (.reporting previous) output (.raised raise) =
          (previous.notices raise).foldl Output.noticed output) ∧
    (∀ (payload : Payload) (machine : Machine), machine.process.hookSetup = .done →
      Run.Recounts (Run.raise payload : Run Unit) machine []
        [.raised { thread := machine.thread.name, payload }]) ∧
    (∀ (depth : ℕ) (task : Task), Run.Recounted (Interpreter.run depth task)) ∧
    (∀ (machine : Machine) (task : Task) (payload : Payload) (depth : ℕ),
      machine.process.hookSetup = .done → machine.Raising task payload →
        Run.Throws (Interpreter.run (depth + 1) task) machine payload) ∧
    (∀ (part cleanup : Run Unit) (machine : Machine) (raises more : List Raise),
      Run.Raises part machine raises →
        Run.Raises (Run.catching part) machine raises ∧
        (Run.goesOn (part machine) = true →
          Run.Raises cleanup (Run.left (part machine)) more →
            Run.Raises (Run.andFinally part cleanup) machine (raises ++ more))) ∧
    (∀ (machine : Machine) (body : List Op) (deferred : Option Cleanup) (slot : String)
      (raises : List Raise) (depth : ℕ),
      Run.Raises (Run.runScope (Interpreter.run depth) body deferred) machine raises →
        Run.Raises (Interpreter.run (depth + 1) (.perform (.guarded body deferred slot))) machine
          raises) ∧
    (∀ (machine : Machine) (plan : ThreadPlan) (ops : List Op) (payloads : List Payload)
      (slot : String) (depth : ℕ), machine.process.hookSetup = .done → plan.lateGuard = false →
        ops.map machine.process.thrown = payloads.map some →
          Run.Raises (Interpreter.run (depth + 2) (.perform (.thread plan ops slot))) machine
            (Raise.series plan.name (if plan.uncaught then payloads.take 1 else payloads))) ∧
    (∀ machine : Machine, machine.process.hookSetup = .done →
      Run.installHook machine = .ok () machine) ∧
    ∀ (machine : Machine) (episodes : List Episode),
      machine.process.hookSetup = .pending → machine.thread.unwinding = 0 →
        (∃ story : List Happening, ∀ previous output,
          (machine.voiced (.of previous) output).behind (.hook :: episodes) =
            (machine.behind (.hook :: episodes)).voiced (.of previous)
              (story.foldl (Happening.tell (.reporting previous)) output)) ∧
        machine.behind (.hook :: episodes.filter fun episode ↦ !episode.isHook) =
          machine.behind (.hook :: episodes) ∧
        ∀ (notes : Raise → List (Option String)) (raises : List Raise),
          machine.process.hook = .foreign notes →
          (Run.left (Run.installHook machine)).Makes episodes raises →
            (machine.behind (.hook :: episodes)).process.written =
                machine.process.written ++ String.join (raises.map Raise.shown) ∧
              (machine.behind (.hook :: episodes)).process.notes =
                machine.process.notes ++ raises.flatMap (Raise.noted notes) := by
  refine ⟨fun _ _ _ _ ↦ rfl, fun previous output raise hother ↦ ?_,
    fun payload machine hdone ↦ ?_, Interpreter.recounted_run,
    fun machine task payload depth hdone hraising ↦ hraising.throws hdone depth,
    fun part cleanup machine raises more h ↦ ⟨h.catching, fun hgoes ↦ h.andFinally hgoes⟩,
    fun machine body deferred slot raises depth h ↦ Run.raises_perform_guarded h slot,
    fun machine plan ops payloads slot depth hdone hlate hthrown ↦
      Run.raises_perform_thread hlate hthrown hdone slot depth,
    fun _ ↦ Run.installHook_of_done, fun machine episodes hpending hunwinding ↦ ?_⟩
  · obtain ⟨thread, payload⟩ := raise
    cases payload with
    | failure failure => exact absurd rfl (hother failure)
    | message text => rfl
    | opaqueValue => rfl
  · have haccount := Run.Recounts.raise (α := Unit) payload machine
    rwa [if_pos hdone, if_pos hdone] at haccount
  · have haccount := Run.Recounts.installHook hpending hunwinding
    have hinstall := Run.installHook_of_pending hpending hunwinding
    have hdone : (Run.left (Run.installHook machine)).process.hookSetup = .done := by
      rw [hinstall]
      rfl
    obtain ⟨story, hstory⟩ := Machine.behind_voiced hdone episodes
    refine ⟨⟨story, fun previous output ↦ ?_⟩, Machine.behind_filter hdone episodes,
      fun notes raises hhook hmakes ↦ ?_⟩
    · have hend : Run.left (Run.installHook (machine.voiced (.of previous) output)) =
          (Run.left (Run.installHook machine)).voiced (.of previous) output := by
        rw [haccount.ends output (.inr rfl), Run.left_leaving]
        rfl
      exact (congrArg (fun after ↦ Machine.behind after episodes) hend).trans
        (hstory (.of previous) output)
    · have hfront : (Run.left (Run.installHook machine)).process.hook =
          .reporting (.foreign notes) := by
        rw [hinstall, ← hhook]
        rfl
      have hwritten : (Run.left (Run.installHook machine)).process.written =
          machine.process.written := by
        rw [hinstall]
        rfl
      have hnotes : (Run.left (Run.installHook machine)).process.notes =
          machine.process.notes := by
        rw [hinstall]
        rfl
      have hseen := hmakes.seen hfront
      rw [hwritten, hnotes] at hseen
      exact hseen

/-- The hook of the library is asked for three times. In between a thread without a name panics,
another one throws a failure, and a third one panics and throws the failure as well. -/
theorem raises_told_once_asked_thrice :
    let draft : Draft :=
      { site := { file := "a.rs", line := 7 }, origin := .traced .internalBug .permanent "lost" [] }
    let failure := draft.build []
    let broken : Episode := .task 1 (.perform (.panic (.message "broken")))
    let second : Episode := .switch { name := some "second" }
    let thrown : Episode := .task 1 (.perform (.throw (.made draft)))
    let third : Episode := .task 2 (.perform (.thread { name := some "third" }
      [.panic (.message "late"), .throw (.made draft)] "found"))
    let machine : Machine := { process := { hook := .noting } }
    let asked := [Episode.hook, .hook, broken, second, thrown, third, .hook]
    machine.process.hookSetup = .pending ∧ machine.thread.unwinding = 0 ∧
      machine.process.hook = .foreign (fun raise ↦ [raise.payload.message?]) ∧
      machine.behind [.hook, broken, second, thrown, third] = machine.behind asked ∧
      (machine.behind asked).process.written =
        "thread 'second' raised exception:\n" ++ failure.text ++ "\n" ++
          ("thread 'third' raised exception:\n" ++ failure.text ++ "\n") ∧
      (machine.behind asked).process.notes = [some "broken", some "late"] := by
  intro draft failure broken second thrown third machine asked
  have hbroken (start : Machine) (hdone : start.process.hookSetup = .done) :
      Run.Raises broken.part start
        [{ thread := start.thread.name, payload := .message "broken" }] :=
    Episode.raises_task ((Machine.Raising.panic _).throws hdone 0).told
  have hthrown (start : Machine) (hdone : start.process.hookSetup = .done) :
      Run.Raises thrown.part start
        [{ thread := start.thread.name, payload := .failure failure }] :=
    Episode.raises_task ((Run.raising_of_thrown rfl).throws hdone 0).told
  have hthird (start : Machine) (hdone : start.process.hookSetup = .done) :
      Run.Raises third.part start
        (Raise.series (some "third") [.message "late", .failure failure]) :=
    Episode.raises_task (Run.raises_perform_thread rfl rfl hdone "found" 0)
  have hmakes (start : Machine) (hstart : start.process.hookSetup = .done) :
      start.Makes [.hook, broken, second, thrown, third, .hook]
        ([{ thread := start.thread.name, payload := .message "broken" }] ++
          ([{ thread := some "second", payload := .failure failure }] ++
            (Raise.series (some "third") [.message "late", .failure failure] ++ []))) := by
    let switched : Machine :=
      { Run.left (broken.part start) with thread := { name := some "second" } }
    have hthere : switched.process.hookSetup = .done := (hbroken start hstart).stays
    have hnext := (hthrown switched hthere).stays
    refine .hook hstart (.next (hbroken start hstart) (.switch hthere ?_))
    refine .next (hthrown switched hthere) (.next (hthird _ hnext) ?_)
    exact .hook (hthird _ hnext).stays (.nothing _)
  obtain ⟨-, -, -, -, -, -, -, -, -, hlife⟩ := raises_told_once
  obtain ⟨-, hsame, hseen⟩ :=
    hlife machine [.hook, broken, second, thrown, third, .hook] rfl rfl
  obtain ⟨hwritten, hnotes⟩ := hseen _ _ rfl (hmakes _ rfl)
  refine ⟨rfl, rfl, rfl, hsame, hwritten.trans ?_, hnotes.trans ?_⟩
  · simp [Raise.series, Raise.shown, machine, Process.written, String.append_assoc]
  · simp [Raise.series, Raise.noted, Process.notes, machine, Payload.message?]

end Escalation
