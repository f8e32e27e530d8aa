import Mathlib
import Escalation.Proofs.Loading

/-!
# Who is told of what is raised

A run tells of itself through its records, the diagnostic stream and the hook. Whoever listens does
not change the run: what it tells is a list of happenings (`Happening`), each of which is told to
the hook that is there and to the output (`Happening.tell`), and the list is the same whatever hook
that is, and whatever was put out before (`Run.Recounts`).

The hook of the library is put in front once. What happens before that is told to the previous hook
alone, and what happens behind it to the hook of the library in front of the previous one
(`Machine.voiced`). Once it is in front, any hook may listen in its place (`Process.Admits`). All
parts of runs have such an account, as it passes from parts to what is made of them
(`Interpreter.recounted_run`), and so has the life of a process (`Machine.behind_voiced`).
-/

set_option autoImplicit false
set_option relaxedAutoImplicit false

namespace Escalation

/-! ### Happenings -/

/-- What a run has put out. -/
structure Output where
  /-- The records. -/
  records : Array Record
  /-- What was written to the diagnostic stream since the last of them. -/
  diagnostics : String

/-- What a run tells. -/
inductive Happening
  /-- A record is made. -/
  | recorded (entry : Record)
  /-- A text is written to the diagnostic stream. -/
  | written (text : String)
  /-- Something is raised. -/
  | raised (raise : Raise)

namespace Output

variable (output : Output)

/-- The output with a text behind it. -/
def written (text : String) : Output := { output with diagnostics := output.diagnostics ++ text }

/-- The output with what was written turned into a record. -/
def flushed : Output :=
  if output.diagnostics.isEmpty then output
  else { records := output.records.push (.diagnostics output.diagnostics), diagnostics := "" }

/-- The output with one more record. -/
def recorded (entry : Record) : Output :=
  { output.flushed with records := output.flushed.records.push entry }

/-- The output behind what a hook does about a raise. -/
def noticed : Notice → Output
  | .written text => output.written text
  | .noted message => output.recorded (.passedOn message)

end Output

/-- The output behind a happening, where a hook is there. -/
def Happening.tell (hook : Hook) (output : Output) : Happening → Output
  | .recorded entry => output.recorded entry
  | .written text => output.written text
  | .raised raise => (hook.notices raise).foldl Output.noticed output

/-! ### Machines that are listened to -/

/-- The hooks that listen. -/
structure Listeners where
  /-- The hook that is there until that of the library is put in front. -/
  before : Hook
  /-- The hook that is there from then on. -/
  behind : Hook

/-- A hook that listens until that of the library is put in front of it. -/
def Listeners.of (previous : Hook) : Listeners :=
  { before := previous, behind := .reporting previous }

namespace Process

variable (process : Process) (listeners : Listeners) (output : Output)

/-- The process with other hooks listening to it can put the hook of the library in front of the one
that listens until then. -/
def Admits : Prop :=
  process.hookSetup = .done ∨ listeners.behind = .reporting listeners.before

/-- The hook that is there. -/
def front : Hook := if process.hookSetup = .done then listeners.behind else listeners.before

/-- The process with other hooks listening to it, and another output. -/
def voiced : Process :=
  { process with
    hook := process.front listeners
    records := output.records
    diagnostics := output.diagnostics }

theorem voiced_recorded (entry : Record) :
    (process.recorded entry).voiced listeners output = process.voiced listeners output := by
  obtain ⟨records, diagnostics, hrecorded⟩ := process.exists_recorded entry
  rw [hrecorded]
  rfl

theorem recorded_voiced (entry : Record) :
    (process.voiced listeners output).recorded entry =
      process.voiced listeners (output.recorded entry) := by
  have hflushed : (process.voiced listeners output).flushed =
      process.voiced listeners output.flushed := by
    unfold flushed Output.flushed
    change (if output.diagnostics.isEmpty then _ else _) = _
    split <;> rfl
  unfold recorded
  rw [hflushed]
  rfl

theorem hookSetup_recorded (entry : Record) :
    (process.recorded entry).hookSetup = process.hookSetup := by
  obtain ⟨records, diagnostics, hrecorded⟩ := process.exists_recorded entry
  rw [hrecorded]

/-- The process behind what a hook does about a raise. -/
def noticed (process : Process) : Notice → Process
  | .written text => { process with diagnostics := process.diagnostics ++ text }
  | .noted message => process.recorded (.passedOn message)

theorem voiced_noticed (notice : Notice) :
    (process.noticed notice).voiced listeners output = process.voiced listeners output := by
  cases notice with
  | written text => rfl
  | noted message => exact process.voiced_recorded listeners output _

theorem noticed_voiced (notice : Notice) :
    (process.voiced listeners output).noticed notice =
      process.voiced listeners (output.noticed notice) := by
  cases notice with
  | written text => rfl
  | noted message => exact process.recorded_voiced listeners output _

theorem hookSetup_noticed (notice : Notice) :
    (process.noticed notice).hookSetup = process.hookSetup := by
  cases notice with
  | written text => rfl
  | noted message => exact process.hookSetup_recorded _

/-! #### Several steps -/

section Fold

variable {γ : Type} {step : Process → γ → Process} (items : List γ)

/-- Steps of which nothing is left where others listen. -/
theorem voiced_foldl (h : ∀ process item,
      (step process item).voiced listeners output = process.voiced listeners output) :
    (items.foldl step process).voiced listeners output = process.voiced listeners output := by
  induction items generalizing process with
  | nil => rfl
  | cons item rest ih => rw [List.foldl_cons, ih, h]

/-- Steps that only tell something. -/
theorem foldl_voiced {said : Output → γ → Output} (h : ∀ (process : Process) output item,
      step (process.voiced listeners output) item = process.voiced listeners (said output item)) :
    items.foldl step (process.voiced listeners output) =
      process.voiced listeners (items.foldl said output) := by
  induction items generalizing output with
  | nil => rfl
  | cons item rest ih => rw [List.foldl_cons, List.foldl_cons, h, ih]

theorem hookSetup_foldl (h : ∀ process item, (step process item).hookSetup = process.hookSetup) :
    (items.foldl step process).hookSetup = process.hookSetup := by
  induction items generalizing process with
  | nil => rfl
  | cons item rest ih => rw [List.foldl_cons, ih, h]

end Fold

end Process

/-- The machine with other hooks listening to it, and another output. -/
def Machine.voiced (machine : Machine) (listeners : Listeners) (output : Output) : Machine :=
  { machine with process := machine.process.voiced listeners output }

namespace Run

/-- Whatever a hook does about a raise is done. -/
theorem forM_give (notices : List Notice) (machine : Machine) :
    notices.forM give machine =
      .ok () { machine with process := notices.foldl Process.noticed machine.process } := by
  induction notices generalizing machine with
  | nil => rfl
  | cons notice rest ih =>
    have hgive : give notice machine =
        .ok () { machine with process := machine.process.noticed notice } := by
      cases notice <;> rfl
    exact (bind_of_ok hgive).trans (ih _)

/-- Raising counts one raise more and tells the hook. -/
theorem raise_eq_noticed {α : Type} (payload : Payload) (machine : Machine) :
    (raise payload : Run α) machine = .error (.raised payload)
      { process := (machine.process.hook.notices { thread := machine.thread.name, payload }).foldl
          Process.noticed machine.process
        thread := { machine.thread with unwinding := machine.thread.unwinding + 1 } } := by
  let counted : Machine := { machine with thread :=
    { machine.thread with unwinding := machine.thread.unwinding + 1 } }
  have hraised : (raise payload : Run α) machine =
      (reportRaise payload >>= fun _ ↦ throw (.raised payload)) counted := rfl
  have htold : reportRaise payload counted = _ := forM_give
    (machine.process.hook.notices { thread := machine.thread.name, payload }) counted
  rw [hraised, bind_of_ok htold]
  rfl

/-- What is told does not change when what was raised is handed over. -/
theorem intercepted_leaving_voiced {α : Type} (first : EStateM.Result Interrupt Machine α)
    (listeners : Listeners) (output : Output) :
    intercepted (leaving ((left first).voiced listeners output) first) =
      leaving ((left (intercepted first)).voiced listeners output) (intercepted first) := by
  rcases first with _ | ⟨_ | _ | _ | _, _⟩ <;> rfl

/-- What a part and its cleanup raise, one of them raised. -/
theorem raised_of_closing {α : Type} {first : EStateM.Result Interrupt Machine α}
    {second : EStateM.Result Interrupt Machine Unit} {payload : Payload} {last : Machine}
    (h : closing first second = .error (.raised payload) last) :
    (∃ last, first = .error (.raised payload) last) ∨
      ∃ last, second = .error (.raised payload) last := by
  cases second with
  | ok _ _ =>
    cases first with
    | ok _ _ => cases h
    | error interrupt _ =>
      cases h
      exact .inl ⟨_, rfl⟩
  | error interrupt _ =>
    right
    cases first with
    | ok _ _ =>
      cases h
      exact ⟨_, rfl⟩
    | error _ _ => cases interrupt <;> cases h

/-! ### Putting the hook of the library in front -/

section InstallHook

variable {machine : Machine}

/-- Once is enough. -/
theorem installHook_of_done (h : machine.process.hookSetup = .done) :
    installHook machine = .ok () machine := by
  have hread : process machine = .ok machine.process machine := rfl
  unfold installHook
  rw [bind_of_ok hread, h]
  rfl

theorem installHook_of_poisoned (h : machine.process.hookSetup = .poisoned) :
    installHook machine =
      raise (.message "Once instance has previously been poisoned") machine := by
  have hread : process machine = .ok machine.process machine := rfl
  unfold installHook
  rw [bind_of_ok hread, h]

/-- During unwinding, the first attempt fails. -/
theorem installHook_of_unwinding (h : machine.process.hookSetup = .pending)
    (hunwinding : machine.thread.unwinding ≠ 0) :
    installHook machine =
      raise (.message "cannot modify the panic hook from a panicking thread")
        { machine with process := { machine.process with hookSetup := .poisoned } } := by
  have hread : process machine = .ok machine.process machine := rfl
  have hlook : isUnwinding machine = .ok true machine :=
    congrArg (EStateM.Result.ok · machine) (bne_iff_ne.mpr hunwinding)
  unfold installHook
  rw [bind_of_ok hread, h]
  exact bind_of_ok hlook

/-- Elsewhere, the hook of the library is put in front. -/
theorem installHook_of_pending (h : machine.process.hookSetup = .pending)
    (hunwinding : machine.thread.unwinding = 0) :
    installHook machine = .ok () { machine with process :=
      { machine.process with hook := .reporting machine.process.hook, hookSetup := .done } } := by
  have hread : process machine = .ok machine.process machine := rfl
  have hlook : isUnwinding machine = .ok false machine :=
    congrArg (EStateM.Result.ok · machine) (bne_eq_false_iff_eq.mpr hunwinding)
  unfold installHook
  rw [bind_of_ok hread, h]
  exact bind_of_ok hlook

end InstallHook

/-! ### Accounts of parts -/

/-- What a part tells at a machine: happenings before the hook of the library is put in front, and
happenings behind that. Whatever hooks listen and whatever was put out before, the part ends in the
same way, and the former are told to the one and the latter to the other. -/
structure Recounts {α : Type} (part : Run α) (machine : Machine) (earlier later : List Happening) :
    Prop where
  earlier_eq_nil : machine.process.hookSetup = .done → earlier = []
  later_eq_nil : (left (part machine)).process.hookSetup ≠ .done → later = []
  stays : machine.process.hookSetup = .done → (left (part machine)).process.hookSetup = .done
  surfaced {payload : Payload} {last : Machine} : part machine = .error (.raised payload) last →
    ∃ thread, .raised { thread, payload } ∈ earlier ++ later
  ends {listeners : Listeners} (output : Output) : machine.process.Admits listeners →
    part (machine.voiced listeners output) =
      leaving ((left (part machine)).voiced listeners
        (later.foldl (Happening.tell listeners.behind)
          (earlier.foldl (Happening.tell listeners.before) output))) (part machine)

/-- Every machine has an account of a part. -/
def Recounted {α : Type} (part : Run α) : Prop :=
  ∀ machine, ∃ earlier later, Recounts part machine earlier later

namespace Recounts

variable {α β : Type} {part : Run α} {machine : Machine} {earlier later : List Happening}

/-- Hooks that may listen to a part may listen to what comes behind it. -/
theorem admits (h : Recounts part machine earlier later) {listeners : Listeners}
    (hadmits : machine.process.Admits listeners) :
    (left (part machine)).process.Admits listeners :=
  hadmits.imp_left h.stays

/-- A part during which the hook of the library is not put in front. -/
theorem of_steady (story : List Happening)
    (hsetup : (left (part machine)).process.hookSetup = .done ↔
      machine.process.hookSetup = .done)
    (hsurfaced : ∀ {payload last}, part machine = .error (.raised payload) last →
      ∃ thread, .raised { thread, payload } ∈ story)
    (hends : ∀ listeners output, part (machine.voiced listeners output) =
      leaving ((left (part machine)).voiced listeners
        (story.foldl (Happening.tell (machine.process.front listeners)) output)) (part machine)) :
    Recounts part machine (if machine.process.hookSetup = .done then [] else story)
      (if machine.process.hookSetup = .done then story else []) := by
  by_cases hdone : machine.process.hookSetup = .done
  · rw [if_pos hdone, if_pos hdone]
    refine ⟨fun _ ↦ rfl, fun hpending ↦ absurd (hsetup.mpr hdone) hpending, hsetup.mpr, hsurfaced,
      fun output _ ↦ ?_⟩
    rw [hends, Process.front, if_pos hdone]
    rfl
  · rw [if_neg hdone, if_neg hdone]
    refine ⟨fun hdone' ↦ absurd hdone' hdone, fun _ ↦ rfl, hsetup.mpr, ?_, fun output _ ↦ ?_⟩
    · intro payload last hraised
      rw [List.append_nil]
      exact hsurfaced hraised
    · rw [hends, Process.front, if_neg hdone]
      rfl

/-- A part that returns, and does not put the hook of the library in front. -/
theorem of_ok (story : List Happening) {value : α} {reached : Machine}
    (hpart : part machine = .ok value reached)
    (hsetup : reached.process.hookSetup = machine.process.hookSetup)
    (hvoiced : ∀ listeners output, part (machine.voiced listeners output) =
      .ok value (reached.voiced listeners
        (story.foldl (Happening.tell (machine.process.front listeners)) output))) :
    Recounts part machine (if machine.process.hookSetup = .done then [] else story)
      (if machine.process.hookSetup = .done then story else []) := by
  have hleft : left (part machine) = reached := by
    rw [hpart]
    rfl
  refine of_steady story (by rw [hleft, hsetup]) (fun hraised ↦ ?_) fun listeners output ↦ ?_
  · rw [hpart] at hraised
    cases hraised
  · rw [hvoiced, hleft, hpart]
    rfl

/-- A part that does what another one does at a machine at which the hook of the library is in front
if it is here. -/
theorem of_eq {other : Run α} {start : Machine} (h : Recounts other start earlier later)
    (hsetup : start.process.hookSetup = .done ↔ machine.process.hookSetup = .done)
    (hpart : part machine = other start) (hvoiced : ∀ listeners output,
      part (machine.voiced listeners output) = other (start.voiced listeners output)) :
    Recounts part machine earlier later where
  earlier_eq_nil hdone := h.earlier_eq_nil (hsetup.mpr hdone)
  later_eq_nil := by
    rw [hpart]
    exact h.later_eq_nil
  stays hdone := by
    rw [hpart]
    exact h.stays (hsetup.mpr hdone)
  surfaced {payload last} hraised := h.surfaced (hpart ▸ hraised)
  ends output hadmits := by
    rw [hvoiced, hpart]
    exact h.ends output (hadmits.imp_left hsetup.mpr)

/-- The accounts of two parts one after the other. What the second one tells before the hook of the
library is in front comes behind what the first one tells after that, but never are there both. -/
theorem trans {γ : Type} {first : Run α} {next : Run β} {whole : Run γ}
    {moreEarlier moreLater : List Happening} (hfirst : Recounts first machine earlier later)
    (hnext : Recounts next (left (first machine)) moreEarlier moreLater)
    (hleft : left (whole machine) = left (next (left (first machine))))
    (hsurfaced : ∀ {payload last}, whole machine = .error (.raised payload) last →
      (∃ last, first machine = .error (.raised payload) last) ∨
        ∃ last, next (left (first machine)) = .error (.raised payload) last)
    (hends : ∀ {listeners} output, machine.process.Admits listeners →
      whole (machine.voiced listeners output) =
        leaving ((left (next (left (first machine)))).voiced listeners
          (moreLater.foldl (Happening.tell listeners.behind)
            (moreEarlier.foldl (Happening.tell listeners.before)
              (later.foldl (Happening.tell listeners.behind)
                (earlier.foldl (Happening.tell listeners.before) output))))) (whole machine)) :
    Recounts whole machine (earlier ++ moreEarlier) (later ++ moreLater) where
  earlier_eq_nil hdone := by
    rw [hfirst.earlier_eq_nil hdone, hnext.earlier_eq_nil (hfirst.stays hdone)]
    rfl
  later_eq_nil hpending := by
    rw [hleft] at hpending
    rw [hnext.later_eq_nil hpending,
      hfirst.later_eq_nil fun hdone ↦ hpending (hnext.stays hdone)]
    rfl
  stays hdone := by
    rw [hleft]
    exact hnext.stays (hfirst.stays hdone)
  surfaced {payload last} hraised := by
    rcases hsurfaced hraised with ⟨last, hbefore⟩ | ⟨last, hbehind⟩
    · obtain ⟨thread, hmem⟩ := hfirst.surfaced hbefore
      refine ⟨thread, ?_⟩
      simp only [List.mem_append] at hmem ⊢
      tauto
    · obtain ⟨thread, hmem⟩ := hnext.surfaced hbehind
      refine ⟨thread, ?_⟩
      simp only [List.mem_append] at hmem ⊢
      tauto
  ends output hadmits := by
    rw [hends output hadmits, hleft, List.foldl_append, List.foldl_append]
    by_cases hdone : (left (first machine)).process.hookSetup = .done
    · rw [hnext.earlier_eq_nil hdone]
      rfl
    · rw [hfirst.later_eq_nil hdone]
      rfl

/-- A part that returns, and what comes after it. -/
theorem bind_of_ok {next : α → Run β} {value : α} {after : Machine}
    {moreEarlier moreLater : List Happening} (hfirst : Recounts part machine earlier later)
    (hmachine : part machine = .ok value after)
    (hnext : Recounts (next value) after moreEarlier moreLater) :
    Recounts (part >>= next) machine (earlier ++ moreEarlier) (later ++ moreLater) := by
  have hends := @hfirst.ends
  have hafter : left (part machine) = after := by rw [hmachine]; rfl
  refine hfirst.trans (hafter ▸ hnext) ?_ ?_ fun output hadmits ↦ ?_
  · rw [Run.bind_of_ok hmachine, hafter]
  · intro payload last hraised
    rw [Run.bind_of_ok hmachine] at hraised
    exact .inr ⟨last, hafter ▸ hraised⟩
  · have hthere := hafter ▸ hfirst.admits hadmits
    rw [hmachine] at hends
    rw [Run.bind_of_ok (hends output hadmits), Run.bind_of_ok hmachine, hafter]
    exact hnext.ends _ hthere

/-- A part that does not return, so nothing comes after it. -/
theorem bind_of_error {next : α → Run β} {interrupt : Interrupt} {after : Machine}
    (hfirst : Recounts part machine earlier later)
    (hmachine : part machine = .error interrupt after) :
    Recounts (part >>= next) machine earlier later := by
  have hends := @hfirst.ends
  refine ⟨hfirst.earlier_eq_nil, ?_, ?_, ?_, fun output hadmits ↦ ?_⟩
  · rw [Run.bind_of_error hmachine]
    simpa [hmachine, left] using hfirst.later_eq_nil
  · rw [Run.bind_of_error hmachine]
    simpa [hmachine, left] using hfirst.stays
  · intro payload last hraised
    rw [Run.bind_of_error hmachine] at hraised
    cases hraised
    exact hfirst.surfaced hmachine
  · rw [hmachine] at hends
    rw [Run.bind_of_error (hends output hadmits), Run.bind_of_error hmachine]
    rfl

/-- A part and its cleanup. -/
theorem andFinally {cleanup : Run Unit} {moreEarlier moreLater : List Happening}
    (hbody : Recounts part machine earlier later) (hgoes : goesOn (part machine) = true)
    (hcleanup : Recounts cleanup (left (part machine)) moreEarlier moreLater) :
    Recounts (Run.andFinally part cleanup) machine (earlier ++ moreEarlier)
      (later ++ moreLater) := by
  have hwhole : Run.andFinally part cleanup machine =
      closing (part machine) (cleanup (left (part machine))) := by
    rw [andFinally_eq, if_pos hgoes]
  refine hbody.trans hcleanup ?_ ?_ fun output hadmits ↦ ?_
  · rw [hwhole, left_closing]
  · intro payload last hraised
    rw [hwhole] at hraised
    exact raised_of_closing hraised
  · rw [andFinally_eq, hbody.ends output hadmits, goesOn_leaving, left_leaving,
      hcleanup.ends _ (hbody.admits hadmits), if_pos hgoes, closing_leaving, hwhole]

/-- A part that breaks off, so its cleanup does not run. -/
theorem andFinally_of_break {cleanup : Run Unit} (hbody : Recounts part machine earlier later)
    (hbreak : ¬goesOn (part machine) = true) :
    Recounts (Run.andFinally part cleanup) machine earlier later := by
  have hwhole (voiced : Machine) (h : ¬goesOn (part voiced) = true) :
      Run.andFinally part cleanup voiced = part voiced := by
    rw [andFinally_eq, if_neg h]
  have hmachine := hwhole machine hbreak
  refine ⟨hbody.earlier_eq_nil, ?_, ?_, ?_, fun output hadmits ↦ ?_⟩
  · rw [hmachine]
    exact hbody.later_eq_nil
  · rw [hmachine]
    exact hbody.stays
  · rw [hmachine]
    exact hbody.surfaced
  · rw [hmachine, hwhole _ (by rwa [hbody.ends output hadmits, goesOn_leaving])]
    exact hbody.ends output hadmits

/-- What is raised is handed over without a word. -/
theorem intercept (h : Recounts part machine earlier later) :
    Recounts (Run.intercept part) machine earlier later := by
  refine ⟨h.earlier_eq_nil, ?_, ?_, ?_, fun output hadmits ↦ ?_⟩
  · rw [intercept_eq, process_left_intercepted]
    exact h.later_eq_nil
  · rw [intercept_eq, process_left_intercepted]
    exact h.stays
  · intro payload last hraised
    rw [intercept_eq] at hraised
    exact absurd hraised (intercepted_ne_raised _)
  · rw [intercept_eq, h.ends output hadmits, intercepted_leaving_voiced, intercept_eq]

/-- A part that returns without a word, and does not put the hook of the library in front. -/
theorem of_silent {value : α} {reached : Machine} (hpart : part machine = .ok value reached)
    (hsetup : reached.process.hookSetup = machine.process.hookSetup)
    (hvoiced : ∀ listeners output, part (machine.voiced listeners output) =
      .ok value (reached.voiced listeners output)) : Recounts part machine [] [] := by
  have h := of_ok [] hpart hsetup hvoiced
  rwa [ite_self] at h

/-- A record is told as such. -/
theorem record (entry : Record) (machine : Machine) : Recounts (record entry) machine
    (if machine.process.hookSetup = .done then [] else [.recorded entry])
    (if machine.process.hookSetup = .done then [.recorded entry] else []) := by
  refine of_ok [.recorded entry] (record_eq entry machine)
    (machine.process.hookSetup_recorded entry) fun listeners output ↦ ?_
  have hvoiced : (machine.process.voiced listeners output).recorded entry =
      (machine.process.recorded entry).voiced listeners (output.recorded entry) := by
    rw [Process.recorded_voiced, Process.voiced_recorded]
  exact (record_eq entry _).trans
    (congrArg (fun process ↦ EStateM.Result.ok () { machine with process }) hvoiced)

/-- Who asks for the settings tells the warnings that are due. -/
theorem settings (machine : Machine) : ∃ warnings : List Record, (∀ entry ∈ warnings,
      entry.isWarning = true) ∧
    Recounts settings machine
      (if machine.process.hookSetup = .done then [] else warnings.map .recorded)
      (if machine.process.hookSetup = .done then warnings.map .recorded else []) := by
  rcases hsettings : machine.process.settings with _ | loaded
  · -- The warnings that are due are records like others.
    refine ⟨machine.process.dueWarnings, fun _ ↦ machine.process.isWarning_of_mem_dueWarnings,
      of_ok _ (settings_of_fresh hsettings)
        (Process.hookSetup_foldl _ _ fun process entry ↦ process.hookSetup_recorded entry)
        fun listeners output ↦ ?_⟩
    let settled : Process := machine.process.withSettings machine.process.effectiveSettings
    have hloaded : (machine.process.voiced listeners output).loaded =
        machine.process.loaded.voiced listeners
          (machine.process.dueWarnings.foldl Output.recorded output) := by
      change machine.process.dueWarnings.foldl Process.recorded (settled.voiced listeners output) =
        (machine.process.dueWarnings.foldl Process.recorded settled).voiced listeners _
      rw [Process.voiced_foldl _ _ _ _ fun process entry ↦ process.voiced_recorded _ _ entry,
        Process.foldl_voiced _ _ _ _ fun process output entry ↦ process.recorded_voiced _ _ entry]
    rw [List.foldl_map]
    have hvoiced : (machine.voiced listeners output).process.settings = none := hsettings
    exact (settings_of_fresh hvoiced).trans (congrArg
      (fun process ↦ (.ok machine.process.effectiveSettings { machine with process } :
        EStateM.Result Interrupt Machine Settings)) hloaded)
  · refine ⟨[], by simp, ?_⟩
    rw [List.map_nil, ite_self]
    exact of_silent (settings_of_loaded hsettings) rfl fun _ _ ↦ settings_of_loaded hsettings

/-- A raise tells itself once, with the name of the thread that it is on. -/
theorem raise (payload : Payload) (machine : Machine) :
    Recounts (Run.raise payload : Run α) machine
      (if machine.process.hookSetup = .done then []
        else [.raised { thread := machine.thread.name, payload }])
      (if machine.process.hookSetup = .done then
        [.raised { thread := machine.thread.name, payload }] else []) := by
  let raised : Raise := { thread := machine.thread.name, payload }
  refine of_steady [.raised raised] ?_ (fun {payload' last} h ↦ ?_) fun listeners output ↦ ?_
  · rw [raise_eq_noticed]
    change (List.foldl _ machine.process _).hookSetup = .done ↔ _
    rw [Process.hookSetup_foldl _ _ fun process notice ↦ process.hookSetup_noticed notice]
  · rw [raise_eq_noticed] at h
    cases h
    exact ⟨_, List.mem_singleton_self _⟩
  · have htold (hook : Hook) : (hook.notices raised).foldl Process.noticed
        (machine.process.voiced listeners output) = machine.process.voiced listeners
          ((hook.notices raised).foldl Output.noticed output) :=
      Process.foldl_voiced _ _ _ _ fun process output notice ↦ process.noticed_voiced _ _ notice
    have hleft (hook : Hook) (output : Output) : ((hook.notices raised).foldl Process.noticed
        machine.process).voiced listeners output = machine.process.voiced listeners output :=
      Process.voiced_foldl _ _ _ _ fun process notice ↦ process.voiced_noticed _ _ notice
    have hvoiced := (htold (machine.process.front listeners)).trans
      (hleft machine.process.hook _).symm
    let counted : Thread := { machine.thread with unwinding := machine.thread.unwinding + 1 }
    rw [raise_eq_noticed, raise_eq_noticed]
    exact congrArg (fun process ↦ (.error (.raised payload) { process, thread := counted } :
      EStateM.Result Interrupt Machine α)) hvoiced

/-- Outside of panics, nobody is told that the hook of the library is put in front. -/
theorem installHook (hpending : machine.process.hookSetup = .pending)
    (hunwinding : machine.thread.unwinding = 0) : Recounts installHook machine [] [] := by
  have hend := installHook_of_pending hpending hunwinding
  refine ⟨fun _ ↦ rfl, fun _ ↦ rfl, fun _ ↦ ?_, fun hraised ↦ ?_,
    fun {listeners} output hadmits ↦ ?_⟩
  · rw [hend]
    rfl
  · rw [hend] at hraised
    cases hraised
  · have hhook : (machine.voiced listeners output).process.hook = listeners.before :=
      if_neg (by simp [hpending])
    have hfront : listeners.behind = .reporting listeners.before :=
      hadmits.resolve_left (by simp [hpending])
    have hvoiced : (machine.voiced listeners output).process.hookSetup = .pending := hpending
    rw [installHook_of_pending hvoiced hunwinding, hend, hhook, ← hfront]
    rfl

end Recounts

namespace Recounted

variable {α β : Type}

theorem bind {part : Run α} {next : α → Run β} (hpart : Recounted part)
    (hnext : ∀ value, Recounted (next value)) : Recounted (part >>= next) := by
  intro machine
  obtain ⟨earlier, later, hfirst⟩ := hpart machine
  rcases hmachine : part machine with ⟨value, after⟩ | ⟨interrupt, after⟩
  · obtain ⟨moreEarlier, moreLater, hlast⟩ := hnext value after
    exact ⟨_, _, hfirst.bind_of_ok hmachine hlast⟩
  · exact ⟨_, _, hfirst.bind_of_error hmachine⟩

theorem andFinally {body : Run α} {cleanup : Run Unit} (hbody : Recounted body)
    (hcleanup : Recounted cleanup) : Recounted (Run.andFinally body cleanup) := by
  intro machine
  obtain ⟨earlier, later, hfirst⟩ := hbody machine
  by_cases hgoes : goesOn (body machine) = true
  · obtain ⟨moreEarlier, moreLater, hlast⟩ := hcleanup (left (body machine))
    exact ⟨_, _, hfirst.andFinally hgoes hlast⟩
  · exact ⟨_, _, hfirst.andFinally_of_break hgoes⟩

theorem intercept {body : Run α} (hbody : Recounted body) : Recounted (Run.intercept body) := by
  intro machine
  obtain ⟨earlier, later, h⟩ := hbody machine
  exact ⟨earlier, later, h.intercept⟩

theorem observe {next : Process → Run α} (hsame : ∀ process, next process = next process.basis)
    (hnext : ∀ process, Recounted (next process)) : Recounted (process >>= next) := by
  intro machine
  obtain ⟨earlier, later, h⟩ := hnext machine.process machine
  refine ⟨earlier, later, h.earlier_eq_nil, h.later_eq_nil, h.stays, h.surfaced,
    fun {listeners} output hadmits ↦ ?_⟩
  have hvoiced : next (machine.voiced listeners output).process = next machine.process := by
    rw [hsame, hsame machine.process]
    rfl
  change next (machine.voiced listeners output).process (machine.voiced listeners output) = _
  rw [hvoiced]
  exact h.ends output hadmits

theorem record (entry : Record) : Recounted (record entry) :=
  fun machine ↦ ⟨_, _, Recounts.record entry machine⟩

theorem writeDiagnostics (text : String) : Recounted (writeDiagnostics text) :=
  fun _ ↦ ⟨_, _, Recounts.of_ok [.written text] rfl rfl fun _ _ ↦ rfl⟩

theorem settings : Recounted settings := by
  intro machine
  obtain ⟨warnings, -, h⟩ := Recounts.settings machine
  exact ⟨_, _, h⟩

/-- The policy of the process is made without a word. -/
theorem rootSettings : Recounted rootSettings := by
  intro machine
  cases hroot : machine.process.root with
  | some kept =>
    exact ⟨_, _, Recounts.of_silent (rootSettings_of_some hroot) rfl fun _ _ ↦
      rootSettings_of_some hroot⟩
  | none =>
    have hmaking : Recounted (do
        let settings ← Run.settings
        modifyProcess Process.withRoot
        return settings : Run Settings) := by
      refine settings.bind fun _ ↦ Recounted.bind (fun _ ↦ ?_) fun _ _ ↦ ?_
      · exact ⟨_, _, Recounts.of_silent rfl rfl fun _ _ ↦ rfl⟩
      · exact ⟨_, _, Recounts.of_silent rfl rfl fun _ _ ↦ rfl⟩
    obtain ⟨earlier, later, h⟩ := hmaking machine
    exact ⟨earlier, later, h.of_eq Iff.rfl (rootSettings_of_none hroot) fun _ _ ↦
      rootSettings_of_none hroot⟩

theorem raise (payload : Payload) : Recounted (raise payload : Run α) :=
  fun machine ↦ ⟨_, _, Recounts.raise payload machine⟩

/-- An attempt to put the hook of the library in front that fails is told like any other raise. -/
theorem installHook : Recounted installHook := by
  intro machine
  cases hsetup : machine.process.hookSetup with
  | done =>
    exact ⟨_, _, Recounts.of_silent (installHook_of_done hsetup) rfl fun _ _ ↦
      installHook_of_done hsetup⟩
  | poisoned =>
    obtain ⟨earlier, later, h⟩ := Recounted.raise _ machine
    exact ⟨earlier, later, h.of_eq Iff.rfl (installHook_of_poisoned hsetup)
      fun _ _ ↦ installHook_of_poisoned hsetup⟩
  | pending =>
    by_cases hunwinding : machine.thread.unwinding = 0
    · exact ⟨[], [], .installHook hsetup hunwinding⟩
    · let poisoned : Machine :=
        { machine with process := { machine.process with hookSetup := .poisoned } }
      obtain ⟨earlier, later, h⟩ := Recounted.raise _ poisoned
      refine ⟨earlier, later, h.of_eq ?_ (installHook_of_unwinding hsetup hunwinding)
        fun listeners output ↦ ?_⟩
      · simp [poisoned, hsetup]
      · let listened : Machine := poisoned.voiced listeners output
        have hhook : (machine.voiced listeners output).process.hook = listeners.before :=
          if_neg (by simp [hsetup])
        have hpending : (machine.voiced listeners output).process.hookSetup = .pending := hsetup
        have hsame : ({ machine.voiced listeners output with process :=
            { (machine.voiced listeners output).process with hookSetup := .poisoned } } : Machine) =
              listened :=
          congrArg (fun hook ↦ ({ listened with process := { listened.process with hook } } :
            Machine)) hhook
        rw [installHook_of_unwinding hpending hunwinding, hsame]

instance : Compositional fun _ part ↦ Recounted part where
  pure _ _ := ⟨_, _, Recounts.of_silent rfl rfl fun _ _ ↦ rfl⟩
  throw interrupt hbreak _ := by
    refine ⟨_, _, Recounts.of_steady [] Iff.rfl (fun {payload _} hraised ↦ ?_) fun _ _ ↦ rfl⟩
    cases hraised
    exact absurd rfl (hbreak payload)
  raise := raise
  bind := bind
  andFinally := andFinally
  intercept := intercept
  updateThread _ _ := ⟨_, _, Recounts.of_silent rfl rfl fun _ _ ↦ rfl⟩
  observe := observe
  record entry _ := record entry
  writeDiagnostics := writeDiagnostics
  settings := settings
  rootSettings := rootSettings
  installHook := installHook

end Recounted

end Run

/-- All tasks have accounts. -/
theorem Interpreter.recounted_run (depth : ℕ) (task : Task) : Run.Recounted (run depth task) :=
  @holds_run (fun _ part ↦ Run.Recounted part) _ depth task

/-! ### The life of a process -/

/-- The hook of the library is asked for. -/
def Episode.isHook : Episode → Bool
  | .hook => true
  | _ => false

theorem Episode.recounted (episode : Episode) : Run.Recounted episode.part := by
  cases episode with
  | outside environment => exact fun _ ↦ ⟨_, _, .of_silent rfl rfl fun _ _ ↦ rfl⟩
  | hook => exact Run.Recounted.installHook
  | switch thread => exact fun _ ↦ ⟨_, _, .of_silent rfl rfl fun _ _ ↦ rfl⟩
  | task depth task =>
    have hrun : Run.Holds (fun _ part ↦ Run.Recounted part) (Interpreter.run depth task) :=
      Interpreter.recounted_run depth task
    exact hrun.catching.bind fun _ ↦ .pure _

namespace Machine

variable {machine : Machine}

/-- Once the hook of the library is in front, whatever happens is told to it. -/
theorem behind_voiced (h : machine.process.hookSetup = .done) (episodes : List Episode) :
    ∃ story : List Happening, ∀ listeners output,
      (machine.voiced listeners output).behind episodes = (machine.behind episodes).voiced listeners
        (story.foldl (Happening.tell listeners.behind) output) := by
  induction episodes generalizing machine with
  | nil => exact ⟨[], fun _ _ ↦ rfl⟩
  | cons episode rest ih =>
    obtain ⟨earlier, later, haccount⟩ := episode.recounted machine
    obtain ⟨story, hstory⟩ := ih (haccount.stays h)
    refine ⟨later ++ story, fun listeners output ↦ ?_⟩
    rw [behind_cons, haccount.ends output (.inl h), haccount.earlier_eq_nil h, Run.left_leaving,
      hstory, List.foldl_append]
    rfl

/-- Once the hook of the library is in front, asking for it again changes nothing. -/
theorem behind_filter (h : machine.process.hookSetup = .done) (episodes : List Episode) :
    machine.behind (episodes.filter fun episode ↦ !episode.isHook) = machine.behind episodes := by
  induction episodes generalizing machine with
  | nil => rfl
  | cons episode rest ih =>
    obtain ⟨earlier, later, haccount⟩ := episode.recounted machine
    by_cases hhook : episode.isHook = true
    · have hsame : episode = .hook := by
        cases episode <;> first | rfl | cases hhook
      rw [List.filter_cons_of_neg (by simp [hhook]), ih h, behind_cons, hsame]
      exact congrArg (fun ended ↦ (Run.left ended).behind rest) (Run.installHook_of_done h).symm
    · rw [List.filter_cons_of_pos (by simp [hhook])]
      exact ih (haccount.stays h)

end Machine

end Escalation
