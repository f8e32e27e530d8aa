import Escalation.Proofs.Course

/-!
# Settings that were loaded before

Settings are loaded where they are asked for first. A run shows the same, the warning about them
apart, and leaves the same on its thread, if these settings were there from the start: each machine
that it comes to is mirrored by one that has them (`Machine.Mirrors`). The variables of that machine
may be any others, since nobody looks at them but for loading the settings, and its policy may have
been made or not. A run in which nobody asks for the settings is mirrored whatever they are.

This goes for all parts of runs, since it passes from parts to what is made of them
(`Run.Mirrored`), and so for all tasks (`Interpreter.mirrored_run`).
-/

set_option autoImplicit false
set_option relaxedAutoImplicit false

namespace Escalation

/-! ### What is shown besides the warning -/

/-- What a record shows, unless it is the warning: a text on the diagnostic stream character by
character, since it does not matter where a record parts it. -/
def Record.shown : Record → List (Char ⊕ Record)
  | .diagnostics text => text.toList.map .inl
  | entry => if entry.isWarning then [] else [.inr entry]

theorem Record.shown_of_warning {entry : Record} (h : entry.isWarning = true) :
    entry.shown = [] := by
  cases entry with
  | logged level target text => exact if_pos h
  | _ => cases h

namespace Process

/-- All that a process has shown, the warning apart. -/
def shown (process : Process) : List (Char ⊕ Record) :=
  process.records.toList.flatMap Record.shown ++ process.diagnostics.toList.map .inl

/-- The warnings that a process has given. -/
def warnings (process : Process) : List Record := process.records.toList.filter Record.isWarning

section Recorded

variable (process : Process) (entry : Record) (text : String)

theorem shown_recorded : (process.recorded entry).shown = process.shown ++ entry.shown := by
  have hflushed : process.flushed.shown = process.shown := by
    unfold flushed
    split
    · rfl
    · simp [shown, Record.shown]
  rw [← hflushed]
  simp [shown, recorded, diagnostics_flushed]

theorem shown_written :
    { process with diagnostics := process.diagnostics ++ text }.shown =
      process.shown ++ text.toList.map .inl := by
  simp [shown]

theorem warnings_recorded :
    (process.recorded entry).warnings = process.warnings ++ [entry].filter Record.isWarning := by
  have hflushed : process.flushed.warnings = process.warnings := by
    unfold flushed
    split
    · rfl
    · simp [warnings]
  rw [← hflushed]
  simp [warnings, recorded]

theorem given_recorded : (process.recorded entry).given = process.given := by
  obtain ⟨records, diagnostics, hrecorded⟩ := process.exists_recorded entry
  rw [hrecorded]
  rfl

theorem settings_recorded : (process.recorded entry).settings = process.settings := by
  obtain ⟨records, diagnostics, hrecorded⟩ := process.exists_recorded entry
  rw [hrecorded]

/-- What is due where the settings are loaded are warnings. -/
theorem isWarning_of_mem_dueWarnings {entry : Record} (h : entry ∈ process.dueWarnings) :
    entry.isWarning = true := by
  unfold dueWarnings at h
  split at h
  · cases h
  · split at h
    · rw [List.mem_singleton.mp h]
      rfl
    · cases h

/-- Loading the settings shows nothing but the warnings that are due. -/
theorem loaded_spec : process.loaded.given = process.given ∧
    process.loaded.settings = some process.effectiveSettings ∧
    process.loaded.shown = process.shown ∧
    process.loaded.warnings = process.warnings ++ process.dueWarnings := by
  have hrecorded (entries : List Record) (settled : Process)
      (h : ∀ entry ∈ entries, entry.isWarning = true) :
      (entries.foldl recorded settled).given = settled.given ∧
      (entries.foldl recorded settled).settings = settled.settings ∧
      (entries.foldl recorded settled).shown = settled.shown ∧
      (entries.foldl recorded settled).warnings = settled.warnings ++ entries := by
    induction entries generalizing settled with
    | nil => simp
    | cons entry rest ih =>
      have hentry := h entry (by simp)
      obtain ⟨hgiven, hsettings, hshown, hwarnings⟩ :=
        ih (settled.recorded entry) fun other hother ↦ h other (by simp [hother])
      refine ⟨?_, ?_, ?_, ?_⟩
      · rw [List.foldl_cons, hgiven, given_recorded]
      · rw [List.foldl_cons, hsettings, settings_recorded]
      · rw [List.foldl_cons, hshown, shown_recorded, Record.shown_of_warning hentry,
          List.append_nil]
      · rw [List.foldl_cons, hwarnings, warnings_recorded, List.filter_singleton, hentry,
          List.append_assoc]
        rfl
  exact hrecorded process.dueWarnings (process.withSettings process.effectiveSettings)
    fun _ ↦ process.isWarning_of_mem_dueWarnings

/-- Who asks for the settings leaves them in place. -/
theorem settings_asked : process.asked.settings = some process.effectiveSettings := by
  unfold asked
  split
  · rename_i loaded hloaded
    simp [effectiveSettings, hloaded]
  · exact process.loaded_spec.2.1

end Recorded

/-- Settings that are loaded stay. -/
def Retains (process after : Process) : Prop :=
  ∀ loaded, process.settings = some loaded → after.settings = some loaded

instance : Course Retains where
  refl _ _ h := h
  trans h hlast loaded hloaded := hlast loaded (h loaded hloaded)
  recorded process entry loaded hloaded := (process.settings_recorded entry).trans hloaded
  written _ _ _ h := h
  hooked _ _ _ _ h := h
  loaded _ hnone _ hloaded := by
    rw [hnone] at hloaded
    cases hloaded
  rooted _ _ h := h

/-- No settings are loaded, or these. -/
def Allows (process : Process) (settings : Settings) : Prop :=
  ∀ loaded, process.settings = some loaded → loaded = settings

/-- What allowed settings in the end allowed them all the time. -/
theorem Retains.allows {process after : Process} {settings : Settings} (h : process.Retains after)
    (hafter : after.Allows settings) : process.Allows settings :=
  fun loaded hloaded ↦ hafter loaded (h loaded hloaded)

end Process

/-! ### Mirrors -/

/-- A machine with the settings in place that is like another one apart from the settings, the
warning about them and the variables. -/
structure Machine.Mirrors (settings : Settings) (machine image : Machine) : Prop where
  thread : image.thread = machine.thread
  given : image.process.given = machine.process.given
  shown : image.process.shown = machine.process.shown
  settings : image.process.settings = some settings

namespace Machine.Mirrors

variable {settings : Settings} {machine image : Machine} (h : machine.Mirrors settings image)
include h

theorem caught : machine.caught.Mirrors settings image.caught where
  thread := by simp only [Machine.caught, h.thread]
  given := h.given
  shown := h.shown
  settings := h.settings

theorem recorded (entry : Record) :
    { machine with process := machine.process.recorded entry }.Mirrors settings
      { image with process := image.process.recorded entry } where
  thread := h.thread
  given := by
    change (image.process.recorded entry).given = (machine.process.recorded entry).given
    rw [Process.given_recorded, Process.given_recorded, h.given]
  shown := by
    change (image.process.recorded entry).shown = (machine.process.recorded entry).shown
    rw [Process.shown_recorded, Process.shown_recorded, h.shown]
  settings := (image.process.settings_recorded entry).trans h.settings

theorem written (text : String) :
    Mirrors settings
      { machine with process :=
        { machine.process with diagnostics := machine.process.diagnostics ++ text } }
      { image with process :=
        { image.process with diagnostics := image.process.diagnostics ++ text } } where
  thread := h.thread
  given := h.given
  shown := by
    change Process.shown { image.process with diagnostics := _ } =
      Process.shown { machine.process with diagnostics := _ }
    rw [Process.shown_written, Process.shown_written, h.shown]
  settings := h.settings

theorem hooked (change : Hook → Hook) (hookSetup : HookSetup) :
    Mirrors settings
      { machine with process :=
        { machine.process with hook := change machine.process.hook, hookSetup } }
      { image with process :=
        { image.process with hook := change image.process.hook, hookSetup } } where
  thread := h.thread
  given := congrArg
    (fun given ↦ { given with hook := change given.hook, hookSetup }) h.given
  shown := h.shown
  settings := h.settings

/-- The settings are asked for where they were loaded before. -/
theorem asked : { machine with process := machine.process.asked }.Mirrors settings image := by
  unfold Process.asked
  split
  · exact h
  · exact ⟨h.thread, h.given.trans machine.process.loaded_spec.1.symm,
      h.shown.trans machine.process.loaded_spec.2.2.1.symm, h.settings⟩

/-- The policy of the process is made, and goes by the settings that were loaded before. -/
theorem rooted : { machine with process := machine.process.withRoot }.Mirrors settings image :=
  ⟨h.thread, h.given, h.shown, h.settings⟩

/-- The policy goes by the settings that were loaded before. -/
theorem rootSettings_eq : ∃ reached, Run.rootSettings image = .ok settings reached ∧
    machine.Mirrors settings reached := by
  cases hroot : image.process.root with
  | some kept =>
    have hkept := (Process.settings_of_root hroot).symm.trans h.settings
    cases hkept
    exact ⟨image, Run.rootSettings_of_some hroot, h⟩
  | none =>
    let reached : Machine := { image with process := image.process.withRoot }
    refine ⟨reached, ?_, ⟨h.thread, h.given, h.shown, h.settings⟩⟩
    exact (Run.rootSettings_of_none hroot).trans
      (Run.bind_of_ok (Run.settings_of_loaded h.settings))

end Machine.Mirrors

namespace Run

/-- A part that ends with no other settings loaded ends as it does where these settings were loaded
before, and settings that are loaded stay. -/
structure Mirrored (settings : Settings) {α : Type} (part : Run α) : Prop where
  retains : Follows Process.Retains part
  ends {machine image : Machine} : machine.Mirrors settings image →
    (left (part machine)).process.Allows settings → ∃ reached,
      (left (part machine)).Mirrors settings reached ∧
        part image = leaving reached (part machine)

namespace Mirrored

variable {settings : Settings} {α β : Type} {machine image after : Machine}

theorem bind {part : Run α} {next : α → Run β} (hpart : Mirrored settings part)
    (hnext : ∀ value, Mirrored settings (next value)) : Mirrored settings (part >>= next) where
  retains := Follows.bind Process.Course.trans hpart.retains fun value ↦ (hnext value).retains
  ends {machine image} h hend := by
    have hfirst := @hpart.ends machine image h
    rcases hmachine : part machine with ⟨value, after⟩ | ⟨interrupt, after⟩
    · rw [hmachine] at hfirst
      rw [bind_of_ok hmachine] at hend ⊢
      -- What is loaded in the first part is loaded in the end, so the end allows it in between.
      obtain ⟨reached, hmirrors, himage⟩ := hfirst (((hnext value).retains after).allows hend)
      rw [bind_of_ok himage]
      exact (hnext value).ends hmirrors hend
    · rw [hmachine] at hfirst
      rw [bind_of_error hmachine] at hend ⊢
      obtain ⟨reached, hmirrors, himage⟩ := hfirst hend
      exact ⟨reached, hmirrors, bind_of_error himage⟩

theorem andFinally {body : Run α} {cleanup : Run Unit} (hbody : Mirrored settings body)
    (hcleanup : Mirrored settings cleanup) : Mirrored settings (Run.andFinally body cleanup) where
  retains := Follows.andFinally Process.Course.trans hbody.retains hcleanup.retains
  ends {machine image} h hend := by
    rw [andFinally_eq] at hend ⊢
    rw [andFinally_eq]
    by_cases hgoes : goesOn (body machine) = true
    · rw [if_pos hgoes, left_closing] at hend
      obtain ⟨reached, hmirrors, himage⟩ := hbody.ends h ((hcleanup.retains _).allows hend)
      obtain ⟨last, hlast, hcleaned⟩ := hcleanup.ends hmirrors hend
      refine ⟨last, ?_, ?_⟩
      · rw [if_pos hgoes, left_closing]
        exact hlast
      · rw [himage, goesOn_leaving, left_leaving, hcleaned, if_pos hgoes, if_pos hgoes,
          closing_leaving]
    · rw [if_neg hgoes] at hend
      obtain ⟨reached, hmirrors, himage⟩ := hbody.ends h hend
      refine ⟨reached, ?_, ?_⟩
      · rw [if_neg hgoes]
        exact hmirrors
      · rw [himage, goesOn_leaving, if_neg hgoes, if_neg hgoes]

theorem intercept {body : Run α} (hbody : Mirrored settings body) :
    Mirrored settings (Run.intercept body) where
  retains := Follows.intercept hbody.retains
  ends {machine image} h hend := by
    have hfirst := @hbody.ends machine image h
    rcases hmachine : body machine with ⟨value, after⟩ | ⟨interrupt, after⟩
    · rw [hmachine] at hfirst
      rw [intercept_of_ok hmachine] at hend ⊢
      obtain ⟨reached, hmirrors, himage⟩ := hfirst hend
      exact ⟨reached, hmirrors, intercept_of_ok himage⟩
    · rw [hmachine] at hfirst
      cases interrupt with
      | raised payload =>
        rw [intercept_of_raised hmachine] at hend ⊢
        obtain ⟨reached, hmirrors, himage⟩ := hfirst hend
        exact ⟨reached.caught, hmirrors.caught, intercept_of_raised himage⟩
      | _ =>
        rw [intercept_of_break (by simp) hmachine] at hend ⊢
        obtain ⟨reached, hmirrors, himage⟩ := hfirst hend
        exact ⟨reached, hmirrors, intercept_of_break (by simp) himage⟩

/-- A part that returns, and does the same to mirrored machines. -/
theorem of_ok {part : Run α} (value : Machine → α) (change : Machine → Machine)
    (hpart : ∀ machine, part machine = .ok (value machine) (change machine))
    (hretains : Follows Process.Retains part)
    (hchange : ∀ {machine image : Machine}, machine.Mirrors settings image →
      value image = value machine ∧ (change machine).Mirrors settings (change image)) :
    Mirrored settings part where
  retains := hretains
  ends {machine image} h _ := by
    obtain ⟨hvalue, hmirrors⟩ := hchange h
    refine ⟨change image, ?_, ?_⟩
    · rw [hpart machine]
      exact hmirrors
    · rw [hpart machine, hpart image, hvalue]
      rfl

theorem updateThread (change : Thread → α × Thread) :
    Mirrored settings (Run.updateThread change) := by
  refine of_ok (fun machine ↦ (change machine.thread).1)
    (fun machine ↦ { machine with thread := (change machine.thread).2 }) (fun _ ↦ rfl)
    (fun machine ↦ Process.Course.refl machine.process) fun {machine image} h ↦ ?_
  rw [h.thread]
  exact ⟨rfl, rfl, h.given, h.shown, h.settings⟩

theorem observe {next : Process → Run α} (hsame : ∀ process, next process = next process.given)
    (hnext : ∀ process, Mirrored settings (next process)) :
    Mirrored settings (process >>= next) where
  retains machine := (hnext machine.process).retains machine
  ends {machine image} h hend := by
    change ∃ reached, (left (next machine.process machine)).Mirrors settings reached ∧
      next image.process image = leaving reached (next machine.process machine)
    rw [hsame image.process, h.given, ← hsame]
    exact (hnext machine.process).ends h hend

theorem settings_mirrored : Mirrored settings Run.settings where
  retains := Follows.settings
  ends {machine image} h hend := by
    -- The image does not load them: it has them, and they are those that are loaded here.
    have himage : Run.settings image = .ok settings image := settings_of_loaded h.settings
    rw [settings_eq_asked] at hend ⊢
    have heffective := hend _ machine.process.settings_asked
    rw [himage, heffective]
    exact ⟨image, h.asked, rfl⟩

theorem rootSettings_mirrored : Mirrored settings Run.rootSettings where
  retains := by
    have hretains : Holds (fun _ part ↦ Follows Process.Retains part) Run.rootSettings :=
      .rootSettings
    exact hretains
  ends {machine image} h hend := by
    obtain ⟨reached, himage, hmirrors⟩ := h.rootSettings_eq
    rw [himage]
    cases hroot : machine.process.root with
    | some kept =>
      rw [rootSettings_of_some hroot] at hend ⊢
      rw [hend kept (Process.settings_of_root hroot)]
      exact ⟨reached, hmirrors, rfl⟩
    | none =>
      have hmachine := (rootSettings_of_none hroot).trans (bind_of_ok (settings_eq_asked machine))
      rw [hmachine] at hend ⊢
      have heffective := hend _ machine.process.settings_asked
      rw [heffective]
      exact ⟨reached, hmirrors.asked.rooted, rfl⟩

instance (settings : Settings) : Elementary fun _ part ↦ Mirrored settings part where
  pure value := of_ok (fun _ ↦ value) id (fun _ ↦ rfl) (fun _ ↦ Process.Course.refl _)
    fun h ↦ ⟨rfl, h⟩
  throw _ :=
    { retains := fun machine ↦ Process.Course.refl machine.process
      ends := fun {_ image} h _ ↦ ⟨image, h, rfl⟩ }
  bind := Mirrored.bind
  andFinally := Mirrored.andFinally
  intercept := Mirrored.intercept
  updateThread := Mirrored.updateThread
  observe := Mirrored.observe
  record entry _ := of_ok (fun _ ↦ ()) _ (record_eq entry) (Follows.record entry)
    fun h ↦ ⟨rfl, h.recorded entry⟩
  writeDiagnostics text := of_ok (fun _ ↦ ()) _ (fun _ ↦ rfl)
    (fun machine ↦ Process.Course.written machine.process text) fun h ↦ ⟨rfl, h.written text⟩
  settings := settings_mirrored
  rootSettings := rootSettings_mirrored
  changeHook change hookSetup := by
    refine of_ok (fun _ ↦ ()) _ (fun _ ↦ rfl) (fun _ _ h ↦ h) fun {machine image} h ↦ ⟨rfl, ?_⟩
    exact h.hooked change hookSetup

end Mirrored

end Run

/-- All tasks that end with no other settings loaded end as they do where these settings were loaded
before. -/
theorem Interpreter.mirrored_run (settings : Settings) (depth : ℕ) (task : Task) :
    Run.Mirrored settings (run depth task) :=
  @holds_run (fun _ part ↦ Run.Mirrored settings part) _ depth task

end Escalation
