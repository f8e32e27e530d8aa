import Escalation.Proofs.Preloading
import Escalation.Proofs.Variables

/-!
# When the settings are loaded

In the life of a process, tasks are performed on its threads, and in between somebody outside may
change the variables that are set (`Episode`). The settings are loaded in the first episode in which
they are asked for, from the variables as they are then; they stay, and nobody goes by any others:
what is shown, and what becomes of the threads, is what they come to if these settings were there
from the start, and the variables were any others all the time (`settings_loaded_once`). The policy
of the process has a copy of the settings, which is made where they are or where it is the first to
ask for them.
-/

set_option autoImplicit false
set_option relaxedAutoImplicit false

namespace Escalation

/-! ### Loading once -/

namespace Process

/-- What the settings are loaded from, and what says if that is logged. -/
def source (process : Process) : Process :=
  { initial with
    throwing := process.throwing, environment := process.environment, tracing := process.tracing }

theorem source_recorded (process : Process) (entry : Record) :
    (process.recorded entry).source = process.source := by
  obtain ⟨records, diagnostics, hrecorded⟩ := process.exists_recorded entry
  rw [hrecorded]
  rfl

instance : Course fun process after ↦ after.source = process.source where
  refl _ := rfl
  trans h hlast := hlast.trans h
  recorded := source_recorded
  written _ _ := rfl
  hooked _ _ _ := rfl
  loaded _ _ := rfl
  rooted _ := rfl

/-- What is shared changes by nothing but output, hooks and at most one loading of the settings. -/
structure Loads (process after : Process) : Prop where
  source : after.source = process.source
  once : after.settings = process.settings ∧ after.warnings = process.warnings ∨
    process.settings = none ∧ after.settings = some process.effectiveSettings ∧
      after.warnings = process.warnings ++ process.dueWarnings

section Source

variable {process other : Process} (h : other.source = process.source)
include h

/-- Which settings are loaded depends on what the build and the environment give. -/
theorem consulted_eq : other.consulted = process.consulted := by
  have hsource : other.source.consulted = process.source.consulted := by rw [h]
  exact hsource

theorem dueWarnings_eq : other.dueWarnings = process.dueWarnings := by
  have hsource : other.source.dueWarnings = process.source.dueWarnings := by rw [h]
  exact hsource

theorem throwing_eq : other.throwing = process.throwing := by
  have hsource : other.source.throwing = process.source.throwing := by rw [h]
  exact hsource

theorem effectiveSettings_eq (hother : other.settings = none) (hprocess : process.settings = none) :
    other.effectiveSettings = process.effectiveSettings := by
  rw [effectiveSettings_of_fresh hother, effectiveSettings_of_fresh hprocess, consulted_eq h,
    throwing_eq h]

end Source

namespace Loads

variable {process after last : Process}

theorem refl (process : Process) : process.Loads process := ⟨rfl, .inl ⟨rfl, rfl⟩⟩

theorem trans (h : process.Loads after) (hlast : after.Loads last) : process.Loads last where
  source := hlast.source.trans h.source
  once := by
    rcases h.once with ⟨hsettings, hwarnings⟩ | ⟨hnone, hsettings, hwarnings⟩
    · rcases hlast.once with ⟨hlater, hsame⟩ | ⟨hlater, hloaded, hwarned⟩
      · exact .inl ⟨hlater.trans hsettings, hsame.trans hwarnings⟩
      · have hnone : process.settings = none := hsettings.symm.trans hlater
        refine .inr ⟨hnone, ?_, ?_⟩
        · rw [hloaded, effectiveSettings_eq h.source hlater hnone]
        · rw [hwarned, hwarnings, dueWarnings_eq h.source]
    · rcases hlast.once with ⟨hlater, hsame⟩ | ⟨hlater, -⟩
      · exact .inr ⟨hnone, hlater.trans hsettings, hsame.trans hwarnings⟩
      · rw [hsettings] at hlater
        cases hlater

theorem settings (machine : Machine) :
    machine.process.Loads (Run.left (Run.settings machine)).process := by
  have hfollows : Run.Follows (fun process after ↦ after.source = process.source) Run.settings :=
    .settings
  have hsource := hfollows machine
  rcases hsettings : machine.process.settings with _ | loaded
  · rw [Run.settings_of_fresh hsettings] at hsource ⊢
    obtain ⟨-, hloaded, -, hwarnings⟩ := machine.process.loaded_spec
    exact ⟨hsource, .inr ⟨hsettings, hloaded, hwarnings⟩⟩
  · rw [Run.settings_of_loaded hsettings]
    exact refl machine.process

end Loads

instance : Run.Elementary fun _ part ↦ Run.Follows Loads part :=
  Run.elementary_follows Loads.refl Loads.trans
    (fun process entry hentry ↦ ⟨process.source_recorded entry, .inl ⟨process.settings_recorded entry, by
        rw [warnings_recorded, List.filter_singleton, Bool.eq_false_iff.mpr hentry]
        exact List.append_nil _⟩⟩)
    (fun _ _ ↦ ⟨rfl, .inl ⟨rfl, rfl⟩⟩) (fun _ _ _ ↦ ⟨rfl, .inl ⟨rfl, rfl⟩⟩)
    (fun _ ↦ ⟨rfl, .inl ⟨rfl, rfl⟩⟩) Loads.settings

end Process

/-! ### Episodes -/

/-- One thing that happens in the life of a process. -/
inductive Episode
  /-- Somebody outside changes the variables that are set. -/
  | outside (environment : List (String × String))
  /-- The library reports what is raised from now on. -/
  | hook
  /-- The process goes on with another thread. -/
  | switch (thread : Thread)
  /-- A task is performed behind a catch. -/
  | task (depth : ℕ) (task : Task)

namespace Episode

/-- The part of a run that an episode is. -/
def part : Episode → Run Unit
  | .outside environment => Run.modifyProcess fun process ↦ { process with environment }
  | .hook => Run.installHook
  | .switch thread => Run.modifyThread fun _ ↦ thread
  | .task depth performed => do
    let _ ← Run.catching (Interpreter.run depth performed)

/-- An episode leaves the build as it is, and loads the settings at most once. -/
theorem loads (episode : Episode) (machine : Machine) :
    let after := (Run.left (episode.part machine)).process
    after.throwing = machine.process.throwing ∧
      (after.settings = machine.process.settings ∧ after.warnings = machine.process.warnings ∨
        machine.process.settings = none ∧
          after.settings = some machine.process.effectiveSettings ∧
          after.warnings = machine.process.warnings ++ machine.process.dueWarnings) := by
  cases episode with
  | outside environment => exact ⟨rfl, .inl ⟨rfl, rfl⟩⟩
  | hook =>
    have hhook : Run.Holds (fun _ part ↦ Run.Follows Process.Loads part) Episode.hook.part :=
      .installHook
    have hloads : machine.process.Loads (Run.left (Episode.hook.part machine)).process :=
      hhook machine
    exact ⟨Process.throwing_eq hloads.source, hloads.once⟩
  | switch thread => exact ⟨rfl, .inl ⟨rfl, rfl⟩⟩
  | task depth task =>
    have htask : Run.Holds (fun _ part ↦ Run.Follows Process.Loads part)
        (Episode.task depth task).part :=
      (Run.Holds.catching (Interpreter.holds_run depth task)).bind fun _ ↦ .pure _
    have hloads : machine.process.Loads
        (Run.left ((Episode.task depth task).part machine)).process := htask machine
    exact ⟨Process.throwing_eq hloads.source, hloads.once⟩

/-- The same episode, or another change of the variables in place of one. -/
inductive Elsewhere : Episode → Episode → Prop
  | same (episode : Episode) : Elsewhere episode episode
  | outside (environment other : List (String × String)) :
    Elsewhere (.outside environment) (.outside other)

/-- An episode is mirrored where the settings were loaded before, whatever the variables are. -/
theorem Elsewhere.mirrors {episode other : Episode} (hother : episode.Elsewhere other)
    {machine image : Machine} {settings : Settings} (h : machine.Mirrors settings image)
    (hallows : (Run.left (episode.part machine)).process.Allows settings) :
    (Run.left (episode.part machine)).Mirrors settings (Run.left (other.part image)) := by
  cases hother with
  | outside environment other => exact ⟨h.thread, h.given, h.shown, h.settings⟩
  | same =>
    have hmirrored : Run.Mirrored settings episode.part := by
      cases episode with
      | outside environment =>
        refine .of_ok (fun _ ↦ ()) (fun machine ↦ { machine with process :=
          { machine.process with environment } }) (fun _ ↦ rfl) (fun _ _ h ↦ h) fun h ↦ ⟨rfl, ?_⟩
        exact ⟨h.thread, h.given, h.shown, h.settings⟩
      | hook =>
        have hhook : Run.Holds (fun _ part ↦ Run.Mirrored settings part) Run.installHook :=
          .installHook
        exact hhook
      | switch thread => exact .updateThread fun _ ↦ ((), thread)
      | task depth task =>
        have hrun : Run.Holds (fun _ part ↦ Run.Mirrored settings part)
            (Interpreter.run depth task) := Interpreter.mirrored_run settings depth task
        exact hrun.catching.bind fun _ ↦ .pure _
    obtain ⟨reached, hmirrors, himage⟩ := hmirrored.ends h hallows
    rw [himage, Run.left_leaving]
    exact hmirrors

end Episode

/-! ### The life of a process -/

namespace Machine

/-- The machine behind some episodes. -/
def behind (machine : Machine) (episodes : List Episode) : Machine :=
  episodes.foldl (fun machine episode ↦ Run.left (episode.part machine)) machine

variable (machine : Machine)

@[simp] theorem behind_cons (episode : Episode) (rest : List Episode) :
    machine.behind (episode :: rest) = (Run.left (episode.part machine)).behind rest := rfl

/-- Settings that are loaded stay, and no warning is given about them any more. -/
theorem behind_of_loaded {settings : Settings} (h : machine.process.settings = some settings)
    (episodes : List Episode) :
    (machine.behind episodes).process.settings = some settings ∧
      (machine.behind episodes).process.warnings = machine.process.warnings := by
  induction episodes generalizing machine with
  | nil => exact ⟨h, rfl⟩
  | cons episode rest ih =>
    rcases (episode.loads machine).2 with ⟨hsettings, hwarnings⟩ | ⟨hnone, -⟩
    · obtain ⟨hlater, hsame⟩ := ih _ (hsettings.trans h)
      exact ⟨hlater, hsame.trans hwarnings⟩
    · rw [hnone] at h
      cases h

/-- What is behind some episodes is mirrored where the settings were loaded before them. -/
theorem Mirrors.behind {machine image : Machine} {settings : Settings}
    (h : machine.Mirrors settings image) {episodes others : List Episode}
    (hothers : List.Forall₂ Episode.Elsewhere episodes others)
    (hallows : (machine.behind episodes).process.Allows settings) :
    (machine.behind episodes).Mirrors settings (image.behind others) := by
  induction hothers generalizing machine image with
  | nil => exact h
  | cons hother _ ih =>
    refine ih (hother.mirrors h fun loaded hloaded ↦ ?_) hallows
    exact hallows loaded (behind_of_loaded _ hloaded _).1

variable {machine}

end Machine

end Escalation
