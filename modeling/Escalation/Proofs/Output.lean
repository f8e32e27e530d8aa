import Mathlib.Data.List.DropRight
import Escalation.Proofs.Contract

/-!
# What the outside sees of a run

A run shows itself in two places: in what is written to the diagnostic stream of the process, put
together from its records and what follows the last of them (`Process.written`), and in the lines
that are sent to the log of the program (`Process.forwarded`). Records of other kinds, and events
inside the library, do not show there. `Process.Shows` says of a part what it adds to both, and that
it leaves the settings that the policy of the process goes by as they are; a part that adds nothing
is silent (`Process.Alike`).

Loading the settings, records and events inside the library are silent (`Run.settings_eq`,
`Run.rootSettings_eq`, `Run.record_eq`, `Run.traceEvent_eq`), and so is installing an override (`Run.install_of_alive`).
Writing to the diagnostic stream and sending a line to the log each add exactly one text
(`Run.writeDiagnostics_eq`, `Run.forward_eq`), and raising adds what the hook reports of it
(`Run.raise_eq`).
-/

set_option autoImplicit false
set_option relaxedAutoImplicit false

namespace Escalation

/-! ### Output -/

/-- What a record has of the diagnostic stream. -/
def Record.writtenPart : Record → String
  | .diagnostics text => text
  | _ => ""

/-- What a record has of the lines sent to the log of the program. -/
def Record.forwardedPart : Record → List (Level × String)
  | .logged level target text => if target = "faultline" then [(level, text)] else []
  | _ => []

/-- A record that shows neither on the diagnostic stream nor in the log of the program. -/
def Record.Silent (entry : Record) : Prop := entry.writtenPart = "" ∧ entry.forwardedPart = []

namespace Process

/-- All that was written to the diagnostic stream. -/
def written (process : Process) : String :=
  process.records.toList.foldl (fun text entry ↦ text ++ entry.writtenPart) "" ++
    process.diagnostics

/-- All lines that were sent to the log of the program. -/
def forwarded (process : Process) : List (Level × String) :=
  process.records.toList.flatMap Record.forwardedPart

/-- The settings of the process, loaded or not. -/
def effectiveSettings (process : Process) : Settings :=
  match process.settings with
  | some settings => settings
  | none =>
    let look (key : String) : Id (Option String) := process.environment.lookup key
    match (Settings.load process.throwing look).run with
    | .ok settings => settings
    | .error _ => .standard process.throwing

/-- What a part of a run adds for the outside to see, where the process is `after` behind it. What
policies and the hook go by does not change. -/
structure Shows (process after : Process) (text : String) (lines : List (Level × String)) :
    Prop where
  written : after.written = process.written ++ text
  forwarded : after.forwarded = process.forwarded ++ lines
  effectiveSettings : after.effectiveSettings = process.effectiveSettings
  hooked : after.hooked = process.hooked

/-- The outside cannot tell the two apart, and neither can policies and the hook. -/
abbrev Alike (process after : Process) : Prop := process.Shows after "" []

section Shows

variable {process after last : Process} {text other : String}
  {lines others : List (Level × String)}

theorem Alike.of_eq (hwritten : after.written = process.written)
    (hforwarded : after.forwarded = process.forwarded)
    (heffective : after.effectiveSettings = process.effectiveSettings)
    (hhooked : after.hooked = process.hooked) : process.Alike after :=
  ⟨by rw [hwritten, String.append_empty], by rw [hforwarded, List.append_nil], heffective, hhooked⟩

theorem Alike.refl (process : Process) : process.Alike process := .of_eq rfl rfl rfl rfl

/-- What two parts show one after another. -/
theorem Shows.trans (h : process.Shows after text lines) (hlast : after.Shows last other others) :
    process.Shows last (text ++ other) (lines ++ others) where
  written := by rw [hlast.written, h.written, String.append_assoc]
  forwarded := by rw [hlast.forwarded, h.forwarded, List.append_assoc]
  effectiveSettings := hlast.effectiveSettings.trans h.effectiveSettings
  hooked := hlast.hooked.trans h.hooked

/-- A part behind a silent one shows what both show. -/
theorem Alike.shows (h : process.Alike after) (hlast : after.Shows last text lines) :
    process.Shows last text lines := by
  have hboth := h.trans hlast
  rwa [String.empty_append, List.nil_append] at hboth

end Shows

/-- The process with the diagnostic stream since the last record turned into a record. -/
def flushed (process : Process) : Process :=
  if process.diagnostics.isEmpty then process
  else { process with
    records := process.records.push (.diagnostics process.diagnostics), diagnostics := "" }

/-- The process with one more record. -/
def recorded (process : Process) (entry : Record) : Process :=
  { process.flushed with records := process.flushed.records.push entry }

section Recorded

variable (process : Process) (entry : Record)

theorem alike_flushed : process.Alike process.flushed := by
  unfold flushed
  by_cases hempty : process.diagnostics.isEmpty = true
  · rw [if_pos hempty]
    exact .refl process
  · rw [if_neg hempty]
    refine .of_eq ?_ ?_ rfl rfl
    · simp [written, Record.writtenPart]
    · simp [forwarded, Record.forwardedPart]

theorem diagnostics_flushed : process.flushed.diagnostics = "" := by
  unfold flushed
  by_cases hempty : process.diagnostics.isEmpty = true
  · rw [if_pos hempty]
    exact String.isEmpty_iff.mp hempty
  · rw [if_neg hempty]

/-- A record goes to the transcript, and nowhere else. -/
theorem exists_recorded : ∃ records diagnostics,
    process.recorded entry = { process with records, diagnostics } := by
  unfold recorded flushed
  split
  · exact ⟨_, _, rfl⟩
  · exact ⟨_, _, rfl⟩

/-- A record shows what it has of the diagnostic stream and of the log of the program. -/
theorem shows_recorded :
    process.Shows (process.recorded entry) entry.writtenPart entry.forwardedPart := by
  refine process.alike_flushed.shows ⟨?_, ?_, rfl, rfl⟩
  · simp [written, recorded, diagnostics_flushed]
  · simp [forwarded, recorded]

/-- A silent record changes nothing that the outside sees. -/
theorem alike_recorded {entry : Record} (h : entry.Silent) :
    process.Alike (process.recorded entry) := by
  have hshows := process.shows_recorded entry
  rwa [h.1, h.2] at hshows

end Recorded

end Process

namespace Run

/-! ### Silent parts -/

/-- A record is made without fail, and leaves the thread alone. -/
theorem record_eq (entry : Record) (machine : Machine) : record entry machine =
    .ok () { machine with process := machine.process.recorded entry } := rfl

/-- Events inside the library are silent. -/
theorem traceEvent_eq (level : Level) {target : String} (htarget : target ≠ bridgeTarget)
    (text : String) (machine : Machine) : ∃ process,
      traceEvent level target text machine = .ok () { machine with process } ∧
        machine.process.Alike process := by
  change ∃ process, (if machine.process.tracing then record _ else pure () : Run Unit) machine =
    .ok () { machine with process } ∧ machine.process.Alike process
  by_cases htracing : machine.process.tracing = true
  · rw [if_pos htracing]
    refine ⟨_, record_eq _ machine, machine.process.alike_recorded ⟨rfl, ?_⟩⟩
    exact if_neg htarget
  · rw [if_neg htracing]
    exact ⟨machine.process, rfl, .refl _⟩

/-- The settings that are loaded, or taken as they were loaded, are those of the process, and asking
for them is silent. -/
theorem settings_eq (machine : Machine) : ∃ process,
    settings machine = .ok machine.process.effectiveSettings { machine with process } ∧
      machine.process.Alike process := by
  have hread : process machine = .ok machine.process machine := rfl
  unfold settings
  rw [bind_of_ok hread]
  cases hloaded : machine.process.settings with
  | some loaded =>
    have heffective : machine.process.effectiveSettings = loaded := by
      simp [Process.effectiveSettings, hloaded]
    exact ⟨machine.process, by rw [heffective]; rfl, .refl _⟩
  | none =>
    let look (key : String) : Id (Option String) := machine.process.environment.lookup key
    have heffective : machine.process.effectiveSettings =
        match (Settings.load machine.process.throwing look).run with
        | .ok settings => settings
        | .error _ => .standard machine.process.throwing := by
      simp only [Process.effectiveSettings, hloaded]
      rfl
    rw [heffective]
    change ∃ process, (match (Settings.load machine.process.throwing look).run with
      | .ok settings => _
      | .error problem => _ : Run Settings) machine = _ ∧ _
    cases hload : (Settings.load machine.process.throwing look).run with
    | ok loaded =>
      rw [hload] at heffective
      exact ⟨machine.process.withSettings loaded, rfl, .of_eq rfl rfl heffective.symm rfl⟩
    | error problem =>
      rw [hload] at heffective
      let replaced := Settings.standard machine.process.throwing
      let standard : Machine := { machine with process := machine.process.withSettings replaced }
      obtain ⟨process, hend, halike⟩ := traceEvent_eq .warn
        (show settingsTarget ≠ bridgeTarget by decide)
        ("ignoring invalid faultline configuration error=" ++ problem.message) standard
      have hstandard : machine.process.Alike standard.process :=
        .of_eq rfl rfl heffective.symm rfl
      exact ⟨process, bind_of_ok hend, hstandard.shows halike⟩

/-- The policy of the process goes by the settings of the process, and making it is silent. -/
theorem rootSettings_eq (machine : Machine) : ∃ process,
    rootSettings machine = .ok machine.process.effectiveSettings { machine with process } ∧
      machine.process.Alike process := by
  have hread : process machine = .ok machine.process machine := rfl
  unfold rootSettings
  rw [bind_of_ok hread]
  cases hroot : machine.process.root with
  | some kept =>
    have heffective : machine.process.effectiveSettings = kept := by
      simp [Process.effectiveSettings, Process.settings_of_root hroot]
    exact ⟨machine.process, by rw [heffective]; rfl, .refl _⟩
  | none =>
    obtain ⟨process, hsettings, halike⟩ := settings_eq machine
    have hmade : process.Alike process.withRoot := .of_eq rfl rfl rfl rfl
    exact ⟨process.withRoot, bind_of_ok hsettings, halike.shows hmade⟩

/-- Where the storage of the thread is there, installing an override gives the guard of the
installation, and is silent. -/
theorem install_of_alive {exec : Exec} {machine : Machine}
    (halive : machine.thread.tornDown = false) (object : ObjectId) : ∃ process,
      install exec object machine = .ok (machine.thread.stack.install object).1
        { process, thread :=
          { machine.thread with stack := (machine.thread.stack.install object).2 } } ∧
      machine.process.Alike process := by
  obtain ⟨process, hprocess, halike⟩ := traceEvent_eq .trace
    (show stackTarget ≠ bridgeTarget by decide)
    ("exception callback installed depth=" ++
      toString (machine.thread.stack.install object).1.depth ++
      " generation=" ++ toString (machine.thread.stack.install object).1.generation.toNat)
    { machine with thread :=
      { machine.thread with stack := (machine.thread.stack.install object).2 } }
  refine ⟨process, ?_, halike⟩
  change (if machine.thread.tornDown then _ else _ : Run Guard) machine = _
  rw [if_neg (by simp [halive])]
  exact bind_of_ok hprocess

/-! ### Parts that are seen -/

/-- Writing to the diagnostic stream adds the text to it. -/
theorem writeDiagnostics_eq (text : String) (machine : Machine) : ∃ process,
    writeDiagnostics text machine = .ok () { machine with process } ∧
      machine.process.Shows process text [] :=
  ⟨{ machine.process with diagnostics := machine.process.diagnostics ++ text }, rfl,
    by simp [Process.written, String.append_assoc], by simp [Process.forwarded], rfl, rfl⟩

/-- A line as it is sent to the log of the program, where `settings` are those of the process: its
place, the mark once for each level of nesting, and its text without the line ends at the end. -/
def forwardedText (settings : Settings) (sent : Line) : String :=
  sent.site.file ++ ":" ++ toString sent.site.line.toNat ++ ": " ++
    (String.ofList (List.replicate sent.depth.toNat settings.indent) ++
      String.ofList (sent.text.toList.rdropWhile (· == '\n')))

/-- Sending a line to the log of the program adds the line to it. -/
theorem forward_eq (level : Level) (sent : Line) (machine : Machine) : ∃ process,
    forward level sent machine = .ok () { machine with process } ∧
      machine.process.Shows process ""
        [(level, forwardedText machine.process.effectiveSettings sent)] := by
  obtain ⟨process, hsettings, halike⟩ := settings_eq machine
  refine ⟨_, (bind_of_ok hsettings).trans (record_eq _ _), halike.shows ?_⟩
  exact process.shows_recorded
    (.logged level bridgeTarget (forwardedText machine.process.effectiveSettings sent))

/-- What the hook writes about a payload that is raised on a thread of this name: failures only. -/
def hookText (name : Option String) : Payload → String
  | .failure failure =>
    "thread '" ++ name.getD "<unnamed>" ++ "' raised exception:\n" ++ failure.text ++ "\n"
  | .message _ | .opaqueValue => ""

/-- What a raise leaves on the diagnostic stream. -/
def raiseText (machine : Machine) (payload : Payload) : String :=
  if machine.process.hooked then hookText machine.thread.name payload else ""

/-- What a notice leaves on the diagnostic stream. -/
def noticeText : Notice → String
  | .written text => text
  | .noted _ => ""

/-- Notices are given without fail. -/
theorem forM_give_eq (notices : List Notice) (machine : Machine) : ∃ process,
    notices.forM give machine = .ok () { machine with process } ∧
      machine.process.Shows process (String.join (notices.map noticeText)) [] := by
  induction notices generalizing machine with
  | nil => exact ⟨machine.process, rfl, Process.Alike.refl _⟩
  | cons notice rest ih =>
    obtain ⟨process, hend, hshows⟩ : ∃ process, give notice machine = .ok () { machine with process } ∧
        machine.process.Shows process (noticeText notice) [] := by
      cases notice with
      | written text => exact writeDiagnostics_eq text machine
      | noted message =>
        exact ⟨_, record_eq _ machine, machine.process.alike_recorded ⟨rfl, rfl⟩⟩
    obtain ⟨last, hlast, hrest⟩ := ih { machine with process }
    refine ⟨last, (bind_of_ok hend).trans hlast, ?_⟩
    rw [List.map_cons, String.join_cons]
    exact hshows.trans hrest

/-- Only the hook of the library writes, and only about failures. -/
theorem join_notices (hook : Hook) (name : Option String) (payload : Payload) :
    String.join ((hook.notices { thread := name, payload }).map noticeText) =
      if hook.isReporting then hookText name payload else "" := by
  induction hook with
  | foreign notes =>
    simp only [Hook.notices, List.map_map, Hook.isReporting, Bool.false_eq_true, if_false]
    induction notes { thread := name, payload } with
    | nil => rfl
    | cons note rest ih => rw [List.map_cons, String.join_cons, ih]; rfl
  | reporting previous ih =>
    cases payload with
    | failure failure => simp [Hook.notices, Hook.isReporting, hookText, Hook.report, noticeText]
    | message text =>
      rw [Hook.notices, ih]
      simp [hookText]
    | opaqueValue =>
      rw [Hook.notices, ih]
      simp [hookText]

/-- A raise is reported without fail. -/
theorem reportRaise_eq (payload : Payload) (machine : Machine) : ∃ process,
    reportRaise payload machine = .ok () { machine with process } ∧
      machine.process.Shows process (raiseText machine payload) [] := by
  have hgiven := forM_give_eq
    (machine.process.hook.notices { thread := machine.thread.name, payload }) machine
  rwa [join_notices] at hgiven

/-- Raising counts one raise more, and shows what the hook reports of it. -/
theorem raise_eq {α : Type} (payload : Payload) (machine : Machine) : ∃ process,
    (raise payload : Run α) machine = .error (.raised payload)
      { process, thread := { machine.thread with unwinding := machine.thread.unwinding + 1 } } ∧
      machine.process.Shows process (raiseText machine payload) [] := by
  let counted : Machine := { machine with thread :=
    { machine.thread with unwinding := machine.thread.unwinding + 1 } }
  obtain ⟨process, hend, hshows⟩ := reportRaise_eq payload counted
  have hraised : (raise payload : Run α) machine =
      (reportRaise payload >>= fun _ ↦ throw (.raised payload)) counted := rfl
  refine ⟨process, ?_, hshows⟩
  rw [hraised, bind_of_ok hend]
  rfl

/-- Nothing follows a raise. -/
theorem bind_of_raise {machine after : Machine} {α β : Type} {part : Run α} {next : α → Run β}
    {payload : Payload} (h : part machine = raise payload after) :
    (part >>= next) machine = raise payload after := by
  have hraise : (raise payload >>= next) = raise payload := by
    unfold raise
    simp only [bind_assoc]
    rfl
  rw [← hraise]
  change EStateM.bind part next machine = EStateM.bind (raise payload) next after
  unfold EStateM.bind
  rw [h]

end Run

end Escalation
