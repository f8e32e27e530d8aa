import Escalation.Proofs.Course

/-!
# The transcript of a process

The transcript is all that was written to the diagnostic stream and sent to the log of the program,
in the order in which it came out (`Process.transcript`). What was written is what it has of the one
and what was forwarded is what it has of the other (`Process.toList_written`,
`Process.forwarded_eq`). Nothing that came out is ever taken back: the transcript grows through all
tasks, however they end (`Interpreter.transcript_grows`).

Text that is written bears no mark of the lines sent to the log around it, and the other way round.
So where a part of a run shows something on one of the two only, and the transcript grows, the
transcript grows by just that (`Process.Shows.transcript_of_written`,
`Process.Shows.transcript_of_forwarded`).
-/

set_option autoImplicit false
set_option relaxedAutoImplicit false

namespace Escalation

/-- A character on the diagnostic stream, or a line in the log of the program. -/
abbrev Sign := Char ⊕ (Level × String)

/-- The signs of a text on the diagnostic stream. -/
def writtenSigns (text : String) : List Sign := text.toList.map .inl

@[simp] theorem writtenSigns_empty : writtenSigns "" = [] := rfl

@[simp] theorem writtenSigns_append (text other : String) :
    writtenSigns (text ++ other) = writtenSigns text ++ writtenSigns other := by
  simp [writtenSigns]

@[simp] theorem filterMap_getLeft_writtenSigns (text : String) :
    (writtenSigns text).filterMap Sum.getLeft? = text.toList := by
  simp [writtenSigns, List.filterMap_map, Function.comp_def]

@[simp] theorem filterMap_getRight_writtenSigns (text : String) :
    (writtenSigns text).filterMap Sum.getRight? = [] := by
  simp [writtenSigns, List.filterMap_map, Function.comp_def]

/-- Signs without a line in the log are a text on the diagnostic stream. -/
theorem eq_map_inl_of_filterMap_getRight {signs : List Sign}
    (h : signs.filterMap Sum.getRight? = []) :
    signs = (signs.filterMap Sum.getLeft?).map .inl := by
  induction signs with
  | nil => rfl
  | cons sign rest ih =>
    rcases sign with c | line
    · simpa using ih (by simpa using h)
    · simp at h

/-- Signs without a character on the diagnostic stream are lines in the log. -/
theorem eq_map_inr_of_filterMap_getLeft {signs : List Sign}
    (h : signs.filterMap Sum.getLeft? = []) :
    signs = (signs.filterMap Sum.getRight?).map .inr := by
  induction signs with
  | nil => rfl
  | cons sign rest ih =>
    rcases sign with c | line
    · simp at h
    · simpa using ih (by simpa using h)

/-- What a record has of the transcript. -/
def Record.signs : Record → List Sign
  | .diagnostics text => writtenSigns text
  | .logged level target text => if target = "faultline" then [.inr (level, text)] else []
  | _ => []

namespace Record

variable (entry : Record)

theorem filterMap_getLeft_signs :
    entry.signs.filterMap Sum.getLeft? = entry.writtenPart.toList := by
  cases entry with
  | diagnostics text => exact filterMap_getLeft_writtenSigns text
  | logged level target text =>
    unfold signs
    dsimp only
    split <;> rfl
  | _ => rfl

theorem filterMap_getRight_signs :
    entry.signs.filterMap Sum.getRight? = entry.forwardedPart := by
  cases entry with
  | diagnostics text => exact filterMap_getRight_writtenSigns text
  | logged level target text =>
    unfold signs forwardedPart
    dsimp only
    split <;> rfl
  | _ => rfl

end Record

namespace Process

/-- All that came out of a process, in order. -/
def transcript (process : Process) : List Sign :=
  process.records.toList.flatMap Record.signs ++ writtenSigns process.diagnostics

section Parts

variable (process : Process)

/-- What was written to the diagnostic stream is what the transcript has of it. -/
theorem toList_written :
    process.written.toList = process.transcript.filterMap Sum.getLeft? := by
  have hrecords (entries : List Record) (front : String) :
      (entries.foldl (fun text entry ↦ text ++ entry.writtenPart) front).toList =
        front.toList ++ (entries.flatMap Record.signs).filterMap Sum.getLeft? := by
    induction entries generalizing front with
    | nil => simp
    | cons entry rest ih =>
      rw [List.foldl_cons, ih]
      simp [List.filterMap_append, Record.filterMap_getLeft_signs]
  unfold written transcript
  rw [String.toList_append, hrecords, List.filterMap_append, filterMap_getLeft_writtenSigns]
  rfl

/-- What was sent to the log of the program is what the transcript has of it. -/
theorem forwarded_eq : process.forwarded = process.transcript.filterMap Sum.getRight? := by
  simp only [forwarded, transcript, List.filterMap_append, List.filterMap_flatMap,
    Record.filterMap_getRight_signs, filterMap_getRight_writtenSigns, List.append_nil]

theorem transcript_recorded (entry : Record) :
    (process.recorded entry).transcript = process.transcript ++ entry.signs := by
  have hflushed : process.flushed.transcript = process.transcript := by
    unfold flushed
    split
    · rfl
    · simp [transcript, Record.signs]
  have hempty : writtenSigns process.flushed.diagnostics = [] := by
    rw [diagnostics_flushed]
    rfl
  rw [← hflushed]
  simp [transcript, recorded, hempty]

end Parts

instance : Course fun process after ↦ process.transcript <+: after.transcript where
  refl process := List.prefix_refl process.transcript
  trans h hlast := h.trans hlast
  recorded process entry := ⟨entry.signs, (process.transcript_recorded entry).symm⟩
  written process text := ⟨writtenSigns text, by simp [transcript]⟩
  hooked process _ _ := List.prefix_refl process.transcript
  loaded process _ := List.prefix_refl process.transcript
  rooted process := List.prefix_refl process.transcript

namespace Shows

variable {process after : Process} {text : String} {lines : List (Level × String)}

/-- A part that only writes to the diagnostic stream. -/
theorem transcript_of_written (h : process.Shows after text [])
    (hgrows : process.transcript <+: after.transcript) :
    after.transcript = process.transcript ++ writtenSigns text := by
  obtain ⟨signs, hsigns⟩ := hgrows
  have hforwarded := h.forwarded
  rw [forwarded_eq, forwarded_eq, ← hsigns, List.filterMap_append] at hforwarded
  have hnone : signs.filterMap Sum.getRight? = [] := List.append_cancel_left hforwarded
  have hwritten := congrArg String.toList h.written
  rw [String.toList_append, toList_written, toList_written, ← hsigns, List.filterMap_append]
    at hwritten
  have htext : signs.filterMap Sum.getLeft? = text.toList := List.append_cancel_left hwritten
  rw [← hsigns, eq_map_inl_of_filterMap_getRight hnone, htext]
  rfl

/-- A part that only sends lines to the log of the program. -/
theorem transcript_of_forwarded (h : process.Shows after "" lines)
    (hgrows : process.transcript <+: after.transcript) :
    after.transcript = process.transcript ++ lines.map .inr := by
  obtain ⟨signs, hsigns⟩ := hgrows
  have hwritten := congrArg String.toList h.written
  rw [String.append_empty, toList_written, toList_written, ← hsigns, List.filterMap_append]
    at hwritten
  have hnone : signs.filterMap Sum.getLeft? = [] :=
    List.append_right_eq_self.mp hwritten
  have hforwarded := h.forwarded
  rw [forwarded_eq, forwarded_eq, ← hsigns, List.filterMap_append] at hforwarded
  have hlines : signs.filterMap Sum.getRight? = lines := List.append_cancel_left hforwarded
  rw [← hsigns, eq_map_inr_of_filterMap_getLeft hnone, hlines]

end Shows

end Process

/-- Nothing that came out is taken back, however a task ends. -/
theorem Interpreter.transcript_grows (depth : ℕ) (task : Task) (machine : Machine) :
    machine.process.transcript <+: (Run.left (run depth task machine)).process.transcript :=
  @follows_run (fun process after ↦ process.transcript <+: after.transcript) _ depth task machine

end Escalation
