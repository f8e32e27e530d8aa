import Mathlib
import Escalation.Event
import Escalation.Program.Draft
import Escalation.Proofs.Remarks

/-!
# Which addresses a trace holds

The visitor that fills a row of cells from a walk writes first and looks for room afterwards. It is
never shown an address without a cell to write it into, since the row had room to begin with and the
walk ends with the last cell: it writes the addresses of the walk into the cells one after another,
as many as there are of both, and leaves the other cells as they were (`walkWith_visit_eq`,
`capture?_eq`).

So a trace holds the first sixteen addresses of the walk, or of the list that it was given
(`Trace.Holds`, `Draft.holds_build`), and no remark changes that.
-/

set_option autoImplicit false
set_option relaxedAutoImplicit false

namespace Escalation

/-! ### Filling a row of cells -/

/-- Up to the cell that was written, a row holds what it held, and then what was written. -/
theorem take_succ_set {α : Type} {row : List α} {cell : ℕ} (h : cell < row.length) (value : α) :
    (row.set cell value).take (cell + 1) = row.take cell ++ [value] := by
  rw [List.take_add_one, List.take_set, List.set_eq_of_length_le (by simp),
    List.getElem?_set_self h]
  rfl

/-- A walk that is shown to a row with room fills the cells from the next one on, until the walk or
the row ends. -/
theorem walkWith_visit_eq {size : ℕ} (walk : List UInt64) {filling : Filling size}
    (room : filling.count < size) :
    ∃ filled, walkWith Filling.visit walk filling = some filled ∧
      filled.count = min (filling.count + walk.length) size ∧
      filled.cells.toList = filling.cells.toList.take filling.count ++
        (walk.take (size - filling.count) ++ filling.cells.toList.drop filled.count) := by
  induction walk generalizing filling with
  | nil =>
    refine ⟨filling, rfl, ?_, ?_⟩
    · rw [List.length_nil]
      omega
    · simp
  | cons address rest ih =>
    have hlength : filling.cells.toList.length = size := by simp
    let next : Filling size :=
      { cells := filling.cells.set filling.count address room, count := filling.count + 1 }
    have hnext : next.cells.toList = filling.cells.toList.set filling.count address :=
      Vector.toList_set room
    have htake : next.cells.toList.take (filling.count + 1) =
        filling.cells.toList.take filling.count ++ [address] := by
      rw [hnext, take_succ_set (by rwa [hlength])]
    have hvisit : Filling.visit address filling =
        some (next, decide (filling.count + 1 < size)) := dif_pos room
    by_cases more : filling.count + 1 < size
    · obtain ⟨filled, hfilled, hcount, hcells⟩ := @ih next more
      have hfinal : filled.count = min (filling.count + (address :: rest).length) size := by
        rw [hcount, List.length_cons, Nat.add_comm rest.length, ← Nat.add_assoc]
      refine ⟨filled, ?_, hfinal, ?_⟩
      · rw [walkWith, hvisit, decide_eq_true more]
        exact hfilled
      · have hlater : filling.count < filled.count := by
          rw [hfinal, List.length_cons]
          omega
        have hroom : size - filling.count = size - (filling.count + 1) + 1 := by omega
        rw [hcells, htake, hnext, List.drop_set_of_lt hlater, hroom, List.take_succ_cons]
        simp [next]
    · -- That was the last cell, and the walk goes no further.
      have hfull : filling.count + 1 = size := by omega
      refine ⟨next, ?_, ?_, ?_⟩
      · rw [walkWith, hvisit, decide_eq_false more]
      · rw [List.length_cons]
        change filling.count + 1 = _
        omega
      · have hone : size - filling.count = 1 := by omega
        have hrest : filling.cells.toList.drop next.count = [] :=
          List.drop_eq_nil_of_le (by rw [hlength]; exact hfull.ge)
        rw [hrest, hone, List.append_nil, List.take_succ_cons, List.take_zero, ← htake]
        exact (List.take_of_length_le (by simp [next, hfull])).symm

/-- A row of cells takes the beginning of a walk, as much as it has cells for, and the other cells
keep what they held. -/
theorem capture?_eq {size : ℕ} (walk : List UInt64) (cells : Vector UInt64 size) :
    ∃ written, capture? walk cells = some (written, min walk.length size) ∧
      written.toList = walk.take size ++ cells.toList.drop (min walk.length size) := by
  unfold capture?
  by_cases hempty : size = 0
  · subst hempty
    exact ⟨cells, by simp, by simp⟩
  · have room : (Filling.mk cells 0).count < size := Nat.pos_of_ne_zero hempty
    obtain ⟨filled, hfilled, hcount, hcells⟩ := walkWith_visit_eq walk room
    rw [Nat.zero_add] at hcount
    refine ⟨filled.cells, ?_, ?_⟩
    · rw [if_neg hempty, hfilled, ← hcount]
      rfl
    · rw [hcells, ← hcount]
      rfl

/-- Writing a row over the beginning of another one leaves the rest of that as it was. -/
theorem overwrite?_eq {α : Type} {size : ℕ} (cells : Vector α size) {row : List α}
    (fits : row.length ≤ size) :
    ∃ written, overwrite? cells row.length row = some written ∧
      written.toList = row ++ cells.toList.drop row.length := by
  refine ⟨_, dif_pos ⟨fits, rfl⟩, List.ext_getElem ?_ fun cell _ _ ↦ ?_⟩
  · simp [fits]
  · by_cases written : cell < row.length
    · simp [written]
    · simp [written, Nat.not_lt.mp written]

/-! ### Traces -/

namespace Trace

/-- A trace holds the first of some addresses, as many as it can carry, and the slice that shows
them is within its cells. -/
structure Holds (trace : Trace) (addresses : List UInt64) : Prop where
  used : trace.used = min addresses.length limit
  slice : slice? trace.cells.toList trace.used = some (addresses.take limit)

namespace Holds

variable {trace : Trace} {given : List UInt64}

/-- What is shown of a trace is the beginning of the addresses that it holds. -/
theorem addresses_eq (h : trace.Holds given) : trace.addresses = given.take limit := by
  have hslice : slice? trace.cells.toList trace.used = some trace.addresses :=
    slice?_of_le (by simpa using trace.used_le)
  exact Option.some_inj.mp (hslice.symm.trans h.slice)

end Holds

/-- A trace holds what it shows. -/
theorem holds_addresses (trace : Trace) : trace.Holds trace.addresses := by
  have hfits : trace.used ≤ trace.cells.toList.length := by simpa using trace.used_le
  have hlength : trace.addresses.length = trace.used := List.length_take_of_le hfits
  constructor
  · rw [hlength, Nat.min_eq_left trace.used_le]
  · rw [slice?_of_le hfits, List.take_of_length_le (hlength.trans_le trace.used_le)]
    rfl

/-- A row that begins with the first of some addresses is a trace that holds them. -/
theorem holds_of_toList {trace : Trace} {given behind : List UInt64}
    (hused : trace.used = min given.length limit)
    (hcells : trace.cells.toList = given.take limit ++ behind) : trace.Holds given := by
  refine ⟨hused, ?_⟩
  have hlength : (given.take limit).length = trace.used := by
    rw [List.length_take, hused, Nat.min_comm]
  rw [slice?_of_le (by simpa using trace.used_le), hcells, ← hlength, List.take_left]

/-- A trace that is captured holds the beginning of the walk. -/
theorem holds_ofAddresses (walk : List UInt64) : (ofAddresses walk).Holds walk := by
  obtain ⟨written, hwritten, hcells⟩ := capture?_eq walk (Vector.replicate limit 0)
  have hfilled : capture walk (Vector.replicate limit 0) = (written, min walk.length limit) :=
    Option.get_of_eq_some _ hwritten
  have htaken : (ofAddresses walk).cells = written := congrArg Prod.fst hfilled
  exact holds_of_toList (congrArg Prod.snd hfilled) (by rw [htaken, hcells])

/-- A trace of addresses given by hand holds their beginning. -/
theorem holds_ofGiven (given : List UInt64) : (ofGiven given).Holds given := by
  have hlength : (given.take (taken given)).length = taken given :=
    List.length_take_of_le (Nat.min_le_left _ _)
  obtain ⟨written, hwritten, hcells⟩ := overwrite?_eq (Vector.replicate limit (0 : UInt64))
    (hlength.trans_le (Nat.min_le_right _ _))
  rw [hlength] at hwritten
  have hcopied : copied? given = some written := by
    have hslice : slice? given (taken given) = some (given.take (taken given)) :=
      slice?_of_le (Nat.min_le_left _ _)
    rw [copied?, hslice]
    exact hwritten
  have htaken : (ofGiven given).cells = written := Option.get_of_eq_some _ hcopied
  have hfirst : given.take (taken given) = given.take limit := by
    rw [List.take_eq_take_iff, taken]
    omega
  exact holds_of_toList rfl (by rw [htaken, hcells, hfirst])

end Trace

/-! ### Failures -/

/-- The addresses that a failure takes because they are given by hand. -/
def Origin.given? : Origin → Option (List UInt64)
  | .traced _ _ _ addresses => some addresses
  | .classified .. | .reported _ => none

namespace Failure

/-- Remarks do not touch the trace. -/
@[simp] theorem trace_annotateAll (remarks : List Remark) (failure : Failure) :
    (failure.annotateAll remarks).trace = failure.trace := by
  rw [annotateAll_eq]

@[simp] theorem trace_annotateRepeatedly (site : Site) (description : String) (times : ℕ)
    (failure : Failure) :
    (failure.annotateRepeatedly site description times).trace = failure.trace := by
  rw [annotateRepeatedly_eq, trace_annotateAll]

@[simp] theorem trace_copy (failure : Failure) : failure.copy.trace = failure.trace := rfl

end Failure

/-- A failure that is made holds the beginning of the addresses that its draft gives, and of the
walk if it gives none. -/
theorem Draft.holds_build (draft : Draft) (walk : List UInt64) :
    (draft.build walk).trace.Holds (draft.origin.given?.getD walk) := by
  rw [build, Failure.trace_annotateAll]
  cases draft.origin with
  | traced nature durability description addresses => exact Trace.holds_ofGiven addresses
  | classified nature durability description => exact Trace.holds_ofAddresses walk
  | reported error => exact Trace.holds_ofAddresses walk

end Escalation
