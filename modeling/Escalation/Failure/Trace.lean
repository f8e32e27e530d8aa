/-!
# Return addresses

A trace is a row of sixteen cells, of which the first few are in use (`Trace`). The addresses come
from a walk of the call stack, innermost first, or from a list given by hand.

A walk shows its addresses to a visitor, one after another, until the visitor has seen enough
(`walkWith`). The visitor that fills a row of cells writes an address into the next cell before it
looks whether there is room for another one (`Filling.visit`), so nothing comes of a visit to a row
that is full (`capture?`). No walk makes such a visit (`isSome_capture?`): a row without cells is
not filled at all, and a visit that fills the last cell ends the walk. The number of cells in use
never exceeds the number of cells, and a trace carries that fact in its type.
-/

set_option autoImplicit false
set_option relaxedAutoImplicit false

namespace Escalation

/-! ### Filling a row of cells from a walk -/

/-- A row of cells that is being filled from its start. -/
structure Filling (size : Nat) where
  /-- The cells. -/
  cells : Vector UInt64 size
  /-- How many of them are written. -/
  count : Nat

/-- Writes an address into the next cell, and says whether the row has room for another one. Without
a next cell nothing comes of it. -/
def Filling.visit {size : Nat} (address : UInt64) (filling : Filling size) :
    Option (Filling size × Bool) :=
  if room : filling.count < size then
    let count := filling.count + 1
    some ({ cells := filling.cells.set filling.count address room, count }, decide (count < size))
  else none

/-- Shows the addresses of a walk to a visitor, each once and in order, as long as it says that it
goes on. -/
def walkWith {state : Type} (visit : UInt64 → state → Option (state × Bool)) :
    (walk : List UInt64) → state → Option state
  | [], reached => some reached
  | address :: rest, reached =>
    match visit address reached with
    | none => none
    | some (next, true) => walkWith visit rest next
    | some (next, false) => some next

/-- Writes the beginning of a walk into a row of cells, and says how many cells it took. -/
def capture? {size : Nat} (walk : List UInt64) (cells : Vector UInt64 size) :
    Option (Vector UInt64 size × Nat) :=
  if size = 0 then some (cells, 0)
  else (walkWith Filling.visit walk { cells, count := 0 }).map fun filled ↦
    (filled.cells, filled.count)

/-- A walk that is shown to a row with room does not write behind its end. -/
theorem exists_walkWith_visit {size : Nat} (walk : List UInt64) {filling : Filling size}
    (room : filling.count < size) :
    ∃ filled, walkWith Filling.visit walk filling = some filled ∧ filled.count ≤ size := by
  induction walk generalizing filling with
  | nil => exact ⟨filling, rfl, Nat.le_of_lt room⟩
  | cons address rest ih =>
    unfold walkWith Filling.visit
    rw [dif_pos room]
    by_cases more : filling.count + 1 < size
    · simp only [more, decide_true]
      exact ih more
    · simp only [more, decide_false]
      exact ⟨_, rfl, room⟩

/-- Filling a row of cells never goes wrong, and takes no more cells than there are. -/
theorem exists_capture? {size : Nat} (walk : List UInt64) (cells : Vector UInt64 size) :
    ∃ filled, capture? walk cells = some filled ∧ filled.2 ≤ size := by
  unfold capture?
  split
  · exact ⟨_, rfl, Nat.zero_le _⟩
  · have room : (Filling.mk cells 0).count < size := Nat.pos_of_ne_zero ‹_›
    obtain ⟨filled, hfilled, hcount⟩ := exists_walkWith_visit walk room
    exact ⟨_, by rw [hfilled]; rfl, hcount⟩

theorem isSome_capture? {size : Nat} (walk : List UInt64) (cells : Vector UInt64 size) :
    (capture? walk cells).isSome = true := by
  obtain ⟨filled, hfilled, -⟩ := exists_capture? walk cells
  rw [hfilled]
  rfl

/-- Writes the beginning of a walk into a row of cells, and says how many cells it took. -/
def capture {size : Nat} (walk : List UInt64) (cells : Vector UInt64 size) :
    Vector UInt64 size × Nat :=
  (capture? walk cells).get (isSome_capture? walk cells)

/-- No more cells are in use than there are. -/
theorem snd_capture_le {size : Nat} (walk : List UInt64) (cells : Vector UInt64 size) :
    (capture walk cells).2 ≤ size := by
  obtain ⟨filled, hfilled, hcount⟩ := exists_capture? walk cells
  unfold capture
  simpa only [hfilled, Option.get_some] using hcount

/-! ### Copying a part of a row -/

/-- The first cells of a row, if it has so many. -/
def slice? {α : Type} (row : List α) (count : Nat) : Option (List α) :=
  if count ≤ row.length then some (row.take count) else none

theorem slice?_of_le {α : Type} {row : List α} {count : Nat} (h : count ≤ row.length) :
    slice? row count = some (row.take count) := if_pos h

/-- Writes a row over the first cells of another one, which have to be as many. -/
def overwrite? {α : Type} {size : Nat} (cells : Vector α size) (count : Nat) (row : List α) :
    Option (Vector α size) :=
  if fits : count ≤ size ∧ row.length = count then
    some (Vector.ofFn fun cell ↦
      if written : cell.val < row.length then row[cell.val] else cells[cell])
  else none

/-! ### Traces -/

/-- The number of addresses that a failure can carry. -/
def Trace.limit : Nat := 16

/-- The return addresses that a failure carries. -/
structure Trace where
  /-- The addresses, innermost first, and zeros behind them. -/
  cells : Vector UInt64 Trace.limit
  /-- How many cells are in use. -/
  used : Nat
  /-- No more cells are in use than there are. -/
  used_le : used ≤ Trace.limit
  deriving DecidableEq

namespace Trace

/-- The trace that holds the beginning of a walk. -/
def ofAddresses (addresses : List UInt64) : Trace :=
  let filled := capture addresses (Vector.replicate limit 0)
  { cells := filled.1, used := filled.2, used_le := snd_capture_le _ _ }

/-- The number of cells that a list of addresses takes. -/
def taken (addresses : List UInt64) : Nat := min addresses.length limit

/-- The cells that the beginning of a list of addresses is written into, behind it zeros. -/
def copied? (addresses : List UInt64) : Option (Vector UInt64 limit) :=
  (slice? addresses (taken addresses)).bind fun row ↦
    overwrite? (Vector.replicate limit 0) (taken addresses) row

theorem isSome_copied? (addresses : List UInt64) : (copied? addresses).isSome = true := by
  have hfits : taken addresses ≤ limit ∧
      (addresses.take (taken addresses)).length = taken addresses :=
    ⟨Nat.min_le_right _ _, by rw [List.length_take]; exact Nat.min_eq_left (Nat.min_le_left _ _)⟩
  have htaken : taken addresses ≤ addresses.length := Nat.min_le_left _ _
  unfold copied?
  rw [slice?_of_le htaken, Option.bind_some, overwrite?, dif_pos hfits]
  rfl

/-- The trace that holds the beginning of a list of addresses given by hand. -/
def ofGiven (addresses : List UInt64) : Trace where
  cells := (copied? addresses).get (isSome_copied? addresses)
  used := taken addresses
  used_le := Nat.min_le_right _ _

/-- The trace without addresses. -/
def empty : Trace := ofAddresses []

/-- The addresses in use, innermost first. -/
def addresses (trace : Trace) : List UInt64 := trace.cells.toList.take trace.used

instance : Inhabited Trace := ⟨empty⟩

end Trace

end Escalation
