/-!
# Tables sorted by name

A table holds at most one value under each name, in the order of the names (`Table`). Inserting
under a name that is taken replaces the value. No change of a table brings in other values than the
one that is inserted (`Table.mem_values_of_mem_insert`, `Table.mem_values_of_mem_erase`).
-/

set_option autoImplicit false
set_option relaxedAutoImplicit false

namespace Escalation

/-- Values under names, in the order of the names. -/
structure Table (α : Type) where
  /-- The names and their values. -/
  entries : List (String × α) := []
  deriving Repr

namespace Table

variable {α : Type}

instance : Inhabited (Table α) := ⟨{}⟩

/-- The value under a name. -/
def find? (table : Table α) (name : String) : Option α := table.entries.lookup name

/-- A sorted row of entries with one more, which replaces an entry of the same name. -/
def insertEntry (name : String) (value : α) : List (String × α) → List (String × α)
  | [] => [(name, value)]
  | (first, held) :: rest =>
    if name < first then (name, value) :: (first, held) :: rest
    else if name = first then (name, value) :: rest
    else (first, held) :: insertEntry name value rest

/-- The table with a value under a name. -/
def insert (table : Table α) (name : String) (value : α) : Table α :=
  { entries := insertEntry name value table.entries }

/-- The table with nothing under a name. -/
def erase (table : Table α) (name : String) : Table α :=
  { entries := table.entries.filter fun entry ↦ entry.1 != name }

/-- The values in the order of their names. -/
def values (table : Table α) : List α := table.entries.map Prod.snd

/-! ### The values of a table that changes -/

section Values

variable {table : Table α} {name : String} {value other : α}

theorem mem_values_of_find? (h : table.find? name = some value) : value ∈ table.values := by
  obtain ⟨before, after, hentries, -⟩ := List.lookup_eq_some_iff.mp h
  unfold values
  rw [hentries]
  simp

theorem mem_of_mem_insertEntry {entries : List (String × α)} {entry : String × α}
    (h : entry ∈ insertEntry name other entries) : entry = (name, other) ∨ entry ∈ entries := by
  induction entries with
  | nil => exact .inl (List.mem_singleton.mp h)
  | cons first rest ih =>
    unfold insertEntry at h
    split at h
    · exact List.mem_cons.mp h
    · split at h
      · exact (List.mem_cons.mp h).imp_right (List.mem_cons_of_mem _)
      · rcases List.mem_cons.mp h with hfirst | hrest
        · exact .inr (hfirst ▸ List.mem_cons_self)
        · exact (ih hrest).imp_right (List.mem_cons_of_mem _)

theorem mem_values_of_mem_insert (h : value ∈ (table.insert name other).values) :
    value = other ∨ value ∈ table.values := by
  obtain ⟨entry, hentry, rfl⟩ := List.mem_map.mp h
  rcases mem_of_mem_insertEntry hentry with rfl | hold
  · exact .inl rfl
  · exact .inr (List.mem_map_of_mem hold)

theorem mem_values_of_mem_erase (h : value ∈ (table.erase name).values) : value ∈ table.values := by
  obtain ⟨entry, hentry, rfl⟩ := List.mem_map.mp h
  exact List.mem_map_of_mem (List.mem_filter.mp hentry).1

end Values

end Table

end Escalation
