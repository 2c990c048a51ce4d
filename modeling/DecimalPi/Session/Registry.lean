/-!
# Registries

Values under names. A name stands for at most one value: filing another value under it
replaces the first.
-/

namespace DecimalPi

/-- Values under names. -/
structure Registry (α : Type) where
  /-- The names with their values. -/
  entries : List (String × α) := []
deriving Repr

namespace Registry

variable {α : Type}

/-- The value of the first entry of a given name. -/
def findIn (name : String) : List (String × α) → Option α
  | [] => none
  | (key, value) :: entries => if key = name then some value else findIn name entries

/-- The value under a name. -/
def find? (registry : Registry α) (name : String) : Option α :=
  findIn name registry.entries

/-- The registry without a name. -/
def remove (registry : Registry α) (name : String) : Registry α where
  entries := registry.entries.filter fun entry => entry.1 ≠ name

/-- The registry with a value under a name, in place of what was there. -/
def file (registry : Registry α) (name : String) (value : α) : Registry α where
  entries := (name, value) :: (registry.remove name).entries

/-- A new registry knows no name. -/
@[simp]
theorem find?_empty (name : String) : ({} : Registry α).find? name = none := rfl

/-- What is filed under a name is found there. -/
@[simp]
theorem find?_file_self (registry : Registry α) (name : String) (value : α) :
    (registry.file name value).find? name = some value := by
  simp [file, find?, findIn]

/-- Removing a name removes it. -/
@[simp]
theorem find?_remove_self (registry : Registry α) (name : String) :
    (registry.remove name).find? name = none := by
  unfold find? remove
  induction registry.entries with
  | nil => rfl
  | cons entry entries ih =>
    by_cases h : entry.1 = name
    · simpa [h] using ih
    · simpa [h, findIn] using ih

/-- Removing a name leaves all others alone. -/
@[simp]
theorem find?_remove_of_ne (registry : Registry α) {name other : String} (h : other ≠ name) :
    (registry.remove name).find? other = registry.find? other := by
  unfold find? remove
  induction registry.entries with
  | nil => rfl
  | cons entry entries ih =>
    by_cases hname : entry.1 = name
    · have hother : entry.1 ≠ other := fun eq => h (eq.symm.trans hname)
      simpa [hname, findIn, hother, h.symm] using ih
    · by_cases hother : entry.1 = other
      · simp [findIn, hother, h]
      · simpa [hname, findIn, hother] using ih

/-- Filing a value under a name leaves all others alone. -/
@[simp]
theorem find?_file_of_ne (registry : Registry α) {name other : String} (value : α)
    (h : other ≠ name) : (registry.file name value).find? other = registry.find? other := by
  have hkey : (name = other) = False := eq_false h.symm
  rw [← find?_remove_of_ne registry h]
  simp [file, find?, findIn, hkey]

/-- What is found after filing a value under a name. -/
theorem find?_file (registry : Registry α) (name other : String) (value : α) :
    (registry.file name value).find? other =
      if other = name then some value else registry.find? other := by
  by_cases h : other = name
  · rw [h, find?_file_self, if_pos rfl]
  · rw [find?_file_of_ne registry value h, if_neg h]

/-- What is found after removing a name. -/
theorem find?_remove (registry : Registry α) (name other : String) :
    (registry.remove name).find? other =
      if other = name then none else registry.find? other := by
  by_cases h : other = name
  · rw [h, find?_remove_self, if_pos rfl]
  · rw [find?_remove_of_ne registry h, if_neg h]

end Registry

end DecimalPi
