namespace Capuchin

/-- Entries in the order in which their keys were first written. -/
abbrev Table (κ α : Type) := List (κ × α)

namespace Table

variable {κ α : Type} [DecidableEq κ]

def get? (key : κ) : Table κ α → Option α
  | [] => none
  | (other, value) :: rest => if other = key then some value else get? key rest

def insert (key : κ) (value : α) : Table κ α → Table κ α
  | [] => [(key, value)]
  | (other, old) :: rest =>
    if other = key then (other, value) :: rest else (other, old) :: insert key value rest

/-- A table written pair by pair. -/
def ofPairs (pairs : List (κ × α)) : Table κ α :=
  pairs.foldl (fun table (key, value) => insert key value table) []

@[simp] theorem get?_insert (table : Table κ α) (key asked : κ) (value : α) :
    get? asked (insert key value table) = if key = asked then some value else get? asked table := by
  induction table with
  | nil => simp [insert, get?]
  | cons entry rest ih =>
    obtain ⟨other, old⟩ := entry
    by_cases same : other = key
    · subst same
      by_cases found : other = asked <;> simp [insert, get?, found]
    · by_cases found : other = asked
      · subst found
        simp [insert, get?, same, Ne.symm same]
      · simp [insert, get?, same, found, ih]

end Table

end Capuchin
