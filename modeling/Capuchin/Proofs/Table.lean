import Capuchin.Table
import Mathlib.Data.List.Induction

namespace Capuchin.Table

variable {κ α : Type} [DecidableEq κ] {table : Table κ α}

/-- After a key was written, a value is the written one or was there before. -/
theorem mem_values_insert (member : found ∈ (insert key value table).map Prod.snd) :
    found = value ∨ found ∈ table.map Prod.snd := by
  induction table with
  | nil => simpa [insert] using member
  | cons entry rest ih =>
    obtain ⟨other, old⟩ := entry
    by_cases same : other = key
    · simp only [insert, same, if_true, List.map_cons, List.mem_cons] at member ⊢
      exact member.imp_right .inr
    · simp only [insert, same, if_false, List.map_cons, List.mem_cons] at member ⊢
      rcases member with old | later
      · exact .inr (.inl old)
      · exact (ih later).imp_right .inr

theorem mem_of_get? (found : get? key table = some value) : (key, value) ∈ table := by
  induction table with
  | nil => cases found
  | cons entry rest ih =>
    obtain ⟨other, old⟩ := entry
    by_cases same : other = key
    · simp only [get?, same, if_true, Option.some.injEq] at found
      simp [same, found]
    · simp only [get?, same, if_false] at found
      exact List.mem_cons_of_mem _ (ih found)

theorem insert_of_notMem (fresh : key ∉ table.map Prod.fst) :
    insert key value table = table ++ [(key, value)] := by
  induction table with
  | nil => rfl
  | cons entry rest ih =>
    obtain ⟨other, old⟩ := entry
    simp only [List.map_cons, List.mem_cons, not_or] at fresh
    rw [insert, if_neg (Ne.symm fresh.1), ih fresh.2, List.cons_append]

/-- A key that was written before keeps its place. -/
theorem keys_insert_of_mem (found : key ∈ table.map Prod.fst) :
    (insert key value table).map Prod.fst = table.map Prod.fst := by
  induction table with
  | nil => cases found
  | cons entry rest ih =>
    obtain ⟨other, old⟩ := entry
    by_cases same : other = key
    · simp [insert, same]
    · have later : key ∈ rest.map Prod.fst := by simpa [Ne.symm same] using found
      simp [insert, same, ih later]

theorem mem_keys_insert (member : found ∈ (insert key value table).map Prod.fst) :
    found = key ∨ found ∈ table.map Prod.fst := by
  by_cases old : key ∈ table.map Prod.fst
  · rw [keys_insert_of_mem old] at member
    exact .inr member
  · rw [insert_of_notMem old, List.map_append, List.mem_append] at member
    exact member.symm.imp_left List.mem_singleton.mp

theorem nodup_keys_insert (distinct : (table.map Prod.fst).Nodup) (key : κ) (value : α) :
    ((insert key value table).map Prod.fst).Nodup := by
  by_cases found : key ∈ table.map Prod.fst
  · rw [keys_insert_of_mem found]
    exact distinct
  · rw [insert_of_notMem found, List.map_append, List.nodup_append]
    refine ⟨distinct, by simp, ?_⟩
    intro other old new member same
    rw [List.map_singleton, List.mem_singleton] at member
    exact found (by rwa [same, member] at old)

theorem get?_of_mem (distinct : (table.map Prod.fst).Nodup) (member : (key, value) ∈ table) :
    get? key table = some value := by
  induction table with
  | nil => cases member
  | cons entry rest ih =>
    obtain ⟨other, old⟩ := entry
    rw [List.map_cons, List.nodup_cons] at distinct
    rcases List.mem_cons.mp member with same | later
    · cases same
      simp [get?]
    · have apart : other ≠ key := by
        rintro rfl
        exact distinct.1 (List.mem_map.mpr ⟨_, later, rfl⟩)
      rw [get?, if_neg apart]
      exact ih distinct.2 later

/-- Values of a table can be mapped before or after a key is written. -/
theorem insert_map {β : Type} (change : α → β) (key : κ) (value : α) (table : Table κ α) :
    insert key (change value) (table.map fun entry => (entry.1, change entry.2)) =
      (insert key value table).map fun entry => (entry.1, change entry.2) := by
  induction table with
  | nil => rfl
  | cons entry rest ih =>
    obtain ⟨other, old⟩ := entry
    by_cases same : other = key
    · simp [insert, same]
    · simp [insert, same, ih]

theorem get?_map {β : Type} (change : α → β) (key : κ) (table : Table κ α) :
    get? key (table.map fun entry => (entry.1, change entry.2)) = (get? key table).map change := by
  induction table with
  | nil => rfl
  | cons entry rest ih =>
    obtain ⟨other, old⟩ := entry
    by_cases same : other = key
    · simp [get?, same]
    · simp [get?, same, ih]

def erase (key : κ) (table : Table κ α) : Table κ α :=
  table.filter fun entry => entry.1 ≠ key

theorem erase_cons (key other : κ) (value : α) (table : Table κ α) :
    erase key ((other, value) :: table) =
      if other = key then erase key table else (other, value) :: erase key table := by
  by_cases same : other = key <;> simp [erase, same]

theorem get?_erase (key asked : κ) (table : Table κ α) :
    get? asked (erase key table) = if asked = key then none else get? asked table := by
  induction table with
  | nil => simp [erase, get?]
  | cons entry rest ih =>
    obtain ⟨other, old⟩ := entry
    by_cases same : other = key <;> by_cases found : other = asked <;>
      simp_all [erase_cons, get?]

theorem erase_erase (key : κ) (table : Table κ α) : erase key (erase key table) = erase key table := by
  simp [erase]

/-- A key can be left out before or after another one is written; then it does not matter whether
it was written itself. -/
theorem erase_insert (key asked : κ) (value : α) (table : Table κ α) :
    erase key (insert asked value table) =
      if asked = key then erase key table else insert asked value (erase key table) := by
  induction table with
  | nil => by_cases same : asked = key <;> simp [insert, erase, same]
  | cons entry rest ih =>
    obtain ⟨other, old⟩ := entry
    by_cases same : other = asked
    · by_cases left : asked = key <;> simp_all [insert, erase_cons]
    · by_cases left : other = key <;> by_cases own : asked = key <;> simp_all [insert, erase_cons]

section Pairs

/-- The value of the last pair with a key. -/
def lastValue? (key : κ) (pairs : List (κ × α)) : Option α :=
  (pairs.findRev? fun pair => pair.1 = key).map Prod.snd

theorem ofPairs_concat (pairs : List (κ × α)) (key : κ) (value : α) :
    ofPairs (pairs ++ [(key, value)]) = insert key value (ofPairs pairs) := by
  simp [ofPairs]

theorem lastValue?_concat (pairs : List (κ × α)) (key asked : κ) (value : α) :
    lastValue? asked (pairs ++ [(key, value)]) =
      if key = asked then some value else lastValue? asked pairs := by
  by_cases same : key = asked <;> simp [lastValue?, List.findRev?_eq_find?_reverse, same]

/-- Keys stand in the order in which they were first written. -/
theorem keys_ofPairs (pairs : List (κ × α)) :
    (ofPairs pairs).map Prod.fst = (pairs.map Prod.fst).eraseDups := by
  induction pairs using List.reverseRecOn with
  | nil => rfl
  | append_singleton pairs pair ih =>
    obtain ⟨key, value⟩ := pair
    have known : key ∈ (ofPairs pairs).map Prod.fst ↔ key ∈ pairs.map Prod.fst := by
      rw [ih, List.mem_eraseDups]
    rw [ofPairs_concat, List.map_append, List.eraseDups_append, ← ih]
    by_cases found : key ∈ pairs.map Prod.fst
    · rw [keys_insert_of_mem (known.mpr found)]
      simp [List.removeAll, found]
    · rw [insert_of_notMem (mt known.mp found), List.map_append]
      simp [List.removeAll, found, List.eraseDups_cons]

/-- The value of a key is the one that was written last. -/
theorem get?_ofPairs (pairs : List (κ × α)) (key : κ) :
    get? key (ofPairs pairs) = lastValue? key pairs := by
  induction pairs using List.reverseRecOn with
  | nil => rfl
  | append_singleton pairs pair ih => rw [ofPairs_concat, get?_insert, lastValue?_concat, ih]

theorem nodup_keys_ofPairs (pairs : List (κ × α)) : ((ofPairs pairs).map Prod.fst).Nodup := by
  induction pairs using List.reverseRecOn with
  | nil => exact List.nodup_nil
  | append_singleton pairs pair ih =>
    rw [ofPairs_concat]
    exact nodup_keys_insert ih pair.1 pair.2

/-- The entries are the keys with the values that were written last. -/
theorem mem_ofPairs (pairs : List (κ × α)) (key : κ) (value : α) :
    (key, value) ∈ ofPairs pairs ↔ lastValue? key pairs = some value := by
  rw [← get?_ofPairs]
  exact ⟨get?_of_mem (nodup_keys_ofPairs pairs), mem_of_get?⟩

end Pairs

end Capuchin.Table
