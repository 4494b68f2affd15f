import Capuchin.Proofs.Evaluate.Mirror
import Mathlib.Order.Monotone.Basic

namespace Capuchin

/-- The other scope is the same but for the numbers of scopes. -/
structure Scope.Shows (number : ScopeId → ScopeId) (scope other : Scope) : Prop where
  outer_eq : other.outer = scope.outer.map number
  get?_eq : ∀ name, Table.get? name other.bindings =
    (Table.get? name scope.bindings).map (·.rename number)

namespace Heap

theorem next_create (heap : Heap) (outer : Option ScopeId) :
    (heap.create outer).next = heap.next + 1 := by
  simp [next, create]

theorem next_write (heap : Heap) (id : ScopeId) (name : String) (value : Value) :
    (heap.write id name value).next = heap.next := by
  simp [next, write]

theorem scope_create (heap : Heap) (outer : Option ScopeId) (id : ScopeId) :
    (heap.create outer).scopes[id]? =
      if id = heap.next then some { outer } else heap.scopes[id]? := by
  rw [create, Array.getElem?_push, next]

theorem scope_write (heap : Heap) (id other : ScopeId) (name : String) (value : Value) :
    (heap.write id name value).scopes[other]? =
      if id = other then heap.scopes[other]?.map fun scope =>
        { scope with bindings := Table.insert name value scope.bindings }
      else heap.scopes[other]? := by
  rw [write, Array.getElem?_modify]

theorem scope_next_le (heap : Heap) {id : ScopeId} (outside : heap.next ≤ id) :
    heap.scopes[id]? = none :=
  Array.getElem?_eq_none outside

theorem lt_next (heap : Heap) {id : ScopeId} {scope : Scope}
    (found : heap.scopes[id]? = some scope) : id < heap.next :=
  (Array.getElem?_eq_some_iff.mp found).1

theorem Grows.next_le {before after : Heap} (grown : before.Grows after) :
    before.next ≤ after.next := by
  by_contra less
  obtain ⟨_, found, _⟩ := grown _ _ (Array.getElem?_eq_getElem (Nat.lt_of_not_le less))
  exact Nat.lt_irrefl _ (after.lt_next found)

/-- A search goes to older scopes only, and sees no more of a scope than its outer scope and what it
binds the name to. -/
theorem find?_congr {one two : Heap} {asked : String} {scope : ScopeId}
    (same : ∀ id ≤ scope,
      (two.scopes[id]?.map fun scope => (scope.outer, Table.get? asked scope.bindings)) =
        one.scopes[id]?.map fun scope => (scope.outer, Table.get? asked scope.bindings)) :
    two.find? scope asked = one.find? scope asked := by
  induction scope using Nat.strongRecOn with
  | ind scope ih =>
    have here := same scope (Nat.le_refl scope)
    rw [find?, find?.eq_def one]
    cases found : one.scopes[scope]? with
    | none =>
      rw [found, Option.map_none, Option.map_eq_none_iff] at here
      rw [here]
    | some record =>
      rw [found, Option.map_some, Option.map_eq_some_iff] at here
      obtain ⟨other, foundOther, alike⟩ := here
      obtain ⟨outer, bound⟩ := Prod.mk.inj alike
      simp only [foundOther, outer, bound]
      cases Table.get? asked record.bindings with
      | some value => rfl
      | none =>
        cases record.outer with
        | none => rfl
        | some outer =>
          simp only
          split
          · rename_i older
            exact ih outer older fun id order => same id (Nat.le_trans order (Nat.le_of_lt older))
          · rfl

/-- Outer scopes and captured scopes are scopes of the heap. -/
structure Closed (heap : Heap) : Prop where
  outer : ∀ (id : ScopeId) (scope : Scope) (outer : ScopeId), heap.scopes[id]? = some scope →
    scope.outer = some outer → outer < heap.next
  captured : ∀ id name value, heap.Binds id name value → value.Throughout fun part =>
    ∀ params body scope, part = .fn params body scope → scope < heap.next

end Heap

/-- Only scopes of the heap are referred to. -/
def Law.closed : Law where
  admits heap scope _ := scope < heap.next
  holds heap value := ∀ params body scope, value = .fn params body scope → scope < heap.next
  links heap := ∀ (id : ScopeId) (scope : Scope) (outer : ScopeId),
    heap.scopes[id]? = some scope → scope.outer = some outer → outer < heap.next
  admits_grows inside grown := Nat.lt_of_lt_of_le inside grown.next_le
  holds_grows held grown params body scope same :=
    Nat.lt_of_lt_of_le (held params body scope same) grown.next_le
  admits_part inside _ := inside
  admits_body _ := by
    rw [Heap.next_create]
    exact Nat.lt_succ_self _
  holds_fn inside := by
    rintro _ _ _ ⟨⟩
    exact inside
  holds_str _ := nofun
  holds_concat _ _ := nofun
  holds_empty := nofun
  holds_insert _ _ := nofun
  holds_other shape := by
    rintro _ _ _ rfl
    simp [Value.shape] at shape
  links_create links held id scope outer found same := by
    rw [Heap.next_create]
    rw [Heap.scope_create] at found
    split at found
    · cases found
      cases same
      exact Nat.lt_succ_of_lt (held _ _ _ rfl)
    · exact Nat.lt_succ_of_lt (links id scope outer found same)
  links_write links id scope outer found same := by
    rw [Heap.next_write]
    rw [Heap.scope_write] at found
    split at found
    · obtain ⟨old, before, rfl⟩ := Option.map_eq_some_iff.mp found
      exact links id old outer before same
    · exact links id scope outer found same

theorem Heap.Closed.kept {heap : Heap} (closed : heap.Closed) : Law.closed.Kept heap :=
  ⟨closed.outer, closed.captured⟩

/-- New numbers for scopes: in the same order, and without gaps from `base` on. -/
structure Renumbering where
  number : Nat → Nat
  base : Nat
  mono : StrictMono number
  steady : ∀ id, base ≤ id → number (id + 1) = number id + 1

namespace Renumbering

/-- The image has all scopes of the heap under their new numbers, and creates scopes in step. -/
structure Shows (renumbering : Renumbering) (heap image : Heap) : Prop where
  base_le : renumbering.base ≤ heap.next
  next_eq : image.next = renumbering.number heap.next
  scopes : ∀ (id : ScopeId) (scope : Scope), heap.scopes[id]? = some scope →
    ∃ other : Scope, image.scopes[renumbering.number id]? = some other ∧
      scope.Shows renumbering.number other

variable {renumbering : Renumbering} {heap image later : Heap}

theorem Shows.missing (shown : renumbering.Shows heap image) {id : ScopeId}
    (missing : heap.scopes[id]? = none) : image.scopes[renumbering.number id]? = none := by
  refine image.scope_next_le ?_
  rw [shown.next_eq]
  exact renumbering.mono.monotone (Array.getElem?_eq_none_iff.mp missing)

/-- Scopes are searched in the same order. -/
theorem Shows.find? (shown : renumbering.Shows heap image) (scope : ScopeId) (name : String) :
    image.find? (renumbering.number scope) name =
      (heap.find? scope name).map (·.rename renumbering.number) := by
  induction scope using Nat.strongRecOn with
  | ind scope ih =>
    rw [Heap.find?, Heap.find?]
    cases found : heap.scopes[scope]? with
    | none =>
      rw [shown.missing found]
      rfl
    | some record =>
      obtain ⟨other, at_, same⟩ := shown.scopes scope record found
      simp only [at_, same.get?_eq, same.outer_eq]
      cases Table.get? name record.bindings with
      | some value => rfl
      | none =>
        cases record.outer with
        | none => rfl
        | some outer =>
          simp only [Option.map_none, Option.map_some, renumbering.mono.lt_iff_lt]
          split
          · exact ih outer ‹_›
          · rfl

theorem Shows.create (shown : renumbering.Shows heap image) (outer : ScopeId) :
    renumbering.Shows (heap.create (some outer))
      (image.create (some (renumbering.number outer))) := by
  refine ⟨?_, ?_, fun id scope found => ?_⟩
  · rw [Heap.next_create]
    exact Nat.le_succ_of_le shown.base_le
  · rw [Heap.next_create, Heap.next_create, shown.next_eq,
      renumbering.steady heap.next shown.base_le]
  · simp only [Heap.scope_create, shown.next_eq, renumbering.mono.injective.eq_iff] at found ⊢
    split at found
    · cases found
      exact ⟨_, if_pos ‹_›, rfl, fun _ => rfl⟩
    · rw [if_neg ‹_›]
      exact shown.scopes id scope found

theorem Shows.write (shown : renumbering.Shows heap image) (target : ScopeId) (name : String)
    (value : Value) :
    renumbering.Shows (heap.write target name value)
      (image.write (renumbering.number target) name (value.rename renumbering.number)) := by
  refine ⟨?_, ?_, fun id scope found => ?_⟩
  · rw [Heap.next_write]
    exact shown.base_le
  · rw [Heap.next_write, Heap.next_write, shown.next_eq]
  · simp only [Heap.scope_write, renumbering.mono.injective.eq_iff] at found ⊢
    split at found
    · obtain ⟨old, before, rfl⟩ := Option.map_eq_some_iff.mp found
      obtain ⟨other, at_, same⟩ := shown.scopes id old before
      rw [if_pos ‹_›, at_, Option.map_some]
      refine ⟨_, rfl, same.outer_eq, fun asked => ?_⟩
      simp only [Table.get?_insert, same.get?_eq]
      split <;> rfl
    · rw [if_neg ‹_›]
      exact shown.scopes id scope found

def mirror (renumbering : Renumbering) : Mirror Law.closed where
  number := renumbering.number
  shows := renumbering.Shows
  next shown := shown.next_eq
  finds _ shown _ := shown.find? _ _
  creates shown _ := shown.create _
  writes shown _ := shown.write _ _ _

/-- All scopes keep their numbers. -/
def same : Renumbering where
  number := id
  base := 0
  mono := strictMono_id
  steady _ _ := rfl

theorem shows_same (heap : Heap) : same.Shows heap heap where
  base_le := Nat.zero_le _
  next_eq := rfl
  scopes _ scope found := ⟨scope, found, by simp [same], fun name => by simp [same]⟩

/-- Leave out some numbers from a scope on. -/
def skip (renumbering : Renumbering) (start : Nat) (order : renumbering.base ≤ start)
    (extra : Nat) : Renumbering where
  number id := if id < start then renumbering.number id else renumbering.number id + extra
  base := start
  mono first second less := by
    have ordered := renumbering.mono less
    dsimp only
    split <;> split <;> omega
  steady id above := by
    have next := renumbering.steady id (Nat.le_trans order above)
    have after : ¬id + 1 < start := by omega
    rw [if_neg (Nat.not_lt.mpr above), if_neg after, next]
    omega

theorem skip_of_lt (order : renumbering.base ≤ start) (extra : Nat) {id : Nat}
    (inside : id < start) :
    (renumbering.skip start order extra).number id = renumbering.number id :=
  if_pos inside

/-- An image goes on showing a heap when scopes are added to the image alone. -/
theorem Shows.skip (shown : renumbering.Shows heap image) (closed : Law.closed.Kept heap)
    (untouched : Heap.Frame none image later) :
    (renumbering.skip heap.next shown.base_le (later.next - image.next)).Shows heap later := by
  have grown : image.next ≤ later.next := untouched.grown.next_le
  have agree {id : Nat} (inside : id < heap.next) :=
    skip_of_lt shown.base_le (later.next - image.next) inside
  refine ⟨Nat.le_refl _, ?_, fun id scope found => ?_⟩
  · have moved : (renumbering.skip heap.next shown.base_le (later.next - image.next)).number
        heap.next = renumbering.number heap.next + (later.next - image.next) :=
      if_neg (Nat.lt_irrefl _)
    rw [moved, ← shown.next_eq]
    exact (Nat.add_sub_of_le grown).symm
  · obtain ⟨other, at_, same⟩ := shown.scopes id scope found
    refine ⟨other, ?_, ?_, fun name => ?_⟩
    · rw [agree (heap.lt_next found)]
      exact untouched.keeps _ other nofun at_
    · rw [same.outer_eq]
      refine Option.map_congr fun outer linked => ?_
      exact (agree (closed.links id scope outer found linked)).symm
    · rw [same.get?_eq]
      refine Option.map_congr fun value bound => ?_
      have captured := closed.bound id name value ⟨scope, found, bound⟩
      exact Value.rename_congr (captured.mono fun part inside params body scope same =>
        (agree (inside params body scope same)).symm)

end Renumbering

end Capuchin
