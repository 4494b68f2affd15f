import Capuchin.Proofs.Evaluate.Frame
import Capuchin.Proofs.Value.Made

/-! Laws: what may be evaluated in a scope, and what may be stored. A law has to be kept by the
ways in which values are made; then it is kept by every evaluation. Errors are not stored, and
no law says anything about them. -/

namespace Capuchin

namespace Heap

/-- Later on every scope is still there, inside the same outer scope. -/
def Grows (before after : Heap) : Prop :=
  ∀ (id : ScopeId) (scope : Scope), before.scopes[id]? = some scope →
    ∃ later : Scope, after.scopes[id]? = some later ∧ later.outer = scope.outer

/-- The scope itself binds the name to the value. -/
def Binds (heap : Heap) (id : ScopeId) (name : String) (value : Value) : Prop :=
  ∃ scope : Scope, heap.scopes[id]? = some scope ∧ Table.get? name scope.bindings = some value

theorem Grows.refl (heap : Heap) : heap.Grows heap :=
  fun _ scope found => ⟨scope, found, rfl⟩

theorem Grows.trans {before middle after : Heap} (first : before.Grows middle)
    (second : middle.Grows after) : before.Grows after := by
  intro id scope found
  obtain ⟨later, foundLater, same⟩ := first id scope found
  obtain ⟨last, foundLast, sameLast⟩ := second id later foundLater
  exact ⟨last, foundLast, sameLast.trans same⟩

theorem Frame.grown {before after : Heap} (frame : Frame writable before after) :
    before.Grows after := by
  intro id scope found
  obtain ⟨later, foundLater, same, _⟩ := frame.grows id scope found
  exact ⟨later, foundLater, same⟩

theorem grows_create (heap : Heap) (outer : Option ScopeId) : heap.Grows (heap.create outer) :=
  (Frame.create heap outer).grown

theorem grows_write (heap : Heap) (id : ScopeId) (name : String) (value : Value) :
    heap.Grows (heap.write id name value) :=
  (Frame.write heap id name value).grown

section Bindings

variable {heap : Heap} {id other : ScopeId} {name asked : String} {value found : Value}

/-- A new scope binds nothing. -/
theorem Binds.of_create (bound : (heap.create outer).Binds id name value) :
    heap.Binds id name value := by
  obtain ⟨scope, found, got⟩ := bound
  rw [create, Array.getElem?_push] at found
  split at found
  · cases found
    cases got
  · exact ⟨scope, found, got⟩

/-- What is bound after a write was written or was bound before. -/
theorem Binds.of_write (bound : (heap.write id name value).Binds other asked found) :
    found = value ∨ heap.Binds other asked found := by
  obtain ⟨scope, at_, got⟩ := bound
  rw [write, Array.getElem?_modify] at at_
  split at at_
  · obtain ⟨old, before, rfl⟩ := Option.map_eq_some_iff.mp at_
    rw [Table.get?_insert] at got
    split at got
    · exact .inl (Option.some.inj got).symm
    · exact .inr ⟨old, before, got⟩
  · exact .inr ⟨scope, at_, got⟩

/-- A heap of one scope with one name binds that. -/
theorem Binds.of_single (bound : Binds ⟨#[⟨[(name, value)], outer⟩]⟩ id asked found) :
    found = value := by
  obtain ⟨scope, at_, got⟩ := bound
  cases id with
  | zero =>
    cases at_
    exact (Prod.mk.inj (List.mem_singleton.mp (Table.mem_of_get? got))).2
  | succ id => cases at_

/-- What is found from a scope is bound by some scope. -/
theorem binds_of_find? (found : heap.find? id name = some value) :
    ∃ other, heap.Binds other name value := by
  induction id using Nat.strongRecOn with
  | ind id ih =>
    rw [find?] at found
    split at found
    · cases found
    · rename_i scope at_
      split at found
      · rename_i own got
        cases found
        exact ⟨id, scope, at_, got⟩
      · split at found
        · rename_i outer _
          split at found
          · rename_i older
            exact ih outer older found
          · cases found
        · cases found

end Bindings

end Heap

/-- What may be evaluated and what may be stored, in a heap that grows. -/
structure Law where
  /-- The node may be evaluated in the scope. -/
  admits : Heap → ScopeId → Node → Prop
  /-- What is asked of a stored value and of every value inside it. -/
  holds : Heap → Value → Prop
  /-- What is asked of the scopes besides their bindings. -/
  links : Heap → Prop
  admits_grows : admits before scope node → before.Grows after → admits after scope node
  holds_grows : holds before value → before.Grows after → holds after value
  admits_part : admits heap scope node → part ∈ node.parts → admits heap scope part
  admits_body : holds heap (.fn params body outer) →
    admits (heap.create (some outer)) heap.next body
  holds_fn : admits heap scope (.fn params body) → holds heap (.fn params body scope)
  holds_str : admits heap scope (.str text) → holds heap (.str text)
  holds_concat : holds heap (.str first) → holds heap (.str second) →
    holds heap (.str (first ++ second))
  holds_empty : holds heap (.hash [])
  holds_insert : holds heap (.hash entries) → holds heap key.toValue →
    holds heap (.hash (Table.insert key value entries))
  holds_other : value.shape ∈ [.int, .bool, .null, .array, .builtin, .returned] →
    holds heap value
  links_create : links heap → holds heap (.fn params body outer) →
    links (heap.create (some outer))
  links_write : links heap → links (heap.write scope name value)

namespace Law

variable (law : Law)

/-- The value may be stored. -/
def Allows (heap : Heap) (value : Value) : Prop :=
  value.Throughout (law.holds heap)

/-- The value may be what an evaluation ends with. -/
def Yields (heap : Heap) (value : Value) : Prop :=
  (∃ kind message, value = .error kind message) ∨ law.Allows heap value

/-- The law is kept by all that is stored. -/
structure Kept (heap : Heap) : Prop where
  links : law.links heap
  bound : ∀ id name value, heap.Binds id name value → law.Allows heap value

variable {law} {heap before after : Heap}

theorem Allows.grows (allowed : law.Allows before value) (grown : before.Grows after) :
    law.Allows after value :=
  allowed.mono fun _ held => law.holds_grows held grown

theorem Allows.yields (allowed : law.Allows heap value) : law.Yields heap value :=
  .inr allowed

theorem Yields.grows (yielded : law.Yields before value) (grown : before.Grows after) :
    law.Yields after value :=
  yielded.imp_right fun allowed => allowed.grows grown

theorem Kept.create (kept : law.Kept heap) (held : law.holds heap (.fn params body outer)) :
    law.Kept (heap.create (some outer)) :=
  ⟨law.links_create kept.links held, fun id name value bound =>
    (kept.bound id name value bound.of_create).grows (heap.grows_create _)⟩

theorem Kept.write (kept : law.Kept heap) (allowed : law.Allows heap value) (id : ScopeId)
    (name : String) : law.Kept (heap.write id name value) := by
  have grown := heap.grows_write id name value
  refine ⟨law.links_write kept.links, fun other asked found bound => ?_⟩
  rcases bound.of_write with rfl | old
  · exact allowed.grows grown
  · exact (kept.bound other asked found old).grows grown

theorem Kept.find? {id : ScopeId} (kept : law.Kept heap) (found : heap.find? id name = some value) :
    law.Allows heap value := by
  obtain ⟨other, bound⟩ := Heap.binds_of_find? found
  exact kept.bound other name value bound

section Making

theorem allows_leaf (shape : value.shape ∈ [.int, .bool, .null, .builtin]) :
    law.Allows heap value := by
  refine .leaf (law.holds_other ?_) ?_
  · simp only [List.mem_cons, List.not_mem_nil, or_false] at shape ⊢
    rcases shape with same | same | same | same <;> simp [same]
  · cases value <;> simp [Value.shape] at shape <;> rfl

theorem allows_int (value : Int) : law.Allows heap (.int value) :=
  allows_leaf (by simp [Value.shape])

theorem allows_bool (value : Bool) : law.Allows heap (.bool value) :=
  allows_leaf (by simp [Value.shape])

theorem allows_null : law.Allows heap .null :=
  allows_leaf (by simp [Value.shape])

theorem allows_builtin (builtin : Builtin) : law.Allows heap (.builtin builtin) :=
  allows_leaf (by simp [Value.shape])

theorem allows_array (each : ∀ element ∈ elements, law.Allows heap element) :
    law.Allows heap (.array elements) :=
  .intro (law.holds_other (by simp [Value.shape])) each

theorem Allows.returned (allowed : law.Allows heap value) : law.Allows heap (.returned value) :=
  .intro (law.holds_other (by simp [Value.shape])) (List.forall_mem_singleton.mpr allowed)

theorem Allows.insert (table : law.Allows heap (.hash entries))
    (keyed : law.Allows heap key.toValue) (allowed : law.Allows heap value) :
    law.Allows heap (.hash (Table.insert key value entries)) := by
  refine .intro (law.holds_insert table.here keyed.here) fun part member => ?_
  rcases Table.mem_values_insert member with rfl | old
  · exact allowed
  · exact table.inside part old

theorem Allows.unwrap (allowed : law.Allows heap value) : law.Allows heap value.unwrap := by
  cases value with
  | returned value => exact allowed.inside value (List.mem_singleton_self value)
  | _ => exact allowed

theorem Yields.unwrap (yielded : law.Yields heap value) : law.Yields heap value.unwrap := by
  rcases yielded with ⟨kind, message, rfl⟩ | allowed
  · exact .inl ⟨kind, message, rfl⟩
  · exact .inr allowed.unwrap

/-- What is made of values that may be stored may be stored. -/
theorem Allows.madeOf (each : ∀ value ∈ given, law.Allows heap value) (made : value.MadeOf given) :
    law.Allows heap value := by
  induction made with
  | leaf plain =>
    refine allows_leaf ?_
    simp only [List.mem_cons, List.not_mem_nil, or_false] at plain ⊢
    rcases plain with same | same | same <;> simp [same]
  | same member => exact each _ member
  | part _ inside whole => exact whole.inside _ inside
  | concat _ _ first second => exact .leaf (law.holds_concat first.here second.here) rfl
  | array _ inside => exact allows_array inside

/-- The result of an operation on values that may be stored may be stored. -/
theorem allows_made (each : ∀ value ∈ given, law.Allows heap value) (made : Made given result)
    (done : result = .ok value) : law.Allows heap value := by
  subst done
  exact .madeOf each made

end Making

end Law

end Capuchin
