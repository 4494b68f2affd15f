import Capuchin.Proofs.Evaluate.Renumbering
import Mathlib

namespace Capuchin

mutual

/-- The names that are looked up when a node is evaluated or when functions written in it are
called. Names that are only bound are not among them. -/
def Node.identifiers : Node → List String
  | .ident name => [name]
  | .absent | .int _ | .str _ | .bool _ => []
  | .program nodes | .block nodes | .array nodes => Node.identifiersAll nodes
  | .exprStmt part | .letStmt _ part | .returnStmt part | .unary _ part => part.identifiers
  | .hash entries => Node.identifiersPairs entries
  | .fn _ body => body.identifiers
  | .binary left _ right | .index left right => left.identifiers ++ right.identifiers
  | .call callee args => callee.identifiers ++ Node.identifiersAll args
  | .ifThen condition consequence => condition.identifiers ++ consequence.identifiers
  | .ifElse condition consequence alternative =>
    condition.identifiers ++ consequence.identifiers ++ alternative.identifiers

def Node.identifiersAll : List Node → List String
  | [] => []
  | node :: nodes => node.identifiers ++ Node.identifiersAll nodes

def Node.identifiersPairs : List (Node × Node) → List String
  | [] => []
  | (key, value) :: entries =>
    key.identifiers ++ value.identifiers ++ Node.identifiersPairs entries

end

/-- No function in the value, at any depth, looks the name up. -/
def Value.Unmentioning (name : String) (value : Value) : Prop :=
  value.Throughout (Value.BodyIs fun body => name ∉ body.identifiers)

section Written

variable {node part : Node}

theorem identifiers_subset_all {nodes : List Node} (member : node ∈ nodes) :
    node.identifiers ⊆ Node.identifiersAll nodes := by
  induction nodes with
  | nil => cases member
  | cons first nodes ih =>
    rw [Node.identifiersAll]
    rcases List.mem_cons.mp member with rfl | later
    · exact List.subset_append_left ..
    · exact List.subset_append_of_subset_right _ (ih later)

theorem identifiers_subset_pairs {entries : List (Node × Node)} (member : pair ∈ entries) :
    pair.1.identifiers ++ pair.2.identifiers ⊆ Node.identifiersPairs entries := by
  induction entries with
  | nil => cases member
  | cons first entries ih =>
    rw [Node.identifiersPairs]
    rcases List.mem_cons.mp member with rfl | later
    · exact List.subset_append_left ..
    · exact List.subset_append_of_subset_right _ (ih later)

theorem identifiers_part (member : part ∈ node.parts) : part.identifiers ⊆ node.identifiers := by
  cases node with
  | program nodes => exact identifiers_subset_all member
  | block nodes => exact identifiers_subset_all member
  | array nodes => exact identifiers_subset_all member
  | hash entries =>
    obtain ⟨pair, among, found⟩ := List.mem_flatMap.mp member
    have both := List.append_subset.mp (identifiers_subset_pairs among)
    simp only [List.mem_cons, List.not_mem_nil, or_false] at found
    rcases found with rfl | rfl
    · exact both.1
    · exact both.2
  | call callee args =>
    rw [Node.identifiers]
    rcases List.mem_cons.mp member with rfl | arg
    · exact List.subset_append_left ..
    · exact List.subset_append_of_subset_right _ (identifiers_subset_all arg)
  | _ => simp [Node.parts, Node.identifiers] at member ⊢ <;> grind

end Written

namespace Heap

/-- The heap without one scope's binding of one name. Heaps with the same left over differ at most
in that binding: one may have it and the other not, or both may have it with different values. -/
def forget (heap : Heap) (place : ScopeId) (name : String) : Heap :=
  { scopes := heap.scopes.modify place fun scope =>
      { scope with bindings := Table.erase name scope.bindings } }

section Forgetting

variable {heap : Heap} {place id : ScopeId} {name asked : String} {value : Value}

theorem ext_scopes {one two : Heap} (same : ∀ id : ScopeId, one.scopes[id]? = two.scopes[id]?) :
    one = two := by
  have scopes := Array.ext_getElem? same
  cases one
  cases two
  rw [mk.injEq]
  exact scopes

theorem scope_forget (heap : Heap) (place id : ScopeId) (name : String) :
    (heap.forget place name).scopes[id]? =
      if place = id then heap.scopes[id]?.map fun scope =>
        { scope with bindings := Table.erase name scope.bindings }
      else heap.scopes[id]? := by
  rw [forget, Array.getElem?_modify]

theorem next_forget (heap : Heap) (place : ScopeId) (name : String) :
    (heap.forget place name).next = heap.next := by
  simp [forget, next]

theorem forget_forget (heap : Heap) (place : ScopeId) (name : String) :
    (heap.forget place name).forget place name = heap.forget place name := by
  refine ext_scopes fun id => ?_
  rw [scope_forget, scope_forget]
  split
  · cases heap.scopes[id]? <;> simp [Table.erase_erase]
  · rfl

theorem forget_create (heap : Heap) (place : ScopeId) (name : String) (outer : Option ScopeId) :
    (heap.create outer).forget place name = (heap.forget place name).create outer := by
  refine ext_scopes fun id => ?_
  simp only [scope_forget, scope_create, next_forget]
  by_cases new : id = heap.next
  · by_cases here : place = id <;> simp [new, here, Table.erase]
  · simp only [new, if_false]

/-- The binding that is left out can be written without a trace; any other write comes to the same
before and after. -/
theorem forget_write (heap : Heap) (place target : ScopeId) (name asked : String) (value : Value) :
    (heap.write target asked value).forget place name =
      if target = place ∧ asked = name then heap.forget place name
      else (heap.forget place name).write target asked value := by
  refine ext_scopes fun id => ?_
  split
  · rename_i own
    obtain ⟨rfl, rfl⟩ := own
    simp only [scope_forget, scope_write]
    split
    · cases heap.scopes[id]? <;> simp [Table.erase_insert]
    · rfl
  · rename_i other
    simp only [scope_forget, scope_write]
    by_cases here : place = id <;> by_cases there : target = id <;>
      cases heap.scopes[id]? <;> simp_all [Table.erase_insert]

theorem find?_forget (other : asked ≠ name) (heap : Heap) (place scope : ScopeId) :
    (heap.forget place name).find? scope asked = heap.find? scope asked := by
  refine find?_congr fun id _ => ?_
  rw [scope_forget]
  split
  · cases heap.scopes[id]? <;> simp [Table.get?_erase, other]
  · rfl

/-- What is still bound is another binding, and was bound before. -/
theorem Binds.of_forget (bound : (heap.forget place name).Binds id asked value) :
    heap.Binds id asked value ∧ (id, asked) ≠ (place, name) := by
  obtain ⟨scope, found, got⟩ := bound
  rw [scope_forget] at found
  split at found
  · rename_i here
    obtain ⟨old, before, rfl⟩ := Option.map_eq_some_iff.mp found
    rw [Table.get?_erase] at got
    split at got
    · cases got
    · rename_i other
      exact ⟨⟨old, before, got⟩, fun same => other (Prod.mk.inj same).2⟩
  · rename_i elsewhere
    exact ⟨⟨scope, found, got⟩, fun same => elsewhere (Prod.mk.inj same).1.symm⟩

end Forgetting

end Heap

/-- The name is never looked up. -/
def Law.unmentioned (name : String) : Law where
  admits _ _ node := name ∉ node.identifiers
  holds _ value := value.BodyIs fun body => name ∉ body.identifiers
  links _ := True
  admits_grows silent _ := silent
  holds_grows held _ := held
  admits_part silent member mentioned := silent (identifiers_part member mentioned)
  admits_body held := held
  holds_fn silent := silent
  holds_str _ := trivial
  holds_concat _ _ := trivial
  holds_empty := trivial
  holds_insert _ _ := trivial
  holds_other shape := Value.bodyIs_of_shape (by
    intro fn
    simp [fn] at shape)
  links_create _ _ := trivial
  links_write _ := trivial

/-- Heaps that differ at most in one scope's binding of a name that is never looked up. -/
def Mirror.forgetful (place : ScopeId) (name : String) : Mirror (Law.unmentioned name) where
  number := id
  shows heap image := image.forget place name = heap.forget place name
  next {heap image} shown := by
    rw [← image.next_forget place name, shown, heap.next_forget, id]
  finds {heap image scope asked} _ shown silent := by
    have other : asked ≠ name := fun same => silent (by simp [Node.identifiers, same])
    rw [id, ← image.find?_forget other place, shown, heap.find?_forget other]
    simp
  creates shown _ := by
    rw [id, Heap.forget_create, Heap.forget_create, shown]
  writes shown _ := by
    rw [id, Value.rename_id, Heap.forget_write, Heap.forget_write, shown]

/-- Evaluation beside itself, in heaps that differ at most in that binding. -/
def Comparison.forgetful (watch : Monitor σ) (place : ScopeId) (name : String) :
    Comparison (Law.unmentioned name) watch :=
  { Mirror.forgetful place name, Audit.none _ watch with blind := watch.blind_id }

/-- If neither the node nor any function that is stored elsewhere looks the name up, then adding,
replacing or removing one scope's binding of the name changes nothing: the evaluation ends with the
same result and the same notes, and the heaps that are left again differ in that binding at most.
The name may be that of a built-in function. -/
theorem unmentioned_name_is_irrelevant (watch : Monitor σ) (limit : Nat) (notes : σ)
    {heap other : Heap} {place : ScopeId} {name : String}
    (differ : other.forget place name = heap.forget place name)
    (stored : ∀ id asked value, heap.Binds id asked value → (id, asked) ≠ (place, name) →
      value.Unmentioning name)
    (node : Node) (silent : name ∉ node.identifiers) (scope : ScopeId) :
    ∃ result later otherLater marks,
      (node.eval watch limit scope).ending ⟨heap, notes⟩ = (result, ⟨later, marks⟩) ∧
      (node.eval watch limit scope).ending ⟨other, notes⟩ = (result, ⟨otherLater, marks⟩) ∧
      otherLater.forget place name = later.forget place name := by
  have kept : (Law.unmentioned name).Kept (heap.forget place name) := by
    refine ⟨trivial, fun id asked value bound => ?_⟩
    obtain ⟨before, elsewhere⟩ := bound.of_forget
    exact stored id asked value before elsewhere
  have ground := heap.forget_forget place name
  have first : (Comparison.forgetful watch place name).Sound (heap.forget place name) heap notes :=
    ⟨kept, ground.symm, trivial⟩
  have second : (Comparison.forgetful watch place name).Sound (heap.forget place name) other notes :=
    ⟨kept, differ.trans ground.symm, trivial⟩
  have agreed : (Comparison.forgetful watch place name).Agrees (heap.forget place name)
      (node.eval watch limit scope) (node.eval watch limit scope) :=
    Comparison.agrees_eval node silent
  obtain ⟨result, _, later, otherLater, marks, ended, endedOther, shown, shownOther⟩ :=
    agreed.images rfl first second
  exact ⟨result, later, otherLater, marks, ended, endedOther,
    shownOther.shown.trans shown.shown.symm⟩

/-- A function that binds `len` without looking it up is called where `len` is bound to a function
that does look it up, and where it is the built-in one. -/
theorem unmentioned_name_is_irrelevant_builtin :
    (∀ id asked value, Heap.Binds ⟨#[⟨[("f", .fn ["x"] (.block [.letStmt "len" (.ident "x"),
      .exprStmt (.ident "x")]) 0)], none⟩]⟩ id asked value → value.Unmentioning "len") ∧
    "len" ∉ (Node.call (.ident "f") [.int 2]).identifiers ∧
    ((Node.eval Monitor.silent 9 (.call (.ident "f") [.int 2]) 0).ending
      ⟨Heap.write ⟨#[⟨[("f", .fn ["x"] (.block [.letStmt "len" (.ident "x"),
        .exprStmt (.ident "x")]) 0)], none⟩]⟩ 0 "len" (.fn [] (.ident "len") 0), ()⟩).1 =
      .ok (.int 2) := by
  have stored : ∀ id asked value, Heap.Binds ⟨#[⟨[("f", .fn ["x"] (.block
      [.letStmt "len" (.ident "x"), .exprStmt (.ident "x")]) 0)], none⟩]⟩ id asked value →
      value.Unmentioning "len" := by
    intro id asked value bound
    rw [bound.of_single]
    refine .leaf ?_ rfl
    show "len" ∉ ["x", "x"]
    decide
  have silent : "len" ∉ (Node.call (.ident "f") [.int 2]).identifiers := by
    show "len" ∉ ["f"]
    decide
  obtain ⟨result, _, _, _, ended, endedOther, _⟩ := unmentioned_name_is_irrelevant Monitor.silent 9 ()
    (Heap.forget_write _ 0 0 "len" "len" (.fn [] (.ident "len") 0))
    (fun id asked value bound _ => stored id asked value bound) _ silent 0
  have known : ((Node.eval Monitor.silent 9 (.call (.ident "f") [.int 2]) 0).ending
      ⟨⟨#[⟨[("f", .fn ["x"] (.block [.letStmt "len" (.ident "x"),
        .exprStmt (.ident "x")]) 0)], none⟩]⟩, ()⟩).1 = .ok (.int 2) := by
    cbv
  rw [ended] at known
  refine ⟨stored, silent, ?_⟩
  rw [endedOther]
  exact known

end Capuchin
