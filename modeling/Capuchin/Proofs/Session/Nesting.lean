import Capuchin.Proofs.Evaluate.Lexical
import Capuchin.Proofs.Session.Later

namespace Capuchin

mutual

/-- How many functions are written inside one another, at most. -/
def Node.nesting : Node → Nat
  | .absent | .ident _ | .int _ | .str _ | .bool _ => 0
  | .program nodes | .block nodes | .array nodes => Node.nestingAll nodes
  | .exprStmt part | .letStmt _ part | .returnStmt part | .unary _ part => part.nesting
  | .hash entries => Node.nestingPairs entries
  | .fn _ body => body.nesting + 1
  | .binary left _ right | .index left right => max left.nesting right.nesting
  | .call callee args => max callee.nesting (Node.nestingAll args)
  | .ifThen condition consequence => max condition.nesting consequence.nesting
  | .ifElse condition consequence alternative =>
    max condition.nesting (max consequence.nesting alternative.nesting)

def Node.nestingAll : List Node → Nat
  | [] => 0
  | node :: nodes => max node.nesting (Node.nestingAll nodes)

def Node.nestingPairs : List (Node × Node) → Nat
  | [] => 0
  | (key, value) :: entries => max (max key.nesting value.nesting) (Node.nestingPairs entries)

end

/-- The nesting of the program that a source spells; a source that is rejected has no program. -/
def Node.sourceNesting (limit : Nat) (source : String) : Nat :=
  match Node.parse limit source with
  | .ok tree => tree.nesting
  | .error _ => 0

namespace Heap

/-- So many outer links lead from one scope to the other. -/
inductive Outward (heap : Heap) : ScopeId → Nat → ScopeId → Prop where
  | here {id : ScopeId} : Outward heap id 0 id
  | link {id outer : ScopeId} {scope : Scope} (found : heap.scopes[id]? = some scope)
      (linked : scope.outer = some outer) (rest : Outward heap outer links last) :
      Outward heap id (links + 1) last

/-- Scopes stand inside older ones, and from each at most `depth` links lead to the root, which
stands inside none. -/
structure Rooted (heap : Heap) (root : ScopeId) (depth : Nat) : Prop where
  top : ∃ scope : Scope, heap.scopes[root]? = some scope ∧ scope.outer = none
  older : ∀ (id : ScopeId) (scope : Scope) (outer : ScopeId), heap.scopes[id]? = some scope →
    scope.outer = some outer → outer < id
  reaches : ∀ id < heap.next, ∃ links ≤ depth, heap.Outward id links root

/-- Value of a name, looked for from a scope outward through at most so many links and whatever
these lead to; `none` if they are not enough to end the search. -/
def findWithin (heap : Heap) (links : Nat) (id : ScopeId) (name : String) :
    Option (Option Value) :=
  match heap.scopes[id]? with
  | none => some none
  | some scope =>
    match Table.get? name scope.bindings, scope.outer, links with
    | some value, _, _ => some (some value)
    | none, none, _ => some none
    | none, some outer, links + 1 => heap.findWithin links outer name
    | none, some _, 0 => none

/-- A scope from which links lead to the root that leave room for `need` more. -/
def Spares (heap : Heap) (root : ScopeId) (depth : Nat) (id : ScopeId) (need : Nat) : Prop :=
  id < heap.next ∧ ∃ links, heap.Outward id links root ∧ links + need ≤ depth

section Links

variable {heap before after : Heap} {root id outer : ScopeId} {depth more need less : Nat}

theorem Outward.grows (outward : before.Outward id links last) (grown : before.Grows after) :
    after.Outward id links last := by
  induction outward with
  | here => exact .here
  | link found linked _ ih =>
    obtain ⟨later, at_, same⟩ := grown _ _ found
    exact .link at_ (same.trans linked) ih

theorem Spares.grows (spares : before.Spares root depth id need) (grown : before.Grows after) :
    after.Spares root depth id need := by
  obtain ⟨inside, links, outward, room⟩ := spares
  exact ⟨Nat.lt_of_lt_of_le inside grown.next_le, links, outward.grows grown, room⟩

theorem Spares.weaken (spares : heap.Spares root depth id need) (order : less ≤ need)
    (deeper : depth ≤ more) : heap.Spares root more id less := by
  obtain ⟨inside, links, outward, room⟩ := spares
  exact ⟨inside, links, outward, by omega⟩

theorem Spares.create (spares : heap.Spares root depth outer (need + 1)) :
    (heap.create (some outer)).Spares root depth heap.next need := by
  obtain ⟨_, links, outward, room⟩ := spares
  have made : (heap.create (some outer)).scopes[heap.next]? = some { outer := some outer } := by
    rw [scope_create, if_pos rfl]
  refine ⟨?_, links + 1, .link made rfl (outward.grows (heap.grows_create _)), by omega⟩
  rw [next_create]
  exact Nat.lt_succ_self _

theorem Rooted.create (rooted : heap.Rooted root depth)
    (spares : heap.Spares root depth outer (need + 1)) :
    (heap.create (some outer)).Rooted root depth := by
  have grown := heap.grows_create (some outer)
  refine ⟨?_, ?_, ?_⟩
  · obtain ⟨scope, found, top⟩ := rooted.top
    obtain ⟨later, at_, same⟩ := grown root scope found
    exact ⟨later, at_, same.trans top⟩
  · intro id scope other found linked
    rw [scope_create] at found
    split at found
    · rename_i new
      cases found
      cases linked
      rw [new]
      exact spares.1
    · exact rooted.older id scope other found linked
  · intro id inside
    rw [next_create] at inside
    by_cases new : id = heap.next
    · rw [new]
      obtain ⟨_, links, outward, room⟩ := spares.create
      exact ⟨links, by omega, outward⟩
    · obtain ⟨links, bound, outward⟩ := rooted.reaches id
        (Nat.lt_of_le_of_ne (Nat.le_of_lt_succ inside) new)
      exact ⟨links, bound, outward.grows grown⟩

theorem Rooted.write (rooted : heap.Rooted root depth) (target : ScopeId) (name : String)
    (value : Value) : (heap.write target name value).Rooted root depth := by
  have grown := heap.grows_write target name value
  refine ⟨?_, ?_, ?_⟩
  · obtain ⟨scope, found, top⟩ := rooted.top
    obtain ⟨later, at_, same⟩ := grown root scope found
    exact ⟨later, at_, same.trans top⟩
  · intro id scope other found linked
    rw [scope_write] at found
    split at found
    · obtain ⟨old, before, rfl⟩ := Option.map_eq_some_iff.mp found
      exact rooted.older id old other before linked
    · exact rooted.older id scope other found linked
  · intro id inside
    rw [next_write] at inside
    obtain ⟨links, bound, outward⟩ := rooted.reaches id inside
    exact ⟨links, bound, outward.grows grown⟩

theorem Rooted.weaken (rooted : heap.Rooted root depth) (deeper : depth ≤ more) :
    heap.Rooted root more := by
  refine ⟨rooted.top, rooted.older, fun id inside => ?_⟩
  obtain ⟨links, bound, outward⟩ := rooted.reaches id inside
  exact ⟨links, bound.trans deeper, outward⟩

theorem Rooted.findWithin_eq (rooted : heap.Rooted root depth)
    (outward : heap.Outward id links root) (enough : links ≤ more) (name : String) :
    heap.findWithin more id name = some (heap.find? id name) := by
  induction outward generalizing more with
  | here =>
    obtain ⟨scope, found, top⟩ := rooted.top
    rw [findWithin, find?]
    simp only [found, top]
    cases Table.get? name scope.bindings <;> rfl
  | @link links _ id outer scope found linked _ ih =>
    obtain ⟨more, rfl⟩ : ∃ others, more = others + 1 := ⟨more - 1, by omega⟩
    have older := rooted.older id scope outer found linked
    rw [findWithin, find?]
    simp only [found, linked, older, if_true]
    cases Table.get? name scope.bindings with
    | some value => rfl
    | none => exact ih rooted (by omega)

end Links

end Heap

section Written

variable {node part : Node}

theorem nesting_le_all {nodes : List Node} (member : node ∈ nodes) :
    node.nesting ≤ Node.nestingAll nodes := by
  induction nodes with
  | nil => cases member
  | cons first nodes ih =>
    rw [Node.nestingAll]
    rcases List.mem_cons.mp member with rfl | later
    · exact Nat.le_max_left ..
    · exact (ih later).trans (Nat.le_max_right ..)

theorem nesting_le_pairs {entries : List (Node × Node)} (member : pair ∈ entries) :
    max pair.1.nesting pair.2.nesting ≤ Node.nestingPairs entries := by
  induction entries with
  | nil => cases member
  | cons first entries ih =>
    rw [Node.nestingPairs]
    rcases List.mem_cons.mp member with rfl | later
    · exact Nat.le_max_left ..
    · exact (ih later).trans (Nat.le_max_right ..)

theorem nesting_part (member : part ∈ node.parts) : part.nesting ≤ node.nesting := by
  cases node with
  | program nodes => exact nesting_le_all member
  | block nodes => exact nesting_le_all member
  | array nodes => exact nesting_le_all member
  | hash entries =>
    obtain ⟨pair, among, found⟩ := List.mem_flatMap.mp member
    have both := nesting_le_pairs among
    rw [Node.nesting]
    simp only [List.mem_cons, List.not_mem_nil, or_false] at found
    rcases found with rfl | rfl <;> omega
  | call callee args =>
    rw [Node.nesting]
    rcases List.mem_cons.mp member with rfl | arg
    · exact Nat.le_max_left ..
    · exact (nesting_le_all arg).trans (Nat.le_max_right ..)
  | _ => simp [Node.parts, Node.nesting] at member ⊢ <;> grind

end Written

/-- A node is evaluated, and a function is stored, only in a scope from which no more links lead
to the root than leave room for all functions written in it. -/
def Law.nested (root : ScopeId) (depth : Nat) : Law where
  admits heap scope node := heap.Spares root depth scope node.nesting
  holds heap value := ∀ params body scope, value = .fn params body scope →
    heap.Spares root depth scope (body.nesting + 1)
  links heap := heap.Rooted root depth
  admits_grows spares grown := spares.grows grown
  holds_grows held grown params body scope same := (held params body scope same).grows grown
  admits_part spares member := spares.weaken (nesting_part member) (Nat.le_refl _)
  admits_body held := (held _ _ _ rfl).create
  holds_fn spares := by
    rintro _ _ _ ⟨⟩
    exact spares
  holds_str _ := nofun
  holds_concat _ _ := nofun
  holds_empty := nofun
  holds_insert _ _ := nofun
  holds_other shape := by
    rintro _ _ _ rfl
    simp [Value.shape] at shape
  links_create rooted held := rooted.create (held _ _ _ rfl)
  links_write rooted := rooted.write _ _ _

namespace Law

variable {root : ScopeId} {depth more : Nat} {heap : Heap} {value : Value}

theorem nested_allows (allowed : (nested root depth).Allows heap value) (deeper : depth ≤ more) :
    (nested root more).Allows heap value :=
  allowed.mono fun _ held params body scope same =>
    (held params body scope same).weaken (Nat.le_refl _) deeper

theorem nested_kept (kept : (nested root depth).Kept heap) (deeper : depth ≤ more) :
    (nested root more).Kept heap :=
  ⟨kept.links.weaken deeper, fun id name value bound =>
    nested_allows (kept.bound id name value bound) deeper⟩

theorem nested_captured (allowed : (nested root depth).Allows heap value) :
    value.CapturesIn {id | id < heap.next} :=
  allowed.mono fun _ held params body scope same => (held params body scope same).1

theorem nested_yields (yields : (nested root depth).Yields heap value) :
    value.CapturesIn {id | id < heap.next} := by
  rcases yields with ⟨kind, message, rfl⟩ | allowed
  · exact .leaf nofun rfl
  · exact nested_captured allowed

end Law

/-- Scopes are nested at most `depth` deep inside the root, all functions have captured scopes of
the heap, and every search for a name ends within `depth` links. -/
structure Heap.Nested (heap : Heap) (root : ScopeId) (depth : Nat) : Prop where
  rooted : heap.Rooted root depth
  captured : ∀ id name value, heap.Binds id name value → value.CapturesIn {id | id < heap.next}
  searched : ∀ id < heap.next, ∀ name, heap.findWithin depth id name = some (heap.find? id name)

theorem Law.Kept.nested {root : ScopeId} {heap : Heap} (kept : (Law.nested root depth).Kept heap) :
    heap.Nested root depth := by
  refine ⟨kept.links, ?_, ?_⟩
  · intro id name value bound
    exact Law.nested_captured (kept.bound id name value bound)
  · intro id inside name
    obtain ⟨links, bound, outward⟩ := kept.links.reaches id inside
    exact kept.links.findWithin_eq outward bound name

namespace Session

/-- The session comes of a new one by running these sources, the last one first, each under a limit
of its own. -/
inductive Ran : List (Nat × String) → Session → Prop where
  | fresh : Ran [] fresh
  | go (ran : Ran history session) (logged : Bool) (limit : Nat) (source : String) :
      Ran ((limit, source) :: history) (session.go logged limit source).session

/-- The nesting of all sources that were run. -/
def nesting : List (Nat × String) → Nat
  | [] => 0
  | (limit, source) :: history => max (Node.sourceNesting limit source) (nesting history)

variable {session : Session}

theorem fresh_rooted : fresh.heap.Rooted fresh.scope 0 := by
  have only {id : ScopeId} {scope : Scope} (found : fresh.heap.scopes[id]? = some scope) :
      id = 0 ∧ scope = {} := by
    cases id with
    | zero => exact ⟨rfl, (Option.some.inj found).symm⟩
    | succ id => cases found
  refine ⟨⟨{}, rfl, rfl⟩, ?_, ?_⟩
  · intro id scope outer found linked
    rw [(only found).2] at linked
    cases linked
  · intro id inside
    rw [Nat.lt_one_iff.mp inside]
    exact ⟨0, Nat.le_refl 0, .here⟩

theorem nested_admits (kept : (Law.nested session.scope (nesting history)).Kept session.heap)
    (parsed : Node.parse limit source = .ok tree) :
    (Law.nested session.scope (nesting ((limit, source) :: history))).admits session.heap
      session.scope tree := by
  obtain ⟨scope, found, _⟩ := kept.links.top
  refine ⟨session.heap.lt_next found, 0, .here, ?_⟩
  rw [nesting, Node.sourceNesting, parsed, Nat.zero_add]
  exact Nat.le_max_left ..

theorem Ran.kept (ran : Ran history session) :
    (Law.nested session.scope (nesting history)).Kept session.heap := by
  induction ran with
  | fresh => exact fresh_kept fresh_rooted
  | go _ logged limit source ih =>
    have deeper := Law.nested_kept ih (Nat.le_max_right (Node.sourceNesting limit source) _)
    obtain ⟨scope, _, kept, _⟩ := go_kept deeper fun tree parsed => nested_admits ih parsed
    rw [scope]
    exact kept

end Session

/-- In a session of sources, whatever became of these, scopes are nested no deeper than functions
are in the sources, and so they are wherever a monitor may stop the next one; what a source ends
with has captured scopes of the heap. -/
theorem scopes_nest_as_written {session : Session} (ran : Session.Ran history session) :
    session.heap.Nested session.scope (Session.nesting history) ∧
    (∀ limit source tree, Node.parse limit source = .ok tree →
      ∀ (σ : Type) (watch : Monitor σ) notes,
        ((tree.eval watch limit session.scope).heapAfter ⟨session.heap, notes⟩).Nested
          session.scope (Session.nesting ((limit, source) :: history))) ∧
    ∀ logged limit source value, (session.go logged limit source).result = .ok value →
      value.CapturesIn {id | id < (session.go logged limit source).session.heap.next} := by
  have kept := ran.kept
  have deeper (limit : Nat) (source : String) :
      (Law.nested session.scope (Session.nesting ((limit, source) :: history))).Kept session.heap :=
    Law.nested_kept kept (Nat.le_max_right ..)
  refine ⟨kept.nested, ?_, ?_⟩
  · intro limit source tree parsed σ watch notes
    have noted : (Audit.none (Law.nested session.scope
        (Session.nesting ((limit, source) :: history))) watch).good session.heap notes := trivial
    obtain ⟨result, later, marks, ended, _, keptLater, _⟩ :=
      (deeper limit source).eval_ending _ tree (Session.nested_admits kept parsed) noted limit
    unfold Run.heapAfter
    rw [ended]
    exact keptLater.nested
  · intro logged limit source value done
    obtain ⟨_, _, _, yields⟩ := Session.go_kept (deeper limit source)
      fun tree parsed => Session.nested_admits kept parsed
    exact Law.nested_yields (yields value done)

/-- A function that calls itself leaves three scopes, and those of the two calls stand side by side
inside the global one. -/
theorem scopes_nest_as_written_recursion :
    ∃ session : Session,
      Session.Ran [(20, "let f = fn(n) \x7b if (n) \x7b f(!n) \x7d \x7d; f(true)")] session ∧
      session.heap.next = 3 ∧ session.heap.Nested session.scope 1 := by
  have ran := Session.Ran.go .fresh false 20 "let f = fn(n) \x7b if (n) \x7b f(!n) \x7d \x7d; f(true)"
  have written :
      Session.nesting [(20, "let f = fn(n) \x7b if (n) \x7b f(!n) \x7d \x7d; f(true)")] = 1 := by
    cbv
  have nested := (scopes_nest_as_written ran).1
  rw [written] at nested
  exact ⟨_, ran, by cbv, nested⟩

end Capuchin
