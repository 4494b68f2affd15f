import Capuchin.Proofs.Evaluate.Contract

namespace Capuchin

namespace Heap

/-- Every scope lives on with its outer scope and its names, and with its bindings as they were
unless it is `writable`. -/
structure Frame (writable : Option ScopeId) (before after : Heap) : Prop where
  keeps : ∀ (id : ScopeId) (scope : Scope), writable ≠ some id →
    before.scopes[id]? = some scope → after.scopes[id]? = some scope
  grows : ∀ (id : ScopeId) (scope : Scope), before.scopes[id]? = some scope →
    ∃ later : Scope, after.scopes[id]? = some later ∧ later.outer = scope.outer ∧
      ∀ name, (Table.get? name scope.bindings).isSome → (Table.get? name later.bindings).isSome

namespace Frame

variable {writable : Option ScopeId} {before middle after : Heap}

theorem refl (heap : Heap) : Frame writable heap heap :=
  ⟨fun _ _ _ found => found, fun _ scope found => ⟨scope, found, rfl, fun _ bound => bound⟩⟩

theorem trans (first : Frame writable before middle) (second : Frame writable middle after) :
    Frame writable before after := by
  constructor
  · intro id scope other found
    exact second.keeps id scope other (first.keeps id scope other found)
  · intro id scope found
    obtain ⟨later, foundLater, outer, names⟩ := first.grows id scope found
    obtain ⟨last, foundLast, outerLast, namesLast⟩ := second.grows id later foundLater
    refine ⟨last, foundLast, outerLast.trans outer, ?_⟩
    intro name bound
    exact namesLast name (names name bound)

theorem create (heap : Heap) (outer : Option ScopeId) : Frame none heap (heap.create outer) := by
  have kept (id : ScopeId) (scope : Scope) (found : heap.scopes[id]? = some scope) :
      (heap.create outer).scopes[id]? = some scope := by
    have old : id < heap.scopes.size := (Array.getElem?_eq_some_iff.mp found).choose
    rw [Heap.create, Array.getElem?_push, if_neg (Nat.ne_of_lt old), found]
  exact ⟨fun id scope _ found => kept id scope found,
    fun id scope found => ⟨scope, kept id scope found, rfl, fun _ bound => bound⟩⟩

theorem write (heap : Heap) (id : ScopeId) (name : String) (value : Value) :
    Frame (some id) heap (heap.write id name value) := by
  constructor
  · intro other scope apart found
    rw [Heap.write, Array.getElem?_modify, if_neg (fun same => apart (by rw [same])), found]
  · intro other scope found
    by_cases same : id = other
    · refine ⟨{ scope with bindings := Table.insert name value scope.bindings }, ?_, rfl, ?_⟩
      · rw [Heap.write, Array.getElem?_modify, if_pos same, found]
        rfl
      · intro asked bound
        rw [Table.get?_insert]
        split
        · rfl
        · exact bound
    · refine ⟨scope, ?_, rfl, fun _ bound => bound⟩
      rw [Heap.write, Array.getElem?_modify, if_neg same, found]

/-- What is written to a scope made in the meantime is not written to an old one. -/
theorem of_fresh (outer : Option ScopeId)
    (frame : Frame (some before.next) (before.create outer) after) : Frame none before after := by
  have kept (id : ScopeId) (scope : Scope) (found : before.scopes[id]? = some scope) :
      after.scopes[id]? = some scope := by
    have old : id < before.next := (Array.getElem?_eq_some_iff.mp found).choose
    refine frame.keeps id scope (fun same => ?_) ((create before outer).keeps id scope nofun found)
    exact Nat.ne_of_gt old (Option.some.inj same)
  exact ⟨fun id scope _ found => kept id scope found,
    fun id scope found => ⟨scope, kept id scope found, rfl, fun _ bound => bound⟩⟩

theorem of_none (frame : Frame none before after) : Frame writable before after :=
  ⟨fun id scope _ found => frame.keeps id scope nofun found, frame.grows⟩

end Frame

end Heap

/-- A node with no `let` outside the bodies of functions. -/
inductive Node.LetFree : Node → Prop where
  | intro (plain : node.isLet = false) (each : ∀ part ∈ node.parts, LetFree part) : LetFree node

open Heap Run Evaluate

/-- Everything but the writable scope stays as it was in `start`, also when the run is stopped. -/
def Contract.frame (σ : Type) (writable : Option ScopeId) (start : Heap) : Contract σ where
  before world := Frame writable start world.heap
  after _ world := Frame writable start world.heap
  stopped _ world := Frame writable start world.heap
  ends _ _ framed := framed
  goesOn _ _ _ framed := framed
  stops _ _ framed := framed

section Framing

variable {σ : Type} {watch : Monitor σ} {limit : Nat} {start : Heap}

theorem notice_frame (event : Event) :
    (Contract.frame σ writable start).Keeps (notice (watch limit) event) :=
  Meets.notice (Frame writable start) (watch limit) event

theorem write_frame (scope : ScopeId) (name : String) (value : Value) :
    (Contract.frame σ (some scope) start).Keeps (write (watch limit) scope name value) := by
  refine Meets.bind (fun world framed => ?_) fun _ => notice_frame _
  exact framed.trans (Frame.write world.heap scope name value)

/-- A new scope is writable from then on, beside all that was there before. -/
theorem create_frame (captured : ScopeId) :
    Meets (fun world => Frame none start world.heap) (create (watch limit) captured)
      (fun id world => ∃ heap, Frame none start heap ∧ id = heap.next ∧
        Frame (some id) (heap.create (some captured)) world.heap)
      fun _ world => Frame none start world.heap := by
  have made : Meets (fun world => Frame none start world.heap)
      (modifyGet fun world =>
        (world.heap.next, { world with heap := world.heap.create (some captured) }) : Run σ ScopeId)
      (fun id world => ∃ heap, Frame none start heap ∧ id = heap.next ∧
        world.heap = heap.create (some captured))
      fun _ world => Frame none start world.heap :=
    fun world framed => ⟨world.heap, framed, rfl, rfl⟩
  refine Meets.bind made fun id => ?_
  rintro world ⟨heap, framed, rfl, same⟩
  have told := Meets.notice (· = heap.create (some captured)) (watch limit)
    (.create heap.next captured)
  refine Meets.bind (told.weaken (fun _ _ same => same) fun _ _ same => ?_) (fun _ => ?_) world same
  · rw [same]
    exact framed.trans (.create heap (some captured))
  · refine Meets.pure fun _ same => ⟨heap, framed, rfl, ?_⟩
    rw [same]
    exact .refl _

/-- A call leaves all scopes alone, if evaluation writes at most the scope it is given. -/
theorem apply_frame {self : Node → ScopeId → Run σ Value}
    (evaluates : ∀ body scope start, (Contract.frame σ (some scope) start).Holds (self body scope))
    (callee : Value) (args : List Value) :
    (Contract.frame σ none start).Holds (apply watch limit self callee args) := by
  unfold apply
  split
  · rename_i params body captured
    refine (notice_frame _).bind fun _ => ?_
    refine Meets.bind (create_frame captured) fun id => ?_
    rintro world ⟨heap, framed, rfl, fresh⟩
    have inner : (Contract.frame σ (some heap.next) (heap.create (some captured))).Holds (do
        bindAll watch limit heap.next (params.zip args)
        return (← self body heap.next).unwrap) := by
      refine (Contract.Keeps.bindAll _ (write_frame heap.next)).bind fun _ => ?_
      exact (evaluates body heap.next _).unwrap
    refine inner.weaken ?_ ?_ world fresh
    · intro _ _ within
      exact framed.trans (.of_fresh _ within)
    · intro _ _ within
      exact framed.trans (.of_fresh _ within)
  · exact (notice_frame _).bind fun _ => .settle _
  · exact .complain _

/-- An evaluation writes the scope it is given, and not even that without a `let`. -/
theorem eval_frame (node : Node) (scope : ScopeId)
    (allowed : writable = some scope ∨ node.LetFree) :
    (Contract.frame σ writable start).Holds (Node.eval watch limit node scope) := by
  induction limit generalizing node scope writable start with
  | zero => exact Meets.throw fun _ framed => framed
  | succ limit ih =>
    refine .eval node (notice_frame _) (.node node ?_ ?_ ?_) fun value => notice_frame _
    · intro part member
      refine ih part scope (allowed.imp_right ?_)
      rintro ⟨_, each⟩
      exact each part member
    · intro binds name value
      rcases allowed with rfl | ⟨plain, _⟩
      · exact write_frame scope name value
      · rw [binds] at plain
        cases plain
    · intro callee args world framed
      have called : (Contract.frame σ none world.heap).Holds
          (apply watch limit (Node.eval watch limit) callee args) :=
        apply_frame (fun body scope _ => ih body scope (.inl rfl)) callee args
      refine called.weaken ?_ ?_ world (.refl _)
      · intro _ _ later
        exact framed.trans later.of_none
      · intro _ _ later
        exact framed.trans later.of_none

end Framing

/-- However an evaluation ends, all scopes but its own are as they were; its own has its outer
scope and its names, and without a `let` its bindings. A call leaves all scopes as they were. -/
theorem eval_writes_own_scope (watch : Monitor σ) (limit : Nat) (world : World σ) :
    (∀ node scope,
      (∀ (id : ScopeId) (record : Scope), id ≠ scope → world.heap.scopes[id]? = some record →
        ((Node.eval watch limit node scope).heapAfter world).scopes[id]? = some record) ∧
      (∀ record : Scope, world.heap.scopes[scope]? = some record → ∃ later : Scope,
        ((Node.eval watch limit node scope).heapAfter world).scopes[scope]? = some later ∧
        later.outer = record.outer ∧
        ∀ name, (Table.get? name record.bindings).isSome →
          (Table.get? name later.bindings).isSome) ∧
      (node.LetFree → ∀ record : Scope, world.heap.scopes[scope]? = some record →
        ((Node.eval watch limit node scope).heapAfter world).scopes[scope]? = some record)) ∧
    ∀ callee args (id : ScopeId) (record : Scope), world.heap.scopes[id]? = some record →
      ((Evaluate.apply watch limit (Node.eval watch limit) callee args).heapAfter world).scopes[id]?
        = some record := by
  refine ⟨fun node scope => ?_, ?_⟩
  · have framed : Frame (some scope) world.heap ((Node.eval watch limit node scope).heapAfter world) :=
      Meets.heapAfter (eval_frame node scope (.inl rfl)) (.refl _)
    refine ⟨?_, framed.grows scope, ?_⟩
    · intro id record other found
      exact framed.keeps id record (fun same => other (Option.some.inj same).symm) found
    · intro plain record found
      have untouched : Frame none world.heap ((Node.eval watch limit node scope).heapAfter world) :=
        Meets.heapAfter (eval_frame node scope (.inr plain)) (.refl _)
      exact untouched.keeps scope record nofun found
  · intro callee args id record found
    have evaluates (body : Node) (scope : ScopeId) (start : Heap) :
        (Contract.frame σ (some scope) start).Holds (Node.eval watch limit body scope) :=
      eval_frame body scope (.inl rfl)
    have untouched : Frame none world.heap
        ((Evaluate.apply watch limit (Node.eval watch limit) callee args).heapAfter world) :=
      Meets.heapAfter (apply_frame evaluates callee args) (.refl _)
    exact untouched.keeps id record nofun found

/-- The `let` of a called function writes the function's own `x`, not the one it can see. -/
theorem eval_writes_own_scope_call :
    (Node.call (.ident "f") [.int 2]).LetFree ∧
    ((Node.eval Monitor.silent 9 (.call (.ident "f") [.int 2]) 0).heapAfter
      ⟨⟨#[⟨[("x", .int 1), ("f", .fn ["y"] (.block [.letStmt "x" (.ident "y")]) 0)], none⟩]⟩,
        ()⟩).scopes[0]? =
      some ⟨[("x", .int 1), ("f", .fn ["y"] (.block [.letStmt "x" (.ident "y")]) 0)], none⟩ := by
  have leaf (node : Node) (plain : node.isLet = false) (none : node.parts = []) : node.LetFree :=
    .intro plain (by simp [none])
  have plain : (Node.call (.ident "f") [.int 2]).LetFree :=
    .intro rfl (List.forall_mem_cons.mpr
      ⟨leaf _ rfl rfl, List.forall_mem_singleton.mpr (leaf _ rfl rfl)⟩)
  exact ⟨plain, ((eval_writes_own_scope Monitor.silent 9 _).1 _ 0).2.2 plain _ rfl⟩

end Capuchin
