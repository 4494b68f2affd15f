import Capuchin.Proofs.Evaluate.Delivery
import Capuchin.Proofs.Evaluate.Renumbering

namespace Capuchin

open Run Evaluate

namespace Heap

variable {heap before after : Heap} {id captured : ScopeId} {name asked : String} {value : Value}

/-- What was found from a scope is found again, if no scope that there was has been written. -/
theorem Frame.find?_eq (frame : Frame none before after) (inside : id < before.next) :
    after.find? id name = before.find? id name := by
  refine find?_congr fun other order => ?_
  obtain ⟨scope, found⟩ : ∃ scope, before.scopes[other]? = some scope :=
    ⟨_, Array.getElem?_eq_getElem (Nat.lt_of_le_of_lt order inside)⟩
  rw [found, frame.keeps other scope nofun found]

theorem Frame.next_le (frame : Frame writable before after) : before.next ≤ after.next :=
  frame.grown.next_le

theorem find?_write (inside : id < heap.next) :
    (heap.write id name value).find? id asked =
      if name = asked then some value else heap.find? id asked := by
  obtain ⟨scope, found⟩ : ∃ scope, heap.scopes[id]? = some scope :=
    ⟨_, Array.getElem?_eq_getElem inside⟩
  rw [find?, find?.eq_def heap, scope_write, if_pos rfl, found]
  simp only [Option.map_some, Table.get?_insert]
  by_cases same : name = asked
  · simp only [if_pos same]
  · simp only [if_neg same]
    cases Table.get? asked scope.bindings with
    | some value => rfl
    | none =>
      cases scope.outer with
      | none => rfl
      | some outer =>
        simp only
        split
        · rename_i older
          refine find?_congr fun other order => ?_
          rw [scope_write, if_neg (Nat.ne_of_gt (Nat.lt_of_le_of_lt order older))]
        · rfl

/-- From a new scope, all is found that is found from the scope around it. -/
theorem find?_create (inside : captured < heap.next) :
    (heap.create (some captured)).find? heap.next name = heap.find? captured name := by
  rw [find?, scope_create, if_pos rfl]
  simp only [Table.get?, if_pos inside]
  exact (Frame.create heap (some captured)).find?_eq inside

/-- Bindings written to one scope, in order. -/
def writeAll (heap : Heap) (id : ScopeId) (bindings : List (String × Value)) : Heap :=
  bindings.foldl (fun heap binding => heap.write id binding.1 binding.2) heap

theorem next_writeAll (heap : Heap) (id : ScopeId) (bindings : List (String × Value)) :
    (heap.writeAll id bindings).next = heap.next := by
  induction bindings generalizing heap with
  | nil => rfl
  | cons binding bindings ih => exact (ih _).trans (next_write ..)

theorem Frame.writeAll (heap : Heap) (id : ScopeId) (bindings : List (String × Value)) :
    Frame (some id) heap (heap.writeAll id bindings) := by
  induction bindings generalizing heap with
  | nil => exact .refl heap
  | cons binding bindings ih => exact (Frame.write heap id _ _).trans (ih _)

/-- The last binding of a name is the one that is found. -/
theorem find?_writeAll (inside : id < heap.next) (bindings : List (String × Value)) :
    (heap.writeAll id bindings).find? id asked =
      (Table.get? asked bindings.reverse).or (heap.find? id asked) := by
  induction bindings using List.reverseRecOn with
  | nil => rfl
  | append_singleton bindings binding ih =>
    have last : heap.writeAll id (bindings ++ [binding]) =
        (heap.writeAll id bindings).write id binding.1 binding.2 := by
      simp [writeAll]
    rw [last, find?_write (by rwa [next_writeAll]), List.reverse_append]
    simp only [List.reverse_singleton, List.singleton_append, Table.get?, ih]
    split <;> rfl

/-- The heap in which the body of a function is evaluated, in the newest scope. -/
def entered (heap : Heap) (captured : ScopeId) (bindings : List (String × Value)) : Heap :=
  (heap.create (some captured)).writeAll heap.next bindings

theorem next_entered (heap : Heap) (captured : ScopeId) (bindings : List (String × Value)) :
    (heap.entered captured bindings).next = heap.next + 1 := by
  rw [entered, next_writeAll, next_create]

theorem find?_entered (inside : captured < heap.next) (bindings : List (String × Value)) :
    (heap.entered captured bindings).find? heap.next asked =
      (Table.get? asked bindings.reverse).or (heap.find? captured asked) := by
  rw [entered, find?_writeAll (by rw [next_create]; exact Nat.lt_succ_self _),
    find?_create inside]

/-- Whatever a function does in its own scope, the others stay as they are. -/
theorem Frame.of_entered (frame : Frame (some before.next) (before.entered captured bindings) after) :
    Frame none before after :=
  .of_fresh (some captured) ((Frame.writeAll _ _ _).trans frame)

end Heap

namespace Delivers

variable {σ : Type} {need : Nat} {heap : Heap}

theorem notice (event : Event) :
    Delivers (fun limit => (Run.notice (Monitor.silent limit) event : Run σ Unit)) need heap ()
      heap :=
  fun _ _ _ => rfl

theorem create (captured : ScopeId) :
    Delivers (fun limit => (Run.create (Monitor.silent limit) captured : Run σ ScopeId)) need heap
      heap.next (heap.create (some captured)) :=
  fun _ _ _ => rfl

theorem write (id : ScopeId) (name : String) (value : Value) :
    Delivers (fun limit => (Run.write (Monitor.silent limit) id name value : Run σ Unit)) need heap
      () (heap.write id name value) :=
  fun _ _ _ => rfl

theorem bindAll (id : ScopeId) (bindings : List (String × Value)) :
    Delivers (fun limit => (Evaluate.bindAll .silent limit id bindings : Run σ Unit)) need heap ()
      (heap.writeAll id bindings) := by
  induction bindings generalizing heap with
  | nil => exact .pure () heap
  | cons binding bindings ih => exact (Delivers.write id _ _).bind ih

/-- A function ends as its body does in the scope made for it. -/
theorem apply_fn {args : List Value} {value : Value}
    (ended : Gives σ heap.next body need (heap.entered captured (params.zip args)) value later) :
    Delivers (fun limit => (apply .silent limit (Node.eval .silent limit)
      (.fn params body captured) args : Run σ Value)) need heap value.unwrap later :=
  (notice _).bind ((create captured).bind ((bindAll _ _).bind ended.unwrap))

end Delivers

namespace Gives

variable {σ : Type} {scope : ScopeId} {need : Nat} {heap : Heap} {value : Value} {right : Node}
  {function : Builtin}

theorem ident (found : heap.find? scope name = some value) :
    Gives σ scope (.ident name) (need + 1) heap value heap := by
  refine eval fun limit _ notes => ?_
  simp only [node, identifier, bind, EStateM.bind, find?, found]
  rfl

/-- A name that no scope binds may be that of a built-in function. -/
theorem builtin (unbound : heap.find? scope name = none)
    (known : Builtin.ofName? name = some function) :
    Gives σ scope (.ident name) (need + 1) heap (.builtin function) heap := by
  refine eval fun limit _ notes => ?_
  simp only [node, identifier, bind, EStateM.bind, find?, unbound, known]
  rfl

theorem fn (params : List String) (body : Node) (heap : Heap) :
    Gives σ scope (.fn params body) (need + 1) heap (.fn params body scope) heap :=
  eval (.pure _ _)

/-- A call of a built-in function of one argument. -/
theorem callBuiltin (unbound : heap.find? scope name = none)
    (known : Builtin.ofName? name = some function)
    (given : Gives σ scope right (need + 1) heap value heap) (plain : value.stops = false)
    (applied : function.apply [value] = .ok result) :
    Gives σ scope (.call (.ident name) [right]) (need + 2) heap result heap := by
  refine eval ((builtin unbound known).andThen rfl (given.andThen plain ?_))
  refine (Delivers.notice _).bind ?_
  rw [applied]
  exact .settle_ok result heap

/-- A list of statements ends with the value of the last one. -/
theorem last {statement : Node} (ended : Gives σ scope statement need heap value later)
    (before : Value) :
    Delivers (fun limit => (statements (Node.eval .silent limit) scope [statement] before :
      Run σ Value)) need heap value later := by
  refine ended.bind ?_
  cases value.stops
  · exact .pure _ _
  · exact .pure _ _

/-- What a `let` binds is there for the statements after it. -/
theorem letStmt (ended : Gives σ scope right need heap value middle) (plain : value.stops = false)
    (rest : Delivers (fun limit => (statements (Node.eval .silent limit) scope nodes .null :
      Run σ Value)) (need + 1) (middle.write scope name value) result later) (before : Value) :
    Delivers (fun limit => (statements (Node.eval .silent limit) scope (.letStmt name right :: nodes)
      before : Run σ Value)) (need + 1) heap result later := by
  have bound : Gives σ scope (.letStmt name right) (need + 1) heap .null
      (middle.write scope name value) :=
    eval (ended.andThen plain ((Delivers.write scope name value).bind (.pure _ _)))
  exact Delivers.bind bound rest

end Gives

/-- The run delivers the value, and scopes that there are stay as they are. -/
def Computes (run : Nat → Run σ Value) (need : Nat) (heap : Heap) (value : Value) : Prop :=
  ∃ later, heap.Frame none later ∧ Delivers run need heap value later

/-- The node evaluates to the value in the scope. -/
abbrev Evals (σ : Type) (scope : ScopeId) (node : Node) (need : Nat) (heap : Heap) (value : Value) :
    Prop :=
  Computes (fun limit => (node.eval .silent limit scope : Run σ Value)) need heap value

/-- A call of the function with these arguments has the value. -/
abbrev Calls (σ : Type) (function : Value) (args : List Value) (need : Nat) (heap : Heap)
    (value : Value) : Prop :=
  Computes (fun limit => (apply .silent limit (Node.eval .silent limit) function args :
    Run σ Value)) need heap value

/-- A call of the function, once the values of these nodes are added to the arguments, has the
value. -/
abbrev Passes (σ : Type) (scope : ScopeId) (function : Value) (args : List Value) (nodes : List Node)
    (need : Nat) (heap : Heap) (value : Value) : Prop :=
  Computes (fun limit => (parts (Node.eval .silent limit) scope nodes fun values =>
    apply .silent limit (Node.eval .silent limit) function (args ++ values) : Run σ Value)) need heap
      value

theorem Delivers.computes {run : Nat → Run σ Value} (delivered : Delivers run need heap value heap) :
    Computes run need heap value :=
  ⟨heap, .refl heap, delivered⟩

theorem Computes.weaken {run : Nat → Run σ Value} (computed : Computes run need heap value)
    (order : need ≤ more) : Computes run more heap value := by
  obtain ⟨later, frame, delivered⟩ := computed
  exact ⟨later, frame, delivered.weaken order⟩

namespace Evals

variable {σ : Type} {scope : ScopeId} {need : Nat} {heap : Heap} {value test function : Value}
  {node : Node} {nodes : List Node}

/-- A block of one expression has the value of the expression. -/
theorem sole (ended : Evals σ scope node need heap value) :
    Evals σ scope (.block [.exprStmt node]) (need + 2) heap value := by
  obtain ⟨later, frame, gives⟩ := ended
  have stated : Gives σ scope (.exprStmt node) (need + 1) heap value later := .eval gives
  exact ⟨later, frame, Gives.eval (stated.last .null)⟩

theorem ifElse (tested : Gives σ scope condition need heap test heap) (plain : test.stops = false)
    (ended : Evals σ scope (if test.truthy then consequence else alternative) need heap value) :
    Evals σ scope (.ifElse condition consequence alternative) (need + 1) heap value := by
  obtain ⟨later, frame, gives⟩ := ended
  refine ⟨later, frame, Gives.eval (tested.andThen plain ?_)⟩
  split at gives
  · rename_i truthy
    simpa only [if_pos truthy] using gives
  · rename_i falsy
    simpa only [if_neg falsy] using gives

theorem call (called : Gives σ scope node need heap function heap) (plain : function.stops = false)
    (passed : Passes σ scope function [] nodes need heap value) :
    Evals σ scope (.call node nodes) (need + 1) heap value := by
  obtain ⟨later, frame, delivered⟩ := passed
  exact ⟨later, frame, Gives.eval (called.andThen plain delivered)⟩

end Evals

namespace Passes

variable {σ : Type} {scope : ScopeId} {need : Nat} {heap : Heap} {function value result : Value}
  {args : List Value} {node : Node} {nodes : List Node}

theorem nil (called : Calls σ function args need heap result) :
    Passes σ scope function args [] need heap result := by
  simpa only [Passes, parts, List.append_nil] using called

theorem cons (ended : Evals σ scope node need heap value) (plain : value.stops = false)
    (rest : ∀ middle, heap.Frame none middle →
      Passes σ scope function (args ++ [value]) nodes need middle result) :
    Passes σ scope function args (node :: nodes) need heap result := by
  obtain ⟨middle, kept, gives⟩ := ended
  obtain ⟨later, frame, delivered⟩ := rest middle kept
  refine ⟨later, kept.trans frame, gives.andThen plain ?_⟩
  simpa only [List.append_assoc, List.singleton_append] using delivered

/-- An argument that can be found without a call leaves everything as it is. -/
theorem cons_same (given : Gives σ scope node need heap value heap) (plain : value.stops = false)
    (rest : Passes σ scope function (args ++ [value]) nodes need heap result) :
    Passes σ scope function args (node :: nodes) need heap result := by
  obtain ⟨later, frame, delivered⟩ := rest
  refine ⟨later, frame, given.andThen plain ?_⟩
  simpa only [List.append_assoc, List.singleton_append] using delivered

end Passes

namespace Calls

variable {σ : Type} {need : Nat} {heap : Heap} {value : Value} {args : List Value}

theorem builtin {function : Builtin} (applied : function.apply args = .ok value) :
    Calls σ (.builtin function) args need heap value := by
  refine Delivers.computes ((Delivers.notice _).bind ?_)
  rw [applied]
  exact .settle_ok value heap

theorem fn (ended : Evals σ heap.next body need (heap.entered captured (params.zip args)) value)
    (plain : value.unwrap = value) :
    Calls σ (.fn params body captured) args need heap value := by
  obtain ⟨later, frame, gives⟩ := ended
  refine ⟨later, .of_entered frame.of_none, ?_⟩
  have delivered := Delivers.apply_fn gives
  rwa [plain] at delivered

end Calls

end Capuchin
