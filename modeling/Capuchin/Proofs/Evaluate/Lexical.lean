import Capuchin.Proofs.Evaluate.Renumbering
import Mathlib

namespace Capuchin

/-- The same outer scope and the same bindings. In which order names were bound does not count. -/
structure Scope.Same (scope other : Scope) : Prop where
  outer_eq : other.outer = scope.outer
  get?_eq : ∀ name, Table.get? name other.bindings = Table.get? name scope.bindings

/-- All functions in the value, at any depth, were written in scopes of the set. -/
def Value.CapturesIn (region : Set ScopeId) (value : Value) : Prop :=
  value.Throughout fun part => ∀ params body scope, part = .fn params body scope → scope ∈ region

namespace Heap

/-- Neither heap has the scope, or both have the same. -/
def Agree (one two : Heap) (id : ScopeId) : Prop :=
  Option.Rel Scope.Same one.scopes[id]? two.scopes[id]?

/-- The set has all outer scopes of its scopes, and all scopes captured by what they bind. -/
structure ClosedOn (heap : Heap) (region : Set ScopeId) : Prop where
  outer : ∀ id ∈ region, ∀ (scope : Scope) (outer : ScopeId), heap.scopes[id]? = some scope →
    scope.outer = some outer → outer ∈ region
  captured : ∀ id ∈ region, ∀ name value, heap.Binds id name value → value.CapturesIn region

section Agreement

variable {one two three : Heap} {id : ScopeId}

theorem Agree.refl (heap : Heap) (id : ScopeId) : heap.Agree heap id := by
  unfold Agree
  cases heap.scopes[id]? with
  | none => exact .none
  | some scope => exact .some ⟨rfl, fun _ => rfl⟩

theorem Agree.symm (agree : one.Agree two id) : two.Agree one id := by
  unfold Agree at agree ⊢
  generalize one.scopes[id]? = left at agree
  generalize two.scopes[id]? = right at agree
  cases agree with
  | none => exact .none
  | some same => exact .some ⟨same.outer_eq.symm, fun name => (same.get?_eq name).symm⟩

theorem Agree.trans (first : one.Agree two id) (second : two.Agree three id) :
    one.Agree three id := by
  unfold Agree at first second ⊢
  generalize one.scopes[id]? = left at first
  generalize two.scopes[id]? = middle at first second
  generalize three.scopes[id]? = right at second
  cases first with
  | none => exact second
  | some same =>
    cases second with
    | some also =>
      exact .some ⟨also.outer_eq.trans same.outer_eq, fun name =>
        (also.get?_eq name).trans (same.get?_eq name)⟩

theorem Agree.create (agree : one.Agree two id) (size : two.next = one.next)
    (outer : Option ScopeId) : (one.create outer).Agree (two.create outer) id := by
  unfold Agree at agree ⊢
  rw [scope_create, scope_create, size]
  split
  · exact .some ⟨rfl, fun _ => rfl⟩
  · exact agree

theorem Agree.write (agree : one.Agree two id) (target : ScopeId) (name : String) (value : Value) :
    (one.write target name value).Agree (two.write target name value) id := by
  unfold Agree at agree ⊢
  rw [scope_write, scope_write]
  generalize one.scopes[id]? = left at agree
  generalize two.scopes[id]? = right at agree
  split
  · cases agree with
    | none => exact .none
    | some same =>
      refine .some ⟨same.outer_eq, fun asked => ?_⟩
      simp only [Table.get?_insert, same.get?_eq]
  · exact agree

end Agreement

section Emptying

open Classical in
/-- The heap with all scopes outside the set made empty. -/
noncomputable def only (heap : Heap) (region : Set ScopeId) : Heap :=
  { scopes := heap.scopes.mapIdx fun id scope => if id ∈ region then scope else {} }

variable {heap : Heap} {region : Set ScopeId} {id : ScopeId}

theorem next_only (heap : Heap) (region : Set ScopeId) : (heap.only region).next = heap.next := by
  simp [only, next]

theorem scope_only (inside : id ∈ region) :
    (heap.only region).scopes[id]? = heap.scopes[id]? := by
  simp [only, inside]

theorem agree_only (inside : id ∈ region) : (heap.only region).Agree heap id := by
  unfold Agree
  rw [scope_only inside]
  exact Agree.refl heap id

/-- A scope that was made empty binds nothing. -/
theorem Binds.of_only (bound : (heap.only region).Binds id name value) :
    id ∈ region ∧ heap.Binds id name value := by
  by_cases inside : id ∈ region
  · unfold Binds at bound
    rw [scope_only inside] at bound
    exact ⟨inside, bound⟩
  · obtain ⟨scope, found, got⟩ := bound
    simp only [only, Array.getElem?_mapIdx, inside, if_false, Option.map_eq_some_iff] at found
    obtain ⟨_, _, rfl⟩ := found
    cases got

end Emptying

end Heap

/-- Some scopes, with all that are made from `start` on. -/
structure Region where
  scopes : Set ScopeId
  start : Nat
  fresh : ∀ id, start ≤ id → id ∈ scopes

/-- Only scopes of the region are referred to. -/
def Law.lexical (region : Region) : Law where
  admits heap scope _ := region.start ≤ heap.next ∧ scope ∈ region.scopes
  holds heap value := ∀ params body scope, value = .fn params body scope →
    region.start ≤ heap.next ∧ scope ∈ region.scopes
  links heap := ∀ id ∈ region.scopes, ∀ (scope : Scope) (outer : ScopeId),
    heap.scopes[id]? = some scope → scope.outer = some outer → outer ∈ region.scopes
  admits_grows inside grown := ⟨inside.1.trans grown.next_le, inside.2⟩
  holds_grows held grown params body scope same :=
    ⟨(held params body scope same).1.trans grown.next_le, (held params body scope same).2⟩
  admits_part inside _ := inside
  admits_body held := by
    have started := (held _ _ _ rfl).1
    rw [Heap.next_create]
    exact ⟨Nat.le_succ_of_le started, region.fresh _ started⟩
  holds_fn inside := by
    rintro _ _ _ ⟨⟩
    exact inside
  holds_str _ := nofun
  holds_concat _ _ := nofun
  holds_empty := nofun
  holds_insert _ _ := nofun
  holds_other shape := by
    rintro _ _ _ rfl
    simp [Value.shape] at shape
  links_create links held id inside scope outer found same := by
    rw [Heap.scope_create] at found
    split at found
    · cases found
      cases same
      exact (held _ _ _ rfl).2
    · exact links id inside scope outer found same
  links_write links id inside scope outer found same := by
    rw [Heap.scope_write] at found
    split at found
    · obtain ⟨old, before, rfl⟩ := Option.map_eq_some_iff.mp found
      exact links id inside old outer before same
    · exact links id inside scope outer found same

namespace Region

variable {region : Region} {heap image : Heap}

/-- The image has as many scopes as the heap and agrees with it on the region. -/
structure Shows (region : Region) (heap image : Heap) : Prop where
  next_eq : image.next = heap.next
  agree : ∀ id ∈ region.scopes, heap.Agree image id

/-- A search that starts in the region stays there. -/
theorem Shows.find? (shown : region.Shows heap image) (kept : (Law.lexical region).Kept heap)
    {scope : ScopeId} (inside : scope ∈ region.scopes) (name : String) :
    image.find? scope name = heap.find? scope name := by
  induction scope using Nat.strongRecOn with
  | ind scope ih =>
    rw [Heap.find?, Heap.find?.eq_def heap]
    have agree := shown.agree scope inside
    unfold Heap.Agree at agree
    generalize image.scopes[scope]? = other at agree
    cases found : heap.scopes[scope]? with
    | none =>
      rw [found] at agree
      cases agree
      rfl
    | some record =>
      rw [found] at agree
      cases agree with
      | some same =>
        simp only [same.get?_eq, same.outer_eq]
        cases Table.get? name record.bindings with
        | some value => rfl
        | none =>
          cases linked : record.outer with
          | none => rfl
          | some outer =>
            simp only
            split
            · exact ih outer ‹_› (kept.links scope inside record outer found linked)
            · rfl

def mirror (region : Region) : Mirror (Law.lexical region) where
  number := id
  shows := region.Shows
  next shown := shown.next_eq
  finds kept shown admitted := by
    simpa using shown.find? kept admitted.2 _
  creates shown _ :=
    ⟨by rw [Heap.next_create, Heap.next_create, shown.next_eq],
      fun id inside => (shown.agree id inside).create shown.next_eq _⟩
  writes shown _ :=
    ⟨by rw [Heap.next_write, Heap.next_write, shown.next_eq], fun id inside => by
      rw [Value.rename_id]
      exact (shown.agree id inside).write _ _ _⟩

end Region

open Run

/-- Started from either heap, the run ends with the same result and the same notes, and leaves
heaps that have as many scopes and agree on the set and on all scopes made since. -/
def Run.EndsAlike (run : Run σ Value) (region : Set ScopeId) (one two : Heap) (notes : σ) : Prop :=
  ∃ result laterOne laterTwo marks,
    run.ending ⟨one, notes⟩ = (result, ⟨laterOne, marks⟩) ∧
    run.ending ⟨two, notes⟩ = (result, ⟨laterTwo, marks⟩) ∧
    laterTwo.next = laterOne.next ∧
    ∀ id, id ∈ region ∨ one.next ≤ id → laterOne.Agree laterTwo id

namespace Region

def onward (scopes : Set ScopeId) (heap : Heap) : Region where
  scopes := {id | id ∈ scopes ∨ heap.next ≤ id}
  start := heap.next
  fresh _ later := .inr later

variable {scopes : Set ScopeId} {one two : Heap}

theorem kept_only (closed : one.ClosedOn scopes) :
    (Law.lexical (.onward scopes one)).Kept (one.only scopes) := by
  refine ⟨?_, ?_⟩
  · rintro id (inside | later) scope outer found same
    · rw [Heap.scope_only inside] at found
      exact .inl (closed.outer id inside scope outer found same)
    · have made := (one.only scopes).lt_next found
      rw [Heap.next_only] at made
      exact absurd later (Nat.not_le.mpr made)
  · intro id name value bound
    obtain ⟨inside, before⟩ := bound.of_only
    refine (closed.captured id inside name value before).mono fun part held => ?_
    intro params body scope same
    rw [Heap.next_only]
    exact ⟨Nat.le_refl _, .inl (held params body scope same)⟩

theorem shows_only (size : two.next = one.next) (agree : ∀ id ∈ scopes, one.Agree two id) :
    (Region.onward scopes one).Shows (one.only scopes) two := by
  refine ⟨by rw [Heap.next_only, size], ?_⟩
  rintro id (inside | later)
  · exact (Heap.agree_only inside).trans (agree id inside)
  · have missing : (one.only scopes).scopes[id]? = none ∧ two.scopes[id]? = none := by
      refine ⟨Heap.scope_next_le _ ?_, Heap.scope_next_le _ ?_⟩
      · rwa [Heap.next_only]
      · rwa [size]
    unfold Heap.Agree
    rw [missing.1, missing.2]
    exact .none

/-- Evaluation beside itself, in heaps that agree on the region. -/
def comparison (region : Region) (watch : Monitor σ) : Comparison (Law.lexical region) watch :=
  { region.mirror, Audit.none _ watch with blind := watch.blind_id }

theorem comparison_number (region : Region) (watch : Monitor σ) :
    (region.comparison watch).number = id :=
  rfl

/-- A run that agrees with itself on the region ends alike in both heaps, because it does in each
of them as in the heap with all else made empty. -/
theorem endsAlike (watch : Monitor σ) {run : Run σ Value} (closed : one.ClosedOn scopes)
    (size : two.next = one.next) (agree : ∀ id ∈ scopes, one.Agree two id)
    (agreed : ((Region.onward scopes one).comparison watch).Agrees (one.only scopes) run run)
    (notes : σ) : run.EndsAlike scopes one two notes := by
  have kept := kept_only closed
  have startOne : ((onward scopes one).comparison watch).Sound (one.only scopes) one notes :=
    ⟨kept, shows_only rfl fun id _ => .refl one id, trivial⟩
  have startTwo : ((onward scopes one).comparison watch).Sound (one.only scopes) two notes :=
    ⟨kept, shows_only size agree, trivial⟩
  obtain ⟨result, _, laterOne, laterTwo, marks, first, second, soundOne, soundTwo⟩ :=
    agreed.images rfl startOne startTwo
  refine ⟨result, laterOne, laterTwo, marks, first, second, ?_, ?_⟩
  · exact soundTwo.shown.next_eq.trans soundOne.shown.next_eq.symm
  · intro id inside
    exact (soundOne.shown.agree id inside).symm.trans (soundTwo.shown.agree id inside)

end Region

/-- In two heaps that agree on a closed set of scopes, an evaluation in a scope of the set ends
alike, and so does a call of a function written in the set with arguments that are. What the caller
has bound is nothing to such a call. -/
theorem evaluation_is_lexical (watch : Monitor σ) (limit : Nat) (notes : σ) {region : Set ScopeId}
    {one two : Heap} (closed : one.ClosedOn region) (size : two.next = one.next)
    (agree : ∀ id ∈ region, one.Agree two id) :
    (∀ (node : Node), ∀ scope ∈ region,
      (node.eval watch limit scope).EndsAlike region one two notes) ∧
    ∀ callee args, callee.CapturesIn region → (∀ arg ∈ args, arg.CapturesIn region) →
      (Evaluate.apply watch limit (Node.eval watch limit) callee args).EndsAlike region one two
        notes := by
  have started : one.next ≤ (one.only region).next := by rw [Heap.next_only]
  refine ⟨fun node scope inside => ?_, fun callee args called given => ?_⟩
  · refine Region.endsAlike watch closed size agree ?_ notes
    exact Comparison.agrees_eval node ⟨started, .inl inside⟩
  · have allowed {value : Value} (captures : value.CapturesIn region) :
        (Law.lexical (.onward region one)).Allows (one.only region) value :=
      captures.mono fun part held params body scope same =>
        ⟨started, .inl (held params body scope same)⟩
    refine Region.endsAlike watch closed size agree ?_ notes
    have agreed : ((Region.onward region one).comparison watch).Agrees (one.only region)
        (Evaluate.apply watch limit (Node.eval watch limit) callee args) _ :=
      Comparison.agrees_apply (fun _ node _ admitted => Comparison.agrees_eval node admitted)
        callee args (allowed called) fun arg member => allowed (given arg member)
    simpa [Region.comparison_number] using agreed

/-- A function written in the global scope, called where a local `x` is 10 and where it is 20: it
sees the global one. -/
theorem evaluation_is_lexical_call :
    Heap.ClosedOn ⟨#[⟨[("x", .int 1)], none⟩, ⟨[("x", .int 10)], some 0⟩]⟩ {id | id = 0} ∧
    (∀ id ∈ {id | id = 0}, Heap.Agree ⟨#[⟨[("x", .int 1)], none⟩, ⟨[("x", .int 10)], some 0⟩]⟩
      ⟨#[⟨[("x", .int 1)], none⟩, ⟨[("x", .int 20)], some 0⟩]⟩ id) ∧
    (Value.fn [] (.block [.exprStmt (.ident "x")]) 0).CapturesIn {id | id = 0} ∧
    ((Evaluate.apply Monitor.silent 9 (Node.eval .silent 9)
      (.fn [] (.block [.exprStmt (.ident "x")]) 0) []).ending
        ⟨⟨#[⟨[("x", .int 1)], none⟩, ⟨[("x", .int 20)], some 0⟩]⟩, ()⟩).1 = .ok (.int 1) := by
  have closed : Heap.ClosedOn ⟨#[⟨[("x", .int 1)], none⟩, ⟨[("x", .int 10)], some 0⟩]⟩
      {id | id = 0} := by
    constructor
    · rintro _ rfl scope outer found linked
      cases found
      cases linked
    · rintro _ rfl name value ⟨scope, found, bound⟩
      cases found
      obtain ⟨_, rfl⟩ := Prod.mk.inj (List.mem_singleton.mp (Table.mem_of_get? bound))
      exact .leaf nofun rfl
  have agree : ∀ id ∈ {id | id = 0},
      Heap.Agree ⟨#[⟨[("x", .int 1)], none⟩, ⟨[("x", .int 10)], some 0⟩]⟩
        ⟨#[⟨[("x", .int 1)], none⟩, ⟨[("x", .int 20)], some 0⟩]⟩ id := by
    rintro _ rfl
    exact .some ⟨rfl, fun _ => rfl⟩
  have captured : (Value.fn [] (.block [.exprStmt (.ident "x")]) 0).CapturesIn {id | id = 0} := by
    refine .leaf ?_ rfl
    rintro _ _ _ ⟨⟩
    rfl
  have size : Heap.next ⟨#[⟨[("x", .int 1)], none⟩, ⟨[("x", .int 20)], some 0⟩]⟩ =
      Heap.next ⟨#[⟨[("x", .int 1)], none⟩, ⟨[("x", .int 10)], some 0⟩]⟩ := rfl
  have known : ((Evaluate.apply Monitor.silent 9 (Node.eval .silent 9)
      (.fn [] (.block [.exprStmt (.ident "x")]) 0) []).ending
        ⟨⟨#[⟨[("x", .int 1)], none⟩, ⟨[("x", .int 10)], some 0⟩]⟩, ()⟩).1 = .ok (.int 1) := by
    cbv
  obtain ⟨result, _, _, _, first, second, _⟩ :=
    (evaluation_is_lexical Monitor.silent 9 () closed size agree).2 _ [] captured (by simp)
  rw [first] at known
  refine ⟨closed, agree, captured, ?_⟩
  rw [second]
  exact known

end Capuchin
