import Capuchin.Proofs.Evaluate.Pace
import Capuchin.Proofs.Table
import Capuchin.Proofs.Value.Throughout

namespace Capuchin

/-- Takes a note of every event and never stops a run. -/
def Monitor.noting (note : Event → σ → σ) : Monitor σ :=
  fun _ event notes => .ok (note event notes)

/-- How an evaluation ends whose value is noted last. -/
def Monitor.leaving (note : Event → σ → σ) :
    Except Fault Value × World σ → Except Fault Value × World σ
  | (.ok value, world) => (.ok value, ⟨world.heap, note (.leave value) world.notes⟩)
  | (.error fault, world) => (.error fault, world)

open Run Monitor

theorem Node.eval_noting (note : Event → σ → σ) (limit : Nat) (node : Node) (scope : ScopeId)
    (heap : Heap) (notes : σ) :
    (node.eval (.noting note) (limit + 1) scope).ending ⟨heap, notes⟩ =
      leaving note ((Evaluate.node (.noting note) limit (Node.eval (.noting note) limit) scope
        node).ending ⟨heap, note (.enter node scope) notes⟩) := by
  rw [Node.eval, ending_bind]
  change (Evaluate.node _ _ _ scope node >>= _).ending _ = _
  rw [ending_bind]
  generalize (Evaluate.node _ _ _ scope node).ending _ = ended
  obtain ⟨result, world⟩ := ended
  cases result <;> rfl

/-- Results that end the evaluations around them. -/
def Failing : Except Fault Value → Prop
  | .ok value => value.shape = .error
  | .error _ => True

section Sequence

variable {σ : Type} {first : Run σ Value} {next : Value → Run σ Value} {world left : World σ}

theorem ending_failing_or_ok (run : Run σ Value) (world : World σ) :
    (∃ result left, run.ending world = (result, left) ∧ Failing result) ∨
      ∃ value left, run.ending world = (.ok value, left) ∧ value.shape ≠ .error := by
  generalize run.ending world = ended
  obtain ⟨result, left⟩ := ended
  cases result with
  | error fault => exact .inl ⟨_, left, rfl, trivial⟩
  | ok value =>
    by_cases fails : value.shape = .error
    · exact .inl ⟨_, left, rfl, fails⟩
    · exact .inr ⟨value, left, rfl, fails⟩

theorem ending_andThen (ended : first.ending world = (.ok value, left))
    (noError : value.shape ≠ .error) :
    (andThen first next).ending world = (next value).ending left := by
  rw [andThen, ending_bind, ended]
  cases value with
  | error kind message => exact absurd rfl noError
  | _ => rfl

theorem ending_andThen_failing (ended : first.ending world = (result, left))
    (failing : Failing result) : (andThen first next).ending world = (result, left) := by
  rw [andThen, ending_bind, ended]
  match result, failing with
  | .error _, _ => rfl
  | .ok (.error _ _), _ => rfl

theorem ending_settle (limit : Nat) (result : Except Complaint Value) (world : World σ) :
    (settle limit result).ending world = (Complaint.settle limit result, world) := by
  unfold settle
  cases Complaint.settle limit result <;> rfl

end Sequence

theorem Key.shape_toValue (key : Key) : key.toValue.shape ≠ .error := by
  cases key <;> simp [Key.toValue, Value.shape]

section Pairs

variable {σ : Type} (limit : Nat) (part : Node → Run σ Value)

/-- Evaluated one after the other, each key before its value, these pairs have these keys and
values. -/
inductive PairsGive : World σ → List (Node × Node) → List (Key × Value) → World σ → Prop where
  | nil : PairsGive world [] [] world
  | cons (key : Key) (keyed : (part keyNode).ending world = (.ok key.toValue, between))
      (valued : (part valueNode).ending between = (.ok value, left))
      (noError : value.shape ≠ .error) (rest : PairsGive left nodes pairs last) :
      PairsGive world ((keyNode, valueNode) :: nodes) ((key, value) :: pairs) last

/-- Evaluation of a pair ends early: its key fails, or cannot be a key, or its value fails. -/
inductive PairFails : World σ → Node × Node → Except Fault Value → World σ → Prop where
  | key (ended : (part keyNode).ending world = (result, left)) (failing : Failing result) :
      PairFails world (keyNode, valueNode) result left
  | invalid (ended : (part keyNode).ending world = (.ok value, left))
      (noError : value.shape ≠ .error) (noKey : value.key? = none) :
      PairFails world (keyNode, valueNode) ((Complaint.invalidKey value).toValue limit) left
  | value (key : Key) (keyed : (part keyNode).ending world = (.ok key.toValue, between))
      (ended : (part valueNode).ending between = (result, left)) (failing : Failing result) :
      PairFails world (keyNode, valueNode) result left

/-- The first failure among pairs that are evaluated one after the other. -/
def FirstFailure (world : World σ) (nodes : List (Node × Node)) (result : Except Fault Value)
    (last : World σ) : Prop :=
  ∃ before pair after pairs between, nodes = before ++ pair :: after ∧
    PairsGive part world before pairs between ∧ PairFails limit part between pair result last

theorem pairGives_or_fails (world : World σ) (pair : Node × Node) :
    (∃ key value left, PairsGive part world [pair] [(key, value)] left) ∨
      ∃ result left, PairFails limit part world pair result left := by
  rcases ending_failing_or_ok (part pair.1) world with
    ⟨result, left, ended, failing⟩ | ⟨value, between, keyed, noError⟩
  · exact .inr ⟨result, left, .key ended failing⟩
  cases hashable : value.key? with
  | none => exact .inr ⟨_, between, .invalid keyed noError hashable⟩
  | some key =>
    obtain rfl := Value.toValue_of_key? hashable
    rcases ending_failing_or_ok (part pair.2) between with
      ⟨result, left, ended, failing⟩ | ⟨value, left, valued, noError⟩
    · exact .inr ⟨result, left, .value key keyed ended failing⟩
    · exact .inl ⟨key, value, left, .cons key keyed valued noError .nil⟩

variable {part} in
theorem PairsGive.append (first : PairsGive part world nodes pairs left)
    (second : PairsGive part left others entries last) :
    PairsGive part world (nodes ++ others) (pairs ++ entries) last := by
  induction first with
  | nil => exact second
  | cons key keyed valued noError _ ih => exact .cons key keyed valued noError (ih second)

theorem pairsGive_or_firstFailure (world : World σ) (nodes : List (Node × Node)) :
    (∃ pairs last, PairsGive part world nodes pairs last) ∨
      ∃ result last, FirstFailure limit part world nodes result last := by
  induction nodes generalizing world with
  | nil => exact .inl ⟨[], world, .nil⟩
  | cons pair nodes ih =>
    rcases pairGives_or_fails limit part world pair with
      ⟨key, value, left, gives⟩ | ⟨result, left, fails⟩
    · rcases ih left with ⟨pairs, last, rest⟩ | ⟨result, last, before, failing, after, pairs, between,
        rfl, rest, fails⟩
      · exact .inl ⟨_, last, gives.append rest⟩
      · exact .inr ⟨result, last, pair :: before, failing, after, _, between, rfl,
          gives.append rest, fails⟩
    · exact .inr ⟨result, left, [], pair, nodes, [], world, rfl, .nil, fails⟩

variable {limit} {self : Node → ScopeId → Run σ Value} {scope : ScopeId}

variable (limit) in
/-- Pairs that give their keys and values have been written when the rest is evaluated. -/
theorem pairs_gives (gives : PairsGive (self · scope) world nodes pairs left)
    (earlier : List (Key × Value)) (rest : List (Node × Node)) :
    (Evaluate.pairs limit self scope (nodes ++ rest) (Table.ofPairs earlier)).ending world =
      (Evaluate.pairs limit self scope rest (Table.ofPairs (earlier ++ pairs))).ending left := by
  induction gives generalizing earlier with
  | nil => simp
  | @cons _ _ _ _ value _ _ pairs _ key keyed valued noError _ ih =>
    rw [List.cons_append, Evaluate.pairs, ending_andThen keyed key.shape_toValue]
    simp only [Value.key?_toValue]
    rw [ending_andThen valued noError, ← Table.ofPairs_concat, ih, List.append_assoc,
      List.singleton_append]

theorem pairs_fails (fails : PairFails limit (self · scope) world pair result left)
    (table : Table Key Value) (rest : List (Node × Node)) :
    (Evaluate.pairs limit self scope (pair :: rest) table).ending world = (result, left) := by
  rw [Evaluate.pairs]
  cases fails with
  | key ended failing => exact ending_andThen_failing ended failing
  | invalid ended noError noKey =>
    rw [ending_andThen ended noError]
    simp only [noKey]
    exact ending_settle limit _ _
  | value key keyed ended failing =>
    rw [ending_andThen keyed key.shape_toValue]
    simp only [Value.key?_toValue]
    exact ending_andThen_failing ended failing

end Pairs

/-- Wherever two expressions have the values `left` and `position`, the first indexed by the second
has the value `found`. -/
def Indexed (note : Event → σ → σ) (left position found : Value) : Prop :=
  ∀ (limit : Nat) (scope : ScopeId) (leftNode positionNode : Node) (heap : Heap) (notes : σ)
    (between last : World σ),
    (leftNode.eval (.noting note) limit scope).ending
      ⟨heap, note (.enter (.index leftNode positionNode) scope) notes⟩ = (.ok left, between) →
    (positionNode.eval (.noting note) limit scope).ending between = (.ok position, last) →
    ((Node.index leftNode positionNode).eval (.noting note) (limit + 1) scope).ending
      ⟨heap, notes⟩ = leaving note (.ok found, last)

theorem indexed_hash (note : Event → σ → σ) (table : Table Key Value) (key : Key) :
    Indexed note (.hash table) key.toValue ((Table.get? key table).getD .null) := by
  intro limit scope leftNode positionNode heap notes between last lefted positioned
  rw [Node.eval_noting, Evaluate.node, ending_andThen lefted (by simp [Value.shape]),
    ending_andThen positioned key.shape_toValue, ending_settle]
  simp only [Value.index, Value.key?_toValue, Complaint.settle]

/-- A hash literal is evaluated pair by pair. If all pairs give keys and values, then it is a hash
whose keys are the distinct keys in the order of their first pairs, each with the value of its last
pair, which is also what the hash gives when it is indexed. Otherwise the literal ends as the first
failure does: a key that cannot be one fails before its value, and what comes after a failure is not
evaluated, so that it leaves no notes. -/
theorem hash_literal_last_value_wins (note : Event → σ → σ) (limit : Nat)
    (nodes : List (Node × Node)) (scope : ScopeId) (heap : Heap) (notes : σ) :
    let part (node : Node) := node.eval (.noting note) limit scope
    let entered : World σ := ⟨heap, note (.enter (.hash nodes) scope) notes⟩
    let ended := ((Node.hash nodes).eval (.noting note) (limit + 1) scope).ending ⟨heap, notes⟩
    (∀ pairs last, PairsGive part entered nodes pairs last →
      ∃ table : Table Key Value, ended = leaving note (.ok (.hash table), last) ∧
        table.map Prod.fst = (pairs.map Prod.fst).eraseDups ∧
        (∀ key value, (key, value) ∈ table ↔ Table.lastValue? key pairs = some value) ∧
        ∀ key : Key, Indexed note (.hash table) key.toValue
          ((Table.lastValue? key pairs).getD .null)) ∧
    (∀ result last, FirstFailure limit part entered nodes result last →
      ended = leaving note (result, last)) ∧
    ((∃ pairs last, PairsGive part entered nodes pairs last) ∨
      ∃ result last, FirstFailure limit part entered nodes result last) := by
  intro part entered ended
  have literal : ended = leaving note
      ((Evaluate.pairs limit (Node.eval (.noting note) limit) scope nodes []).ending entered) :=
    Node.eval_noting note limit (.hash nodes) scope heap notes
  refine ⟨fun pairs last gives => ?given, fun result last failure => ?failed,
    pairsGive_or_firstFailure limit part entered nodes⟩
  case given =>
    refine ⟨Table.ofPairs pairs, ?_, Table.keys_ofPairs pairs, Table.mem_ofPairs pairs, ?_⟩
    · have written := pairs_gives limit gives [] []
      rw [List.append_nil] at written
      rw [literal]
      exact congrArg (leaving note) written
    · intro key
      rw [← Table.get?_ofPairs]
      exact indexed_hash note (Table.ofPairs pairs) key
  case failed =>
    obtain ⟨before, pair, after, pairs, between, rfl, gives, fails⟩ := failure
    have written := pairs_gives limit gives [] (pair :: after)
    rw [pairs_fails fails] at written
    rw [literal]
    exact congrArg (leaving note) written

/-- Three pairs with two keys, of which one is written twice; seven nodes are entered. Where the
second key is an array, its value is not entered any more. -/
theorem hash_literal_last_value_wins_repeated :
    let note : Event → Nat → Nat := fun event entered =>
      match event with
      | .enter _ _ => entered + 1
      | _ => entered
    let part (node : Node) := node.eval (.noting note) 9 0
    let heap : Heap := ⟨#[⟨[], none⟩]⟩
    (PairsGive part ⟨heap, 1⟩ [(.int 1, .str "a"), (.bool true, .int 2), (.int 1, .int 3)]
        [(.int 1, .str "a"), (.bool true, .int 2), (.int 1, .int 3)] ⟨heap, 7⟩ ∧
      ∃ table : Table Key Value,
        ((Node.hash [(.int 1, .str "a"), (.bool true, .int 2), (.int 1, .int 3)]).eval
          (.noting note) 10 0).ending ⟨heap, 0⟩ = (.ok (.hash table), ⟨heap, 7⟩) ∧
        table.map Prod.fst = [.int 1, .bool true] ∧
        Indexed note (.hash table) (.int 1) (.int 3)) ∧
    FirstFailure 9 part ⟨heap, 1⟩ [(.int 1, .str "a"), (.array [], .int 2)]
        (.ok (.error .invalidHashKey "Hash key must be string, integer, or boolean, got: []"))
        ⟨heap, 4⟩ ∧
      ((Node.hash [(.int 1, .str "a"), (.array [], .int 2)]).eval (.noting note) 10 0).ending
        ⟨heap, 0⟩ =
        (.ok (.error .invalidHashKey "Hash key must be string, integer, or boolean, got: []"),
          ⟨heap, 4⟩) := by
  intro note part heap
  have gives : PairsGive part ⟨heap, 1⟩
      [(.int 1, .str "a"), (.bool true, .int 2), (.int 1, .int 3)]
      [(.int 1, .str "a"), (.bool true, .int 2), (.int 1, .int 3)] ⟨heap, 7⟩ :=
    .cons (.int 1) rfl rfl (by simp [Value.shape]) (.cons (.bool true) rfl rfl (by simp [Value.shape])
      (.cons (.int 1) rfl rfl (by simp [Value.shape]) .nil))
  have invalid : PairFails 9 part ⟨heap, 3⟩ (.array [], .int 2)
      ((Complaint.invalidKey (.array [])).toValue 9) ⟨heap, 4⟩ :=
    .invalid rfl (by simp [Value.shape]) rfl
  have failure : FirstFailure 9 part ⟨heap, 1⟩ [(.int 1, .str "a"), (.array [], .int 2)]
      (.ok (.error .invalidHashKey "Hash key must be string, integer, or boolean, got: []"))
      ⟨heap, 4⟩ :=
    ⟨[(.int 1, .str "a")], (.array [], .int 2), [], [(.int 1, .str "a")], ⟨heap, 3⟩, rfl,
      .cons (.int 1) rfl rfl (by simp [Value.shape]) .nil, invalid⟩
  obtain ⟨table, ended, keys, -, indexed⟩ :=
    (hash_literal_last_value_wins note 9 _ 0 heap 0).1 _ _ gives
  have failed := (hash_literal_last_value_wins note 9 _ 0 heap 0).2.1 _ _ failure
  exact ⟨⟨gives, table, ended, keys, indexed (.int 1)⟩, failure, failed⟩

end Capuchin
