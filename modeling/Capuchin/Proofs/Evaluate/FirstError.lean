import Capuchin.Proofs.Evaluate.Contract
import Capuchin.Proofs.Limit.Evaluating

namespace Capuchin

/-- The heap as an event leaves it. -/
def Heap.heed (heap : Heap) : Event → Heap
  | .create _ outer => heap.create (some outer)
  | .write scope name value => heap.write scope name value
  | .enter _ _ | .leave _ | .call _ _ => heap

/-- The heap as events leave it, one after the other. -/
def Heap.replay (heap : Heap) (events : List Event) : Heap :=
  events.foldl heed heap

theorem Heap.replay_concat (heap : Heap) (events : List Event) (event : Event) :
    heap.replay (events ++ [event]) = (heap.replay events).heed event := by
  simp [replay]

theorem Heap.replay_leaves (heap : Heap) (events : List Event)
    (each : ∀ event ∈ events, ∃ value, event = .leave value) : heap.replay events = heap := by
  induction events with
  | nil => rfl
  | cons event events ih =>
    obtain ⟨value, rfl⟩ := each event (by simp)
    exact ih fun other member => each other (by simp [member])

def Event.fails : Event → Bool
  | .leave (.error _ _) => true
  | _ => false

/-- The events of an evaluation from the start, whatever it ends with. -/
def Node.events (limit : Nat) (node : Node) (scope : ScopeId) (heap : Heap) : List Event :=
  ((node.eval Monitor.recorder limit scope).ending ⟨heap, []⟩).2.notes

open Run Evaluate

/-- No evaluation has failed, and the heap is what the events have made of it. -/
structure Calm (start : Heap) (world : World (List Event)) : Prop where
  replayed : world.heap = start.replay world.notes
  quiet : ∀ event ∈ world.notes, event.fails = false

/-- After calm events there were only evaluations that ended with one error. -/
def Failed (start : Heap) (kind : ErrorKind) (message : String) (world : World (List Event)) :
    Prop :=
  ∃ calm leaves, world.notes = calm ++ leaves ∧ Calm start ⟨world.heap, calm⟩ ∧
    ∀ event ∈ leaves, event = .leave (.error kind message)

theorem Calm.failed (calm : Calm start world) : Failed start kind message world :=
  ⟨world.notes, [], by simp, calm, by simp⟩

theorem Calm.add (calm : Calm start ⟨heap, events⟩) (event : Event) (quiet : event.fails = false) :
    Calm start ⟨heap.heed event, events ++ [event]⟩ := by
  constructor
  · rw [Heap.replay_concat, ← calm.replayed]
  · intro other member
    rcases List.mem_append.mp member with old | new
    · exact calm.quiet other old
    · rw [List.mem_singleton.mp new]
      exact quiet

theorem Failed.add (failed : Failed start kind message ⟨heap, events⟩) :
    Failed start kind message ⟨heap, events ++ [.leave (.error kind message)]⟩ := by
  obtain ⟨calm, leaves, split, untilThen, same⟩ := failed
  refine ⟨calm, leaves ++ [.leave (.error kind message)], ?_, untilThen, ?_⟩
  · rw [← List.append_assoc, ← split]
  · intro event member
    rcases List.mem_append.mp member with old | new
    · exact same event old
    · exact List.mem_singleton.mp new

theorem Failed.replayed (failed : Failed start kind message world) :
    world.heap = start.replay world.notes := by
  obtain ⟨calm, leaves, split, untilThen, same⟩ := failed
  have still := (start.replay calm).replay_leaves leaves fun event member =>
    ⟨.error kind message, same event member⟩
  rw [split, Heap.replay, List.foldl_append]
  exact untilThen.replayed.trans still.symm

/-- A failure has only the same failures after it, and nothing was written since. -/
theorem Failed.since (failed : Failed start kind message ⟨heap, earlier ++ event :: later⟩)
    (fails : event.fails = true) :
    event = .leave (.error kind message) ∧ heap = start.replay earlier ∧
      ∀ other ∈ later, other = .leave (.error kind message) := by
  obtain ⟨calm, leaves, split, untilThen, same⟩ := failed
  have outside : event ∉ calm := fun member => by simp [untilThen.quiet event member] at fails
  obtain ⟨between, rfl, rfl⟩ : ∃ between, earlier = calm ++ between ∧
      leaves = between ++ event :: later := by
    rcases List.append_eq_append_iff.mp split with ⟨between, rfl, rest⟩ | found
    · cases between with
      | nil => exact ⟨[], by simp, by simpa using rest.symm⟩
      | cons first between =>
        cases rest
        simp at outside
    · exact found
  refine ⟨same event (by simp), ?_, fun other member => same other (by simp [member])⟩
  have still := (start.replay calm).replay_leaves between fun other member =>
    ⟨.error kind message, same other (by simp [member])⟩
  rw [Heap.replay, List.foldl_append]
  exact untilThen.replayed.trans still.symm

/-- Runs are calm until an error is their value. -/
def Contract.firstError (start : Heap) : Contract (List Event) where
  before world := Calm start world
  after
    | .error kind message, world => Failed start kind message world
    | _, world => Calm start world
  stopped _ world := Calm start world
  ends value world calm := by
    cases value with
    | error kind message => exact calm.failed
    | _ => exact calm
  goesOn value world noError reached := by
    cases value with
    | error kind message => exact absurd rfl (noError kind message)
    | _ => exact reached
  stops _ _ calm := calm

section Calmness

variable {limit : Nat} {start : Heap}

theorem notice_calm (event : Event) (quiet : event.fails = false)
    (still : ∀ heap : Heap, heap.heed event = heap) :
    (Contract.firstError start).Keeps (notice (Monitor.recorder limit) event) := by
  intro world calm
  have added := calm.add event quiet
  rw [still] at added
  exact added

theorem create_calm (outer : ScopeId) :
    (Contract.firstError start).Keeps (create (Monitor.recorder limit) outer) :=
  fun world calm => calm.add (.create world.heap.next outer) rfl

theorem write_calm (scope : ScopeId) (name : String) (value : Value) :
    (Contract.firstError start).Keeps (write (Monitor.recorder limit) scope name value) :=
  fun _ calm => calm.add (.write scope name value) rfl

theorem leave_firstError (value : Value) :
    Meets ((Contract.firstError start).after value) (notice (Monitor.recorder limit) (.leave value))
      (fun _ => (Contract.firstError start).after value) (Contract.firstError start).stopped := by
  cases value with
  | error kind message => exact fun world failed => failed.add
  | _ => exact notice_calm _ rfl fun _ => rfl

theorem apply_firstError {self : Node → ScopeId → Run (List Event) Value}
    (evaluates : ∀ body scope, (Contract.firstError start).Holds (self body scope))
    (callee : Value) (args : List Value) :
    (Contract.firstError start).Holds (apply .recorder limit self callee args) := by
  unfold apply
  split
  · refine (notice_calm _ rfl fun _ => rfl).bind fun _ => ?_
    refine (create_calm _).bind fun scope => ?_
    refine (Contract.Keeps.bindAll _ (write_calm scope)).bind fun _ => ?_
    exact (evaluates _ scope).unwrap
  · exact (notice_calm _ rfl fun _ => rfl).bind fun _ => .settle _
  · exact .complain _

theorem eval_firstError (node : Node) (scope : ScopeId) :
    (Contract.firstError start).Holds (node.eval .recorder limit scope) := by
  induction limit generalizing node scope with
  | zero => exact Meets.throw fun _ calm => calm
  | succ limit ih =>
    refine .eval node (notice_calm _ rfl fun _ => rfl) ?_ leave_firstError
    refine .node node ?_ ?_ ?_
    · intro part _
      exact ih part scope
    · intro _ name value
      exact write_calm scope name value
    · exact apply_firstError ih

end Calmness

/-- If an evaluation ended with an error in the course of another, then that one ended with the
same error, and in between there were only evaluations that ended with it: none was started, and
no scope was made or written. Unobserved evaluation ends the same way. -/
theorem eval_first_error (limit : Nat) (node : Node) (scope : ScopeId) (heap : Heap)
    (earlier later : List Event) (kind : ErrorKind) (message : String)
    (failed : node.events limit scope heap = earlier ++ .leave (.error kind message) :: later) :
    (node.eval Monitor.recorder limit scope).ending ⟨heap, []⟩ =
      (.ok (.error kind message),
        ⟨heap.replay earlier, earlier ++ .leave (.error kind message) :: later⟩) ∧
    (∀ event ∈ later, event = .leave (.error kind message)) ∧
    (node.eval Monitor.silent limit scope).ending ⟨heap, ()⟩ =
      (.ok (.error kind message), ⟨heap.replay earlier, ()⟩) := by
  have calm : Calm heap ⟨heap, []⟩ := ⟨rfl, by simp⟩
  have holds : (Contract.firstError heap).Holds (node.eval .recorder limit scope) :=
    eval_firstError node scope
  have held := holds ⟨heap, []⟩ calm
  have unobserved := eval_cuts (Nat.le_refl limit) recorder_passive silent_passive node scope
    heap [] ()
  unfold Node.events at failed
  unfold ending at failed ⊢
  -- Where no failure has happened, the failure of the hypothesis would be quiet.
  have loud (world : World (List Event)) (calm : Calm heap world)
      (notes : world.notes = earlier ++ .leave (.error kind message) :: later) : False := by
    have quiet := calm.quiet (.leave (.error kind message)) (by simp [notes])
    cases quiet
  generalize node.eval .recorder limit scope ⟨heap, []⟩ = observed at *
  generalize node.eval .silent limit scope ⟨heap, ()⟩ = plain at *
  cases observed with
  | error fault world => exact absurd failed (loud world held)
  | ok value world =>
    obtain ⟨left, events⟩ := world
    cases value with
    | error otherKind otherMessage =>
      cases failed
      obtain ⟨same, replayed, rest⟩ := Failed.since held rfl
      cases same
      cases replayed
      cases unobserved
      exact ⟨rfl, rest, rfl⟩
    | _ => exact absurd failed (loud _ held)

/-- A failing statement: the evaluations around it end with its error, and the `let` after it is
not reached. -/
theorem eval_first_error_statement :
    Node.events 9 (.program [.exprStmt (.unary .minus (.bool true)), .letStmt "c" .absent]) 0
        ⟨#[⟨[], none⟩]⟩ =
      [.enter (.program [.exprStmt (.unary .minus (.bool true)), .letStmt "c" .absent]) 0,
        .enter (.exprStmt (.unary .minus (.bool true))) 0, .enter (.unary .minus (.bool true)) 0,
        .enter (.bool true) 0, .leave (.bool true)] ++
      .leave (.error .unknownOperator "Unknown operator: -true") ::
      [.leave (.error .unknownOperator "Unknown operator: -true"),
        .leave (.error .unknownOperator "Unknown operator: -true")] ∧
    (Node.eval Monitor.silent 9
        (.program [.exprStmt (.unary .minus (.bool true)), .letStmt "c" .absent]) 0).ending
        ⟨⟨#[⟨[], none⟩]⟩, ()⟩ =
      (.ok (.error .unknownOperator "Unknown operator: -true"), ⟨⟨#[⟨[], none⟩]⟩, ()⟩) := by
  refine ⟨?recorded, (eval_first_error 9 _ 0 _ _ _ _ _ ?recorded).2.2⟩
  rfl

end Capuchin
