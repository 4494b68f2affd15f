import Capuchin.Proofs.Evaluate.Contract
import Capuchin.Proofs.Limit.Writing

/-! Two runs of one evaluation, each under a monitor and a limit of its own. They keep pace: both do
the same things until the first is stopped, by its monitor or by its lower limit, and from there on
the second goes on alone. What this says of results and notes is up to what the two monitors have to
do with each other. -/

namespace Capuchin

/-- A monitor that never stops a run and takes the same notes at all depths. -/
def Monitor.Passive (watch : Monitor σ) : Prop :=
  ∀ event notes, ∃ later, ∀ limit, watch limit event notes = .ok later

theorem recorder_passive : Monitor.recorder.Passive :=
  fun _ _ => ⟨_, fun _ => rfl⟩

theorem silent_passive : (Monitor.silent : Monitor σ).Passive :=
  fun _ _ => ⟨_, fun _ => rfl⟩

/-- What two monitors have to do with each other. Only the first of them may stop its run. -/
structure Pace (watch : Monitor σ) (other : Monitor τ) where
  /-- The faults that may stop the first run early. -/
  early : Fault → Prop
  /-- The notes of both runs where they have come equally far. -/
  level : σ → τ → Prop
  /-- The notes of the second run at one time and at a later time. -/
  ahead : τ → τ → Prop
  refl : ahead marks marks
  trans : ahead before between → ahead between after → ahead before after
  goes (limit : Nat) (event : Event) (marks : τ) :
    ∃ later, other limit event marks = .ok later ∧ ahead marks later
  told (limit more : Nat) : level notes marks → other more event marks = .ok later →
    (∃ next, watch limit event notes = .ok next ∧ level next later) ∨
      ∃ fault, watch limit event notes = .error fault ∧ early fault

open Run Evaluate

namespace Run

/-- What follows a run starts in the world that it leaves, unless it ended with a fault. -/
theorem ending_bind (first : Run σ α) (next : α → Run σ β) (world : World σ) :
    (first >>= next).ending world =
      match first.ending world with
      | (.ok value, left) => (next value).ending left
      | (.error fault, left) => (.error fault, left) := by
  simp only [ending, Bind.bind, EStateM.bind]
  cases first world <;> rfl

end Run

namespace Pace

variable {σ τ α β : Type} {watch : Monitor σ} {other : Monitor τ}

/-- Notes that are compared only where both runs have come equally far. -/
def levelled (early : Fault → Prop) (level : σ → τ → Prop) (passive : other.Passive)
    (told : ∀ limit more event notes marks later, level notes marks →
      other more event marks = .ok later →
      (∃ next, watch limit event notes = .ok next ∧ level next later) ∨
        ∃ fault, watch limit event notes = .error fault ∧ early fault) : Pace watch other where
  early := early
  level := level
  ahead _ _ := True
  refl := trivial
  trans _ _ := trivial
  goes limit event marks := (passive event marks).imp fun _ passes => ⟨passes limit, trivial⟩
  told limit more := told limit more _ _ _ _

variable (pace : Pace watch other)

/-- Both runs have ended the same way, or the first was stopped early, at a point that the second
has passed. -/
inductive Abreast : Except Fault α × World σ → Except Fault α × World τ → Prop where
  | same (level : pace.level notes marks) :
      Abreast (result, ⟨heap, notes⟩) (result, ⟨heap, marks⟩)
  | early (stops : pace.early fault) (level : pace.level notes point)
      (ahead : pace.ahead point marks) :
      Abreast (.error fault, ⟨heap, notes⟩) (result, ⟨later, marks⟩)

/-- From any heap the two runs end abreast, and the second only ever goes ahead. -/
structure Keeps (first : Run σ α) (second : Run τ α) : Prop where
  abreast : ∀ heap notes marks, pace.level notes marks →
    pace.Abreast (first.ending ⟨heap, notes⟩) (second.ending ⟨heap, marks⟩)
  goes : ∀ world, pace.ahead world.notes (second.ending world).2.notes

/-- The limits are the same, or the lower one may stop the first run early. -/
structure Spans (limit more : Nat) : Prop where
  order : limit ≤ more
  early : limit < more → pace.early .overflow

variable {pace} {limit more : Nat}

theorem Spans.lower (spans : pace.Spans (limit + 1) (more + 1)) : pace.Spans limit more :=
  ⟨Nat.le_of_succ_le_succ spans.order, fun lower => spans.early (Nat.succ_lt_succ lower)⟩

theorem Spans.refl (limit : Nat) : pace.Spans limit limit :=
  ⟨Nat.le_refl limit, fun lower => absurd lower (Nat.lt_irrefl limit)⟩

namespace Keeps

theorem pure (value : α) : pace.Keeps (Pure.pure value) (Pure.pure value) :=
  ⟨fun _ _ _ level => .same level, fun _ => pace.refl⟩

theorem bind {first : Run σ α} {second : Run τ α} {next : α → Run σ β} {after : α → Run τ β}
    (kept : pace.Keeps first second) (rest : ∀ value, pace.Keeps (next value) (after value)) :
    pace.Keeps (first >>= next) (second >>= after) := by
  constructor
  · intro heap notes marks level
    have both := kept.abreast heap notes marks level
    rw [ending_bind, ending_bind]
    generalize first.ending ⟨heap, notes⟩ = one at both ⊢
    generalize second.ending ⟨heap, marks⟩ = two at both ⊢
    cases both with
    | @same _ _ result _ level =>
      cases result with
      | ok value => exact (rest value).abreast _ _ _ level
      | error fault => exact .same level
    | @early _ _ _ marks _ result later stops level ahead =>
      cases result with
      | ok value =>
        -- The second run goes on alone.
        have further := (rest value).goes ⟨later, marks⟩
        exact .early stops level (pace.trans ahead further)
      | error fault => exact .early stops level ahead
  · intro world
    have far := kept.goes world
    rw [ending_bind]
    generalize second.ending world = ended at far ⊢
    obtain ⟨result, left⟩ := ended
    cases result with
    | ok value => exact pace.trans far ((rest value).goes left)
    | error fault => exact far

theorem andThen {first : Run σ Value} {second : Run τ Value} {next : Value → Run σ Value}
    {after : Value → Run τ Value} (kept : pace.Keeps first second)
    (rest : ∀ value, pace.Keeps (next value) (after value)) :
    pace.Keeps (andThen first next) (andThen second after) := by
  refine kept.bind fun value => ?_
  cases value with
  | error kind message => exact .pure _
  | _ => exact rest _

theorem settle (spans : pace.Spans limit more) (result : Except Complaint Value) :
    pace.Keeps (settle limit result) (settle more result) := by
  unfold Run.settle
  constructor
  · intro heap notes marks level
    rcases Nat.eq_or_lt_of_le spans.order with rfl | lower
    · cases Complaint.settle limit result <;> exact .same level
    · rcases Complaint.settle_cut spans.order result with stopped | same
      · rw [stopped]
        cases Complaint.settle more result <;> exact .early (spans.early lower) level pace.refl
      · rw [same]
        cases Complaint.settle more result <;> exact .same level
  · intro world
    cases Complaint.settle more result <;> exact pace.refl

theorem complain (spans : pace.Spans limit more) (complaint : Complaint) :
    pace.Keeps (complain limit complaint) (complain more complaint) :=
  settle spans _

theorem find? (scope : ScopeId) (name : String) :
    pace.Keeps (find? scope name) (find? scope name) :=
  ⟨fun _ _ _ level => .same level, fun _ => pace.refl⟩

theorem notice (event : Event) :
    pace.Keeps (notice (watch limit) event) (notice (other more) event) := by
  constructor
  · intro heap notes marks level
    obtain ⟨later, passes, ahead⟩ := pace.goes more event marks
    rcases pace.told limit more level passes with ⟨next, told, levelNext⟩ | ⟨fault, stopped, early⟩
    · simp only [ending, Run.notice, told, passes]
      exact .same levelNext
    · simp only [ending, Run.notice, stopped, passes]
      exact .early early level ahead
  · intro world
    obtain ⟨later, passes, ahead⟩ := pace.goes more event world.notes
    simp only [ending, Run.notice, passes]
    exact ahead

theorem create (outer : ScopeId) :
    pace.Keeps (create (watch limit) outer) (create (other more) outer) := by
  have made : pace.Keeps
      (modifyGet fun world =>
        (world.heap.next, { world with heap := world.heap.create (some outer) }))
      (modifyGet fun world =>
        (world.heap.next, { world with heap := world.heap.create (some outer) })) :=
    ⟨fun _ _ _ level => .same level, fun _ => pace.refl⟩
  exact made.bind fun _ => (notice _).bind fun _ => .pure _

theorem write (scope : ScopeId) (name : String) (value : Value) :
    pace.Keeps (write (watch limit) scope name value) (write (other more) scope name value) := by
  have made : pace.Keeps
      (modify fun world => { world with heap := world.heap.write scope name value })
      (modify fun world => { world with heap := world.heap.write scope name value }) :=
    ⟨fun _ _ _ level => .same level, fun _ => pace.refl⟩
  exact made.bind fun _ => notice _

theorem bindAll (scope : ScopeId) (bindings : List (String × Value)) :
    pace.Keeps (bindAll watch limit scope bindings) (bindAll other more scope bindings) := by
  induction bindings with
  | nil => exact .pure ()
  | cons binding bindings ih => exact (write scope binding.1 binding.2).bind fun _ => ih

section Constructs

variable {self : Node → ScopeId → Run σ Value} {peer : Node → ScopeId → Run τ Value}
  (each : ∀ node scope, pace.Keeps (self node scope) (peer node scope)) {scope : ScopeId}

include each

theorem parts {next : List Value → Run σ Value} {after : List Value → Run τ Value}
    (nodes : List Node) (rest : ∀ values, pace.Keeps (next values) (after values)) :
    pace.Keeps (parts self scope nodes next) (parts peer scope nodes after) := by
  induction nodes generalizing next after with
  | nil => exact rest []
  | cons node nodes ih =>
    refine (each node scope).andThen fun value => ?_
    exact ih fun values => rest (value :: values)

theorem statements (nodes : List Node) (last : Value) :
    pace.Keeps (statements self scope nodes last) (statements peer scope nodes last) := by
  induction nodes generalizing last with
  | nil => exact .pure last
  | cons node nodes ih =>
    refine (each node scope).bind fun value => ?_
    split
    · exact .pure value
    · exact ih value

variable (spans : pace.Spans limit more)

include spans

theorem pairs (entries : List (Node × Node)) (table : Table Key Value) :
    pace.Keeps (pairs limit self scope entries table) (pairs more peer scope entries table) := by
  induction entries generalizing table with
  | nil => exact .pure _
  | cons pair entries ih =>
    refine (each pair.1 scope).andThen fun key => ?_
    split
    · exact .complain spans _
    · exact (each pair.2 scope).andThen fun value => ih _

theorem apply (callee : Value) (args : List Value) :
    pace.Keeps (apply watch limit self callee args) (apply other more peer callee args) := by
  unfold Evaluate.apply
  split
  · rename_i params body captured
    refine (notice _).bind fun _ => (create captured).bind fun scope => ?_
    refine (bindAll scope _).bind fun _ => ?_
    exact (each body scope).bind fun _ => .pure _
  · exact (notice _).bind fun _ => .settle spans _
  · exact .complain spans _

theorem node (node : Node) :
    pace.Keeps (Evaluate.node watch limit self scope node)
      (Evaluate.node other more peer scope node) := by
  have part (node : Node) := each node scope
  cases node with
  | absent => exact .pure _
  | program nodes => exact (statements each nodes .null).bind fun _ => .pure _
  | block nodes => exact statements each nodes .null
  | exprStmt expression => exact part expression
  | letStmt name value =>
    refine (part value).andThen fun value => ?_
    exact (write scope name value).bind fun _ => .pure _
  | returnStmt value => exact (part value).andThen fun _ => .pure _
  | ident name =>
    refine (find? scope name).bind fun found => ?_
    split
    · exact .pure _
    · split
      · exact .pure _
      · exact .complain spans _
  | int value => exact .pure _
  | str text => exact .pure _
  | bool value => exact .pure _
  | array elements => exact parts each elements fun _ => .pure _
  | hash entries => exact pairs each spans entries []
  | fn params body => exact .pure _
  | unary op right => exact (part right).andThen fun _ => .settle spans _
  | binary left op right =>
    exact (part left).andThen fun _ => (part right).andThen fun _ => .settle spans _
  | index left position =>
    exact (part left).andThen fun _ => (part position).andThen fun _ => .settle spans _
  | call callee args =>
    refine (part callee).andThen fun calleeValue => parts each args fun values => ?_
    exact apply each spans calleeValue values
  | ifThen condition consequence =>
    refine (part condition).andThen fun _ => ?_
    split
    · exact part consequence
    · exact .pure _
  | ifElse condition consequence alternative =>
    refine (part condition).andThen fun _ => ?_
    split
    · exact part consequence
    · exact part alternative

end Constructs

end Keeps

/-- Two evaluations of one node keep pace. -/
theorem keeps_eval (spans : pace.Spans limit more) (node : Node) (scope : ScopeId) :
    pace.Keeps (node.eval watch limit scope) (node.eval other more scope) := by
  -- By induction on the higher limit: a run that is cut off at once needs the second to go ahead.
  induction more generalizing limit node scope with
  | zero =>
    obtain rfl := Nat.le_zero.mp spans.order
    exact ⟨fun _ _ _ level => .same level, fun _ => pace.refl⟩
  | succ more ih =>
    have deeper {limit : Nat} (spans : pace.Spans limit more) :
        pace.Keeps (node.eval watch (limit + 1) scope) (node.eval other (more + 1) scope) := by
      refine (Keeps.notice _).bind fun _ => ?_
      refine (Keeps.node (fun node scope => ih spans node scope) spans node).bind fun value => ?_
      exact (Keeps.notice _).bind fun _ => .pure value
    cases limit with
    | zero =>
      have goes := (deeper (Spans.refl more)).goes
      refine ⟨fun heap notes marks level => ?_, goes⟩
      exact .early (spans.early (Nat.zero_lt_succ more)) level (goes ⟨heap, marks⟩)
    | succ limit => exact deeper spans.lower

end Pace

end Capuchin
