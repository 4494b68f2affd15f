import Capuchin.Proofs.Evaluate.Law

/-! Regimes: which nodes may stand where, what may be stored, and how a run may be stopped. A
`return` travels as a value, so what a node may end with depends on where it stands: only where its
value is handed on, not used, may it be a `return`. -/

namespace Capuchin

namespace Node

/-- The parts whose values the node uses. -/
def operands : Node → List Node
  | .array nodes => nodes
  | .letStmt _ part | .returnStmt part | .unary _ part => [part]
  | .hash entries => entries.flatMap fun (key, value) => [key, value]
  | .binary left _ right => [left, right]
  | .index left position => [left, position]
  | .call callee args => callee :: args
  | .ifThen condition _ | .ifElse condition _ _ => [condition]
  | .absent | .program _ | .block _ | .exprStmt _ | .ident _ | .int _ | .str _ | .bool _
  | .fn _ _ => []

/-- The parts whose values the node hands on as they are. -/
def outlets : Node → List Node
  | .program nodes | .block nodes => nodes
  | .exprStmt part => [part]
  | .ifThen _ consequence => [consequence]
  | .ifElse _ consequence alternative => [consequence, alternative]
  | _ => []

/-- Whether a `return` can come out of such a node. -/
def leaks : Node → Bool
  | .block _ | .exprStmt _ | .returnStmt _ | .ifThen _ _ | .ifElse _ _ _ => true
  | _ => false

end Node

/-- Which nodes may be evaluated, what may be stored, and which faults may stop a run. -/
structure Regime where
  /-- The node may be evaluated, and a `return` may come out of it if the mark says so. -/
  admits : Bool → Node → Prop
  /-- What is asked of a stored value and of every value inside it. -/
  holds : Value → Prop
  blames : Fault → Prop
  admits_operand : admits out node → part ∈ node.operands → admits false part
  admits_outlet : admits out node → part ∈ node.outlets → admits out part
  admits_body : holds (.fn params body scope) → admits true body
  holds_fn : admits out (.fn params body) → holds (.fn params body scope)
  holds_returned : admits false (.returnStmt node) → holds (.returned value)
  holds_other {value : Value} : value.shape ≠ .fn → value.shape ≠ .returned → holds value
  blames_overflow : blames .overflow
  blames_inspect {value : Value} : value.Throughout holds → value.inspect limit = .error fault →
    blames fault

namespace Regime

variable (regime : Regime)

/-- The value may be stored. -/
def Allows (value : Value) : Prop :=
  value.Throughout regime.holds

/-- The value may be stored or, where a `return` may come out, is one of such a value. -/
def Yields (out : Bool) (value : Value) : Prop :=
  regime.Allows value ∨ out = true ∧ ∃ inner, value = .returned inner ∧ regime.Allows inner

/-- The value is what the node may end with. -/
structure Fits (node : Node) (value : Value) : Prop where
  yields : regime.Yields node.leaks value
  strict : regime.admits false node → regime.Allows value

/-- Only what may be stored is stored. -/
def Kept (heap : Heap) : Prop :=
  ∀ id name value, heap.Binds id name value → regime.Allows value

variable {regime}

theorem Allows.yields (allowed : regime.Allows value) (out : Bool) : regime.Yields out value :=
  .inl allowed

theorem Yields.allows (yielded : regime.Yields false value) : regime.Allows value := by
  rcases yielded with allowed | ⟨closed, _⟩
  · exact allowed
  · cases closed

theorem Yields.mono (yielded : regime.Yields (out && more) value) : regime.Yields out value := by
  rcases yielded with allowed | ⟨both, returned⟩
  · exact .inl allowed
  · exact .inr ⟨(Bool.and_eq_true_iff.mp both).1, returned⟩

/-- What is left of a `return` may be stored. -/
theorem Yields.unwrap (yielded : regime.Yields out value) : regime.Allows value.unwrap := by
  rcases yielded with allowed | ⟨_, inner, rfl, allowed⟩
  · cases value with
    | returned inner => exact allowed.inside inner (List.mem_singleton_self inner)
    | _ => exact allowed
  · exact allowed

section Making

theorem allows_leaf {value : Value} (leaf : value.parts = []) (plain : value.shape ≠ .fn) :
    regime.Allows value := by
  refine .leaf (regime.holds_other plain ?_) leaf
  cases value <;> simp [Value.parts, Value.shape] at leaf ⊢

theorem allows_array (each : ∀ element ∈ elements, regime.Allows element) :
    regime.Allows (.array elements) :=
  .intro (regime.holds_other (by simp [Value.shape]) (by simp [Value.shape])) each

theorem allows_hash {entries : Table Key Value}
    (each : ∀ value ∈ entries.map Prod.snd, regime.Allows value) : regime.Allows (.hash entries) :=
  .intro (regime.holds_other (by simp [Value.shape]) (by simp [Value.shape])) each

theorem Allows.madeOf {value : Value} (each : ∀ value ∈ given, regime.Allows value)
    (made : value.MadeOf given) : regime.Allows value := by
  induction made with
  | @leaf value plain =>
    cases value <;> simp [Value.shape] at plain <;> exact allows_leaf rfl (by simp [Value.shape])
  | same member => exact each _ member
  | part _ inside whole => exact whole.inside _ inside
  | concat _ _ _ _ => exact allows_leaf rfl (by simp [Value.shape])
  | array _ inside => exact allows_array inside

theorem Kept.find? {heap : Heap} {id : ScopeId} (kept : regime.Kept heap)
    (found : heap.find? id name = some value) : regime.Allows value := by
  obtain ⟨other, bound⟩ := Heap.binds_of_find? found
  exact kept other name value bound

end Making

end Regime

/-- The nodes under evaluation after an event, innermost first. -/
def Event.opened (nodes : List Node) : Event → List Node
  | .enter node _ => node :: nodes
  | .leave _ => nodes.tail
  | .create _ _ | .write _ _ _ | .call _ _ => nodes

/-- The nodes under evaluation after events from the start. -/
def Event.openedBy (events : List Event) : List Node :=
  events.foldl opened []

theorem Event.openedBy_concat (events : List Event) (event : Event) :
    openedBy (events ++ [event]) = event.opened (openedBy events) := by
  simp [openedBy]

/-- What an event has to be in a regime while these nodes are under evaluation. -/
def Regime.Tells (regime : Regime) (opened : List Node) : Event → Prop
  | .enter node _ => ∃ out, regime.admits out node
  | .leave value => ∃ node, opened.head? = some node ∧ regime.Fits node value
  | .create _ _ => True
  | .write _ _ value => regime.Allows value
  | .call callee args => regime.Allows callee ∧ ∀ arg ∈ args, regime.Allows arg

/-- Notes that stay good while a monitor is told what has to be told, and the faults by which it
then stops a run. -/
structure Regime.Audit (regime : Regime) (watch : Monitor σ) where
  good : List Node → σ → Prop
  told : regime.Tells opened event → good opened notes → watch limit event notes = .ok later →
    good (event.opened opened) later
  blamed : regime.Tells opened event → watch limit event notes = .error fault → regime.blames fault

open Run Evaluate

namespace Regime.Audit

variable {σ : Type} {regime : Regime} {watch : Monitor σ} (audit : regime.Audit watch)

/-- The regime is kept and the notes are good, with these nodes under evaluation. -/
def Sound (opened : List Node) (world : World σ) : Prop :=
  regime.Kept world.heap ∧ audit.good opened world.notes

/-- The run was stopped by a fault that may stop it, and all is sound as far as it came. -/
def Stopped (fault : Fault) (world : World σ) : Prop :=
  regime.blames fault ∧ regime.Kept world.heap ∧ ∃ opened, audit.good opened world.notes

/-- The run ends with a value, which may be a `return` if the mark says so, or is stopped. -/
def Gives (opened : List Node) (out : Bool) (run : Run σ Value) : Prop :=
  Meets (audit.Sound opened) run
    (fun value world => regime.Yields out value ∧ audit.Sound opened world) audit.Stopped

/-- The run changes nothing of what is asked. -/
def Keeps (opened : List Node) (run : Run σ α) : Prop :=
  Meets (audit.Sound opened) run (fun _ => audit.Sound opened) audit.Stopped

variable {audit} {opened : List Node} {out : Bool} {limit : Nat} {scope : ScopeId}

theorem Sound.stopped {world : World σ} (sound : audit.Sound opened world)
    (blamed : regime.blames fault) : audit.Stopped fault world :=
  ⟨blamed, sound.1, opened, sound.2⟩

theorem Gives.pure (yielded : regime.Yields out value) :
    audit.Gives opened out (Pure.pure value) :=
  Meets.pure fun _ sound => ⟨yielded, sound⟩

theorem Gives.mono {run : Run σ Value} (gives : audit.Gives opened (out && more) run) :
    audit.Gives opened out run :=
  gives.weaken (fun _ _ ended => ⟨ended.1.mono, ended.2⟩) fun _ _ stopped => stopped

theorem Gives.bind {first : Run σ Value} {next : Value → Run σ Value}
    (gives : audit.Gives opened out first)
    (rest : ∀ value, regime.Yields out value → audit.Gives opened more (next value)) :
    audit.Gives opened more (first >>= next) := by
  refine Meets.bind gives fun value => ?_
  rintro world ⟨yielded, sound⟩
  exact rest value yielded world sound

theorem Keeps.bind {first : Run σ α} {next : α → Run σ Value} (keeps : audit.Keeps opened first)
    (rest : ∀ value, audit.Gives opened out (next value)) :
    audit.Gives opened out (first >>= next) :=
  Meets.bind keeps rest

theorem Gives.andThen {first : Run σ Value} {next : Value → Run σ Value}
    (gives : audit.Gives opened false first)
    (rest : ∀ value, regime.Allows value → audit.Gives opened out (next value)) :
    audit.Gives opened out (andThen first next) := by
  refine gives.bind fun value yielded => ?_
  cases value with
  | error kind message => exact .pure (yielded.allows.yields out)
  | _ => exact rest _ yielded.allows

theorem Gives.unwrap {first : Run σ Value} (gives : audit.Gives opened out first) :
    audit.Gives opened more (do return (← first).unwrap) :=
  gives.bind fun _ yielded => .pure (yielded.unwrap.yields more)

/-- An operation on values that may be stored gives such a value, or an error value whose message
could be written. -/
theorem Gives.settle {result : Except Complaint Value} (made : Made given result)
    (each : ∀ value ∈ given, regime.Allows value) :
    audit.Gives opened out (settle limit result) := by
  cases result with
  | ok value => exact .pure ((Allows.madeOf each made).yields out)
  | error complaint =>
    simp only [Run.settle, Complaint.settle, Complaint.toValue]
    cases written : complaint.message limit with
    | ok message =>
      have error : regime.Allows (.error complaint.kind message) :=
        allows_leaf rfl (by simp [Value.shape])
      exact Gives.pure (error.yields out)
    | error fault =>
      obtain ⟨value, among, failed⟩ := Complaint.message_error written
      have blamed := regime.blames_inspect (Allows.madeOf each (made value among)) failed
      have thrown : audit.Gives opened out (throw fault) :=
        Meets.throw fun _ sound => Sound.stopped sound blamed
      exact thrown

theorem Gives.complain {complaint : Complaint}
    (each : ∀ value ∈ complaint.values, regime.Allows value) :
    audit.Gives opened out (complain limit complaint) :=
  .settle (made_error fun _ member => member) each

section Effects

theorem notice_sound (event : Event) (tells : regime.Tells opened event) :
    Meets (audit.Sound opened) (notice (watch limit) event)
      (fun _ => audit.Sound (event.opened opened)) audit.Stopped := by
  intro world sound
  unfold Run.notice
  cases told : watch limit event world.notes with
  | ok notes => exact ⟨sound.1, audit.told tells sound.2 told⟩
  | error fault => exact sound.stopped (audit.blamed tells told)

theorem keeps_call (callee : Value) (args : List Value) (called : regime.Allows callee)
    (given : ∀ arg ∈ args, regime.Allows arg) :
    audit.Keeps opened (notice (watch limit) (.call callee args)) :=
  notice_sound (.call callee args) ⟨called, given⟩

theorem keeps_create (outer : ScopeId) : audit.Keeps opened (create (watch limit) outer) := by
  have made : audit.Keeps opened (modifyGet fun world =>
      (world.heap.next, { world with heap := world.heap.create (some outer) })) :=
    fun world sound => ⟨fun id name value bound => sound.1 id name value bound.of_create, sound.2⟩
  refine Meets.bind made fun id => ?_
  exact Meets.bind (notice_sound (.create id outer) trivial) fun _ => Meets.pure fun _ sound => sound

theorem keeps_write (allowed : regime.Allows value) (scope : ScopeId) (name : String) :
    audit.Keeps opened (write (watch limit) scope name value) := by
  have made : audit.Keeps opened (modify fun world =>
      { world with heap := world.heap.write scope name value }) := by
    refine fun world sound => ⟨fun id asked found bound => ?_, sound.2⟩
    rcases bound.of_write with rfl | old
    · exact allowed
    · exact sound.1 id asked found old
  exact Meets.bind made fun _ => notice_sound (.write scope name value) allowed

theorem keeps_bindAll (bindings : List (String × Value))
    (allowed : ∀ binding ∈ bindings, regime.Allows binding.2) :
    audit.Keeps opened (bindAll watch limit scope bindings) := by
  induction bindings with
  | nil => exact Meets.pure fun _ sound => sound
  | cons binding bindings ih =>
    refine Meets.bind (keeps_write (allowed binding (by simp)) scope binding.1) fun _ => ?_
    exact ih fun other member => allowed other (by simp [member])

theorem gives_identifier (name : String) :
    audit.Gives opened out (identifier limit scope name) := by
  have found : Meets (audit.Sound opened) (find? scope name)
      (fun found world => (∀ value, found = some value → regime.Allows value) ∧
        audit.Sound opened world) audit.Stopped :=
    fun world sound => ⟨fun _ found => sound.1.find? found, sound⟩
  refine Meets.bind found fun found => ?_
  split
  · rintro world ⟨allowed, sound⟩
    exact Gives.pure ((allowed _ rfl).yields out) world sound
  · split
    · rintro world ⟨_, sound⟩
      exact Gives.pure ((allows_leaf rfl (by simp [Value.shape])).yields out) world sound
    · rintro world ⟨_, sound⟩
      have unbound : audit.Gives opened out (complain limit (.unbound name)) :=
        .complain (by simp [Complaint.values])
      exact unbound world sound

end Effects

section Constructs

variable {self : Node → ScopeId → Run σ Value}
  (each : ∀ opened out node scope, regime.admits out node →
    audit.Gives opened out (self node scope))

include each

theorem gives_parts {next : List Value → Run σ Value} (nodes : List Node)
    (admitted : ∀ node ∈ nodes, regime.admits false node)
    (rest : ∀ values, (∀ value ∈ values, regime.Allows value) →
      audit.Gives opened out (next values)) :
    audit.Gives opened out (parts self scope nodes next) := by
  induction nodes generalizing next with
  | nil => exact rest [] (by simp)
  | cons node nodes ih =>
    refine (each opened false node scope (admitted node (by simp))).andThen fun value allowed => ?_
    refine ih (fun other member => admitted other (by simp [member])) fun values others => ?_
    exact rest (value :: values) (List.forall_mem_cons.mpr ⟨allowed, others⟩)

theorem gives_pairs (entries : List (Node × Node)) (table : Table Key Value)
    (admitted : ∀ pair ∈ entries, regime.admits false pair.1 ∧ regime.admits false pair.2)
    (allowed : ∀ value ∈ table.map Prod.snd, regime.Allows value) :
    audit.Gives opened out (pairs limit self scope entries table) := by
  induction entries generalizing table with
  | nil => exact .pure ((allows_hash allowed).yields out)
  | cons pair entries ih =>
    have both := admitted pair (by simp)
    refine (each opened false pair.1 scope both.1).andThen fun key keyed => ?_
    split
    · exact .complain (by simpa [Complaint.values] using keyed)
    · refine (each opened false pair.2 scope both.2).andThen fun value stored => ?_
      refine ih _ (fun other member => admitted other (by simp [member])) fun found member => ?_
      rcases Table.mem_values_insert member with rfl | old
      · exact stored
      · exact allowed found old

theorem gives_statements (nodes : List Node) (last : Value)
    (admitted : ∀ node ∈ nodes, regime.admits out node) (yielded : regime.Yields out last) :
    audit.Gives opened out (statements self scope nodes last) := by
  induction nodes generalizing last with
  | nil => exact .pure yielded
  | cons node nodes ih =>
    refine (each opened out node scope (admitted node (by simp))).bind fun value yielded => ?_
    split
    · exact .pure yielded
    · exact ih value (fun other member => admitted other (by simp [member])) yielded

/-- Whatever comes out of a function's body, no `return` comes out of the call. -/
theorem gives_apply (callee : Value) (args : List Value) (called : regime.Allows callee)
    (given : ∀ arg ∈ args, regime.Allows arg) :
    audit.Gives opened out (apply watch limit self callee args) := by
  unfold apply
  split
  · rename_i params body captured
    refine (keeps_call _ args called given).bind fun _ => ?_
    refine (keeps_create captured).bind fun id => ?_
    refine Keeps.bind (keeps_bindAll _ fun binding member => ?_) fun _ => ?_
    · exact given _ (List.of_mem_zip member).2
    · exact (each opened true body id (regime.admits_body called.here)).unwrap
  · rename_i builtin
    refine (keeps_call _ args called given).bind fun _ => ?_
    exact .settle (builtin.apply_made args) given
  · exact .complain (by simpa [Complaint.values] using called)

theorem gives_node (node : Node) (admitted : regime.admits out node) :
    audit.Gives opened (out && node.leaks) (Evaluate.node watch limit self scope node) := by
  have operand (part : Node) (member : part ∈ node.operands) :
      audit.Gives opened false (self part scope) :=
    each opened false part scope (regime.admits_operand admitted member)
  have outlet (part : Node) (member : part ∈ node.outlets) :
      audit.Gives opened out (self part scope) :=
    each opened out part scope (regime.admits_outlet admitted member)
  have null {more : Bool} : regime.Yields more .null :=
    (allows_leaf rfl (by simp [Value.shape])).yields more
  cases node with
  | absent => exact .pure null
  | program nodes =>
    have run : audit.Gives opened out (statements self scope nodes .null) :=
      gives_statements each nodes .null
        (fun node member => regime.admits_outlet admitted member) null
    exact run.unwrap
  | block nodes =>
    simp only [Node.leaks, Bool.and_true]
    exact gives_statements each nodes .null
      (fun node member => regime.admits_outlet admitted member) null
  | exprStmt expression =>
    simp only [Node.leaks, Bool.and_true]
    exact outlet expression (by simp [Node.outlets])
  | letStmt name value =>
    refine (operand value (by simp [Node.operands])).andThen fun value allowed => ?_
    exact (keeps_write allowed scope name).bind fun _ => .pure null
  | returnStmt value =>
    refine (operand value (by simp [Node.operands])).andThen fun value allowed => .pure ?_
    cases out with
    | true => exact .inr ⟨rfl, value, rfl, allowed⟩
    | false =>
      exact .inl (.intro (regime.holds_returned admitted) (List.forall_mem_singleton.mpr allowed))
  | ident name => exact gives_identifier name
  | int value => exact .pure ((allows_leaf rfl (by simp [Value.shape])).yields _)
  | str text => exact .pure ((allows_leaf rfl (by simp [Value.shape])).yields _)
  | bool value => exact .pure ((allows_leaf rfl (by simp [Value.shape])).yields _)
  | array elements =>
    refine gives_parts each elements (fun node member => regime.admits_operand admitted member) ?_
    exact fun values allowed => .pure ((allows_array allowed).yields _)
  | hash entries =>
    refine gives_pairs each entries [] (fun pair member => ?_) (by simp)
    have inside : pair.1 ∈ (Node.hash entries).operands ∧ pair.2 ∈ (Node.hash entries).operands :=
      ⟨List.mem_flatMap.mpr ⟨pair, member, by simp⟩, List.mem_flatMap.mpr ⟨pair, member, by simp⟩⟩
    exact ⟨regime.admits_operand admitted inside.1, regime.admits_operand admitted inside.2⟩
  | fn params body => exact .pure (.inl (.leaf (regime.holds_fn admitted) rfl))
  | unary op right =>
    refine (operand right (by simp [Node.operands])).andThen fun value allowed => ?_
    exact .settle (applyUnary_made op value) (by simpa using allowed)
  | binary left op right =>
    refine (operand left (by simp [Node.operands])).andThen fun first allowed => ?_
    refine (operand right (by simp [Node.operands])).andThen fun second also => ?_
    exact .settle (applyBinary_made first op second) (by simpa using ⟨allowed, also⟩)
  | index left position =>
    refine (operand left (by simp [Node.operands])).andThen fun first allowed => ?_
    refine (operand position (by simp [Node.operands])).andThen fun second also => ?_
    exact .settle (index_made first second) (by simpa using ⟨allowed, also⟩)
  | call callee args =>
    refine (operand callee (by simp [Node.operands])).andThen fun function called => ?_
    refine gives_parts each args (fun arg member => ?_) fun values given => ?_
    · exact regime.admits_operand admitted (by simp [Node.operands, member])
    · exact gives_apply each function values called given
  | ifThen condition consequence =>
    simp only [Node.leaks, Bool.and_true]
    refine (operand condition (by simp [Node.operands])).andThen fun value _ => ?_
    split
    · exact outlet consequence (by simp [Node.outlets])
    · exact .pure null
  | ifElse condition consequence alternative =>
    simp only [Node.leaks, Bool.and_true]
    refine (operand condition (by simp [Node.operands])).andThen fun value _ => ?_
    split
    · exact outlet consequence (by simp [Node.outlets])
    · exact outlet alternative (by simp [Node.outlets])

end Constructs

/-- An evaluation ends as its node may end. -/
theorem gives_eval (node : Node) (admitted : regime.admits out node) :
    audit.Gives opened (out && node.leaks) (node.eval watch limit scope) := by
  induction limit generalizing opened out node scope with
  | zero => exact Meets.throw fun _ sound => Sound.stopped sound regime.blames_overflow
  | succ limit ih =>
    have each (opened : List Node) (out : Bool) (node : Node) (scope : ScopeId)
        (admitted : regime.admits out node) :
        audit.Gives opened out (node.eval watch limit scope) := (ih node admitted).mono
    -- A node that is admitted as an operand ends as one, also where it stands as a statement.
    have inner : Meets (audit.Sound (node :: opened))
        (Evaluate.node watch limit (Node.eval watch limit) scope node)
        (fun value world => regime.Yields (out && node.leaks) value ∧ regime.Fits node value ∧
          audit.Sound (node :: opened) world) audit.Stopped := by
      by_cases strict : regime.admits false node
      · refine (gives_node each node strict).weaken ?_ fun _ _ stopped => stopped
        rintro value world ⟨yielded, sound⟩
        exact ⟨yielded.allows.yields _, ⟨yielded.allows.yields _, fun _ => yielded.allows⟩, sound⟩
      · refine (gives_node each node admitted).weaken ?_ fun _ _ stopped => stopped
        rintro value world ⟨yielded, sound⟩
        refine ⟨yielded, ⟨?_, fun admitted => absurd admitted strict⟩, sound⟩
        rw [Bool.and_comm] at yielded
        exact yielded.mono
    refine Meets.bind (notice_sound (.enter node scope) ⟨out, admitted⟩) fun _ => ?_
    refine Meets.bind inner fun value => ?_
    rintro world ⟨yielded, fits, sound⟩
    have left : Meets (audit.Sound (node :: opened)) (notice (watch limit) (.leave value))
        (fun _ => audit.Sound opened) audit.Stopped :=
      notice_sound (.leave value) ⟨node, rfl, fits⟩
    exact Meets.bind left (fun _ => Gives.pure yielded) world sound

/-- However an evaluation ends, only what may be stored is stored and the notes are good; it ends
with a value as its node may end, or by a fault that may stop it. -/
theorem eval_ending (audit : regime.Audit watch) {tree : Node} (kept : regime.Kept heap)
    (noted : audit.good opened notes) (admitted : regime.admits out tree) (limit : Nat)
    (scope : ScopeId) :
    ∃ result later marks,
      (tree.eval watch limit scope).ending ⟨heap, notes⟩ = (result, ⟨later, marks⟩) ∧
      regime.Kept later ∧ (∃ opened, audit.good opened marks) ∧
      (∀ value, result = .ok value → regime.Yields (out && tree.leaks) value) ∧
      ∀ fault, result = .error fault → regime.blames fault := by
  have gives : audit.Gives opened (out && tree.leaks) (tree.eval watch limit scope) :=
    gives_eval tree admitted
  have ended := gives ⟨heap, notes⟩ ⟨kept, noted⟩
  unfold Run.ending
  generalize tree.eval watch limit scope ⟨heap, notes⟩ = outcome at ended ⊢
  cases outcome with
  | ok value world =>
    obtain ⟨yielded, kept, noted⟩ := ended
    refine ⟨.ok value, world.heap, world.notes, rfl, kept, ⟨opened, noted⟩, ?_, nofun⟩
    rintro _ ⟨⟩
    exact yielded
  | error fault world =>
    obtain ⟨blamed, kept, noted⟩ := ended
    refine ⟨.error fault, world.heap, world.notes, rfl, kept, noted, nofun, ?_⟩
    rintro _ ⟨⟩
    exact blamed

/-- The audit that takes any notes. -/
def none (regime : Regime) (watch : Monitor σ)
    (blamed : ∀ {opened limit event notes fault}, regime.Tells opened event →
      watch limit event notes = .error fault → regime.blames fault) : regime.Audit watch where
  good _ _ := True
  told _ _ _ := trivial
  blamed := blamed

/-- Every event that was written down had to be told, with the nodes that were under evaluation. -/
def record (regime : Regime) : regime.Audit .recorder where
  good opened events := opened = Event.openedBy events ∧
    ∀ earlier event later, events = earlier ++ event :: later →
      regime.Tells (Event.openedBy earlier) event
  told := by
    rintro _ event events _ _ tells ⟨rfl, before⟩ ⟨⟩
    refine ⟨(Event.openedBy_concat events event).symm, fun earlier other later split => ?_⟩
    rcases List.eq_nil_or_concat later with rfl | ⟨later, last, rfl⟩
    · obtain ⟨rfl, same⟩ := List.append_inj' split rfl
      cases same
      exact tells
    · rw [List.concat_eq_append, ← List.cons_append, ← List.append_assoc] at split
      exact before earlier other later (List.append_inj' split rfl).1
  blamed _ := nofun

end Regime.Audit

end Capuchin
