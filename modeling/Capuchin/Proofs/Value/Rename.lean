import Capuchin.Evaluate.Event
import Capuchin.Proofs.Table
import Capuchin.Proofs.Value.Throughout
import Capuchin.Session.Log
import Capuchin.Value.Operation

namespace Capuchin

namespace Value

/-- The value with every captured scope renumbered. -/
def rename (number : ScopeId → ScopeId) : Value → Value
  | .array elements => .array (elements.map fun element => element.rename number)
  | .hash entries => .hash (entries.map fun entry => (entry.1, entry.2.rename number))
  | .fn params body scope => .fn params body (number scope)
  | .returned value => .returned (value.rename number)
  | .int value => .int value
  | .bool value => .bool value
  | .str text => .str text
  | .null => .null
  | .builtin function => .builtin function
  | .error kind message => .error kind message
termination_by value => sizeOf value
decreasing_by
  · exact @sizeOf_part (.array elements) _ ‹_›
  · exact @sizeOf_part (.hash entries) _ (List.mem_map_of_mem ‹_›)
  · exact @sizeOf_part (.returned value) _ (List.mem_singleton_self value)

attribute [simp] rename

variable (number : ScopeId → ScopeId)

@[simp] theorem rename_id (value : Value) : value.rename id = value := by
  fun_induction rename id value with
  | case1 elements inside => rw [List.map_congr_left inside, List.map_id']
  | case2 entries inside =>
    have same : ∀ entry ∈ entries, (entry.1, entry.2.rename id) = entry := by
      intro entry member
      rw [inside entry member]
    rw [List.map_congr_left same, List.map_id']
  | case4 value inside => rw [inside]
  | _ => rfl

/-- Only the numbers of captured scopes count. -/
theorem rename_congr {one two : ScopeId → ScopeId} {value : Value}
    (same : value.Throughout fun part => ∀ params body scope, part = .fn params body scope →
      one scope = two scope) : value.rename one = value.rename two := by
  induction same with
  | @intro value here _ inside =>
    cases value with
    | array elements =>
      simp only [rename, array.injEq]
      exact List.map_congr_left inside
    | hash entries =>
      simp only [rename, hash.injEq]
      refine List.map_congr_left fun entry member => ?_
      rw [inside _ (List.mem_map_of_mem member)]
    | returned value => simpa using inside value (List.mem_singleton_self value)
    | fn params body scope => simpa using here params body scope rfl
    | _ => simp

theorem inspect_rename (limit : Nat) (value : Value) :
    (value.rename number).inspect limit = value.inspect limit := by
  induction limit generalizing value with
  | zero => rfl
  | succ limit ih =>
    cases value with
    | array elements => simp only [rename, inspect, List.mapM_map, Function.comp_def, ih]
    | hash entries => simp only [rename, inspect, List.mapM_map, Function.comp_def, ih]
    | returned value => simpa only [rename, inspect] using ih value
    | _ => simp only [rename, inspect]

section Operations

@[simp] theorem truthy_rename (value : Value) : (value.rename number).truthy = value.truthy := by
  cases value <;> simp [truthy]

@[simp] theorem stops_rename (value : Value) : (value.rename number).stops = value.stops := by
  cases value <;> simp [stops]

@[simp] theorem shape_rename (value : Value) : (value.rename number).shape = value.shape := by
  cases value <;> simp [shape]

@[simp] theorem key?_rename (value : Value) : (value.rename number).key? = value.key? := by
  cases value <;> simp [key?]

@[simp] theorem unwrap_rename (value : Value) :
    (value.rename number).unwrap = value.unwrap.rename number := by
  cases value <;> simp [unwrap]

end Operations

end Value

/-- A complaint about renumbered values. -/
def Complaint.rename (number : ScopeId → ScopeId) : Complaint → Complaint
  | typeMismatch left op right => typeMismatch (left.rename number) op (right.rename number)
  | unknownUnary op right => unknownUnary op (right.rename number)
  | unknownBinary left op right => unknownBinary (left.rename number) op (right.rename number)
  | unbound name => unbound name
  | notFunction value => notFunction (value.rename number)
  | wrongCount expected got => wrongCount expected got
  | unsupportedArgument builtin argument => unsupportedArgument builtin (argument.rename number)
  | unsupportedIndex left => unsupportedIndex (left.rename number)
  | invalidKey key => invalidKey (key.rename number)
  | divisionByZero left right => divisionByZero left right

/-- A result or complaint with renumbered values. -/
def renameResult (number : ScopeId → ScopeId) : Except Complaint Value → Except Complaint Value
  | .ok value => .ok (value.rename number)
  | .error complaint => .error (complaint.rename number)

section Results

variable (number : ScopeId → ScopeId)

@[simp] theorem renameResult_ok (value : Value) :
    renameResult number (.ok value) = .ok (value.rename number) :=
  rfl

@[simp] theorem renameResult_error (complaint : Complaint) :
    renameResult number (.error complaint) = .error (complaint.rename number) :=
  rfl

/-- Numbers of scopes are in no message. -/
theorem Complaint.toValue_rename (limit : Nat) (complaint : Complaint) :
    (complaint.rename number).toValue limit = complaint.toValue limit := by
  cases complaint <;>
    simp only [rename, toValue, kind, message, operation, Value.inspect_rename]

open Value

theorem applyUnary_rename (op : UnaryOp) (right : Value) :
    applyUnary op (right.rename number) = renameResult number (applyUnary op right) := by
  cases op <;> cases right <;> simp [applyUnary, Complaint.rename, truthy]

theorem applyInt_rename (left : Int) (op : BinaryOp) (right : Int) :
    renameResult number (applyInt left op right) = applyInt left op right := by
  cases op with
  | divide =>
    simp only [applyInt]
    split <;> simp [Complaint.rename]
  | _ => simp [applyInt, Complaint.rename]

theorem applyBool_rename (left : Bool) (op : BinaryOp) (right : Bool) :
    renameResult number (applyBool left op right) = applyBool left op right := by
  cases op <;> simp [applyBool, Complaint.rename]

theorem applyStr_rename (left : String) (op : BinaryOp) (right : String) :
    renameResult number (applyStr left op right) = applyStr left op right := by
  cases op <;> simp [applyStr, Complaint.rename]

theorem applyBinary_rename (left : Value) (op : BinaryOp) (right : Value) :
    applyBinary (left.rename number) op (right.rename number) =
      renameResult number (applyBinary left op right) := by
  cases left <;> cases right <;>
    simp [applyBinary, applyInt_rename, applyBool_rename, applyStr_rename, shape, Complaint.rename]

/-- A value that may be missing, with null in its place. -/
private theorem getD_rename (found : Option Value) :
    (found.map (rename number)).getD .null = (found.getD .null).rename number := by
  cases found <;> simp

theorem elementAt_rename (elements : List Value) (position : Int) :
    elementAt (elements.map (rename number)) position =
      (elementAt elements position).rename number := by
  cases position with
  | ofNat position => simp only [elementAt, List.getElem?_map, getD_rename]
  | negSucc position => simp [elementAt]

theorem index_rename (left position : Value) :
    index (left.rename number) (position.rename number) =
      renameResult number (index left position) := by
  cases left with
  | array elements => cases position <;> simp [index, elementAt_rename, Complaint.rename]
  | hash entries =>
    simp only [rename, index, key?_rename, Table.get?_map]
    cases position.key? with
    | none => rfl
    | some key => simp only [getD_rename, renameResult_ok]
  | _ => simp [index, Complaint.rename]

theorem Builtin.apply_rename (builtin : Builtin) (args : List Value) :
    builtin.apply (args.map (rename number)) = renameResult number (builtin.apply args) := by
  match args with
  | [] => cases builtin <;> rfl
  | [.array elements] =>
    cases builtin with
    | first => simp [apply, List.head?_map, getD_rename]
    | last => simp [apply, List.getLast?_map, getD_rename]
    | rest => cases elements <;> simp [apply]
    | _ => simp [apply, Complaint.rename]
  | [.int _] | [.bool _] | [.str _] | [.null] | [.hash _] | [.fn _ _ _] | [.builtin _]
  | [.returned _] | [.error _ _] => cases builtin <;> simp [apply, Complaint.rename]
  | [argument, added] =>
    cases builtin with
    | push => cases argument <;> simp [apply, Complaint.rename]
    | _ => simp [apply, Complaint.rename]
  | _ :: _ :: _ :: _ => cases builtin <;> simp [apply, Complaint.rename]

end Results

/-- The event of a run over renumbered scopes. -/
def Event.rename (number : ScopeId → ScopeId) : Event → Event
  | .enter node scope => .enter node (number scope)
  | .leave value => .leave (value.rename number)
  | .create scope outer => .create (number scope) (number outer)
  | .write scope name value => .write (number scope) name (value.rename number)
  | .call callee args => .call (callee.rename number) (args.map (·.rename number))

theorem Event.rename_id (event : Event) : event.rename id = event := by
  cases event <;> simp [rename]

namespace Monitor

/-- A monitor that takes the same notes of renumbered events. -/
def Blind (watch : Monitor σ) (number : ScopeId → ScopeId) : Prop :=
  ∀ limit event notes, watch limit (event.rename number) notes = watch limit event notes

theorem blind_id (watch : Monitor σ) : watch.Blind id := by
  intro limit event notes
  rw [event.rename_id]

theorem silent_blind (number : ScopeId → ScopeId) : (silent : Monitor σ).Blind number :=
  fun _ _ _ => rfl

end Monitor

theorem Log.calls_blind (number : ScopeId → ScopeId) : Log.calls.Blind number := by
  intro limit event transcript
  cases event with
  | call function args =>
    have named : Log.callee limit (function.rename number) = Log.callee limit function := by
      have displayed := Value.inspect_rename number limit function
      cases function <;> simp only [Value.rename, Log.callee] at displayed ⊢ <;> exact displayed
    simp only [Event.rename, Log.calls, Log.call, named, List.mapM_map, Function.comp_def,
      Value.inspect_rename]
  | _ => rfl

end Capuchin
