import Capuchin.Proofs.Table
import Capuchin.Proofs.Value.Throughout
import Capuchin.Value.Operation

namespace Capuchin

/-- The values that the message of a complaint displays. -/
def Complaint.values : Complaint → List Value
  | typeMismatch left _ right | unknownBinary left _ right => [left, right]
  | unknownUnary _ value | notFunction value | unsupportedArgument _ value
  | unsupportedIndex value | invalidKey value => [value]
  | divisionByZero left right => [.int left, .int right]
  | unbound _ | wrongCount _ _ => []

section Messages

variable {limit : Nat} {fault : Fault}

/-- A text around another fails only with it. -/
theorem error_of_map {result : Except Fault String} {around : String → String}
    (failed : (do return around (← result)) = Except.error fault) : result = .error fault := by
  cases result with
  | error reason => exact failed
  | ok text => cases failed

theorem Complaint.operation_error {left right : Value} {symbol : String}
    (failed : operation limit left symbol right = .error fault) :
    ∃ value ∈ [left, right], value.inspect limit = .error fault := by
  unfold operation at failed
  cases first : left.inspect limit with
  | error reason =>
    rw [first] at failed
    cases failed
    exact ⟨left, by simp, first⟩
  | ok text =>
    rw [first] at failed
    exact ⟨right, by simp, error_of_map failed⟩

/-- A message fails only because one of the values that it displays cannot be displayed. -/
theorem Complaint.message_error {complaint : Complaint}
    (failed : complaint.message limit = .error fault) :
    ∃ value ∈ complaint.values, value.inspect limit = .error fault := by
  cases complaint with
  | typeMismatch left op right => exact operation_error (error_of_map failed)
  | unknownBinary left op right => exact operation_error (error_of_map failed)
  | divisionByZero left right => exact operation_error (error_of_map failed)
  | unbound name => cases failed
  | wrongCount expected got => cases failed
  | _ => exact ⟨_, List.mem_singleton_self _, error_of_map failed⟩

end Messages

/-- Values that can be made of given ones by taking them apart, by concatenation and by putting
them into arrays. -/
inductive Value.MadeOf (given : List Value) : Value → Prop where
  | leaf (plain : value.shape ∈ [.int, .bool, .null]) : MadeOf given value
  | same (member : value ∈ given) : MadeOf given value
  | part (whole : MadeOf given value) (inside : part ∈ value.parts) : MadeOf given part
  | concat (first : MadeOf given (.str left)) (second : MadeOf given (.str right)) :
      MadeOf given (.str (left ++ right))
  | array (each : ∀ element ∈ elements, MadeOf given element) : MadeOf given (.array elements)

/-- A result made of given values, or a complaint about such values. -/
def Made (given : List Value) : Except Complaint Value → Prop
  | .ok value => value.MadeOf given
  | .error complaint => ∀ value ∈ complaint.values, value.MadeOf given

/-- A complaint about given values. -/
theorem made_error {complaint : Complaint} (among : ∀ value ∈ complaint.values, value ∈ given) :
    Made given (.error complaint) :=
  fun value member => .same (among value member)

/-- A value that may be missing is null then. -/
theorem Value.MadeOf.getD {found : Option Value} (each : ∀ value ∈ found, value.MadeOf given) :
    (found.getD .null).MadeOf given := by
  cases found with
  | none => exact .leaf (by simp [shape])
  | some value => exact each value rfl

open Value

theorem applyUnary_made (op : UnaryOp) (right : Value) : Made [right] (applyUnary op right) := by
  unfold applyUnary
  split
  · exact .leaf (by simp [shape])
  · exact .leaf (by simp [shape])
  · exact made_error (by simp [Complaint.values])

theorem applyInt_made (left : Int) (op : BinaryOp) (right : Int) :
    Made [.int left, .int right] (applyInt left op right) := by
  cases op with
  | divide =>
    simp only [applyInt]
    split
    · exact made_error (by simp [Complaint.values])
    · exact .leaf (by simp [shape])
  | other symbol => exact made_error (by simp [Complaint.values])
  | _ => exact .leaf (by simp [shape])

theorem applyBool_made (left : Bool) (op : BinaryOp) (right : Bool) :
    Made [.bool left, .bool right] (applyBool left op right) := by
  unfold applyBool
  split
  · exact .leaf (by simp [shape])
  · exact .leaf (by simp [shape])
  · exact made_error (by simp [Complaint.values])

theorem applyStr_made (left : String) (op : BinaryOp) (right : String) :
    Made [.str left, .str right] (applyStr left op right) := by
  unfold applyStr
  split
  · exact .concat (.same (by simp)) (.same (by simp))
  · exact made_error (by simp [Complaint.values])

theorem applyBinary_made (left : Value) (op : BinaryOp) (right : Value) :
    Made [left, right] (applyBinary left op right) := by
  unfold applyBinary
  split
  · exact applyInt_made ..
  · exact applyBool_made ..
  · exact applyStr_made ..
  · split <;> exact made_error (by simp [Complaint.values])

theorem elementAt_made (elements : List Value) (position : Int)
    (whole : (Value.array elements).MadeOf given) : (elementAt elements position).MadeOf given := by
  cases position with
  | ofNat position => exact .getD fun value found => .part whole (List.mem_of_getElem? found)
  | negSucc position => exact .leaf (by simp [elementAt, shape])

theorem index_made (left position : Value) : Made [left, position] (index left position) := by
  unfold index
  split
  · exact elementAt_made _ _ (.same (by simp))
  · rename_i entries
    split
    · refine Value.MadeOf.getD fun value found => ?_
      have member : value ∈ (Value.hash entries).parts :=
        List.mem_map.mpr ⟨_, Table.mem_of_get? found, rfl⟩
      exact .part (.same (by simp)) member
    · exact made_error (by simp [Complaint.values])
  · exact made_error (by simp [Complaint.values])

theorem Builtin.apply_made (builtin : Builtin) (args : List Value) :
    Made args (builtin.apply args) := by
  -- An array among the arguments can be taken apart.
  have inside {elements : List Value} {element : Value}
      (member : element ∈ elements) (among : Value.array elements ∈ args) : element.MadeOf args :=
    .part (.same among) member
  unfold apply
  split
  · exact .leaf (by simp [shape])
  · exact .leaf (by simp [shape])
  · exact made_error (by simp [Complaint.values])
  · exact .getD fun value found =>
      inside (List.mem_of_mem_head? found) (List.mem_singleton_self _)
  · exact made_error (by simp [Complaint.values])
  · exact .getD fun value found =>
      inside (List.mem_of_getLast? found) (List.mem_singleton_self _)
  · exact made_error (by simp [Complaint.values])
  · exact .leaf (by simp [shape])
  · exact .array fun element member =>
      inside (List.mem_cons_of_mem _ member) (List.mem_singleton_self _)
  · exact made_error (by simp [Complaint.values])
  · refine .array fun element member => ?_
    rcases List.mem_append.mp member with old | added
    · exact inside old (by simp)
    · exact .same (by simp [List.mem_singleton.mp added])
  · exact made_error (by simp [Complaint.values])
  · exact made_error (by simp [Complaint.values])
  · exact made_error (by simp [Complaint.values])

end Capuchin
