import Capuchin.Value.Basic

namespace Capuchin.Value

/-- The values right inside a value. -/
def parts : Value → List Value
  | .array elements => elements
  | .hash entries => entries.map Prod.snd
  | .returned value => [value]
  | .int _ | .bool _ | .str _ | .null | .fn _ _ _ | .builtin _ | .error _ _ => []

theorem toValue_of_key? {value : Value} (found : value.key? = some key) : key.toValue = value := by
  cases value <;> cases found <;> rfl

theorem sizeOf_part {value part : Value} (member : part ∈ value.parts) :
    sizeOf part < sizeOf value := by
  cases value with
  | array elements =>
    have smaller : sizeOf part < sizeOf elements := List.sizeOf_lt_of_mem member
    simp only [array.sizeOf_spec]
    omega
  | hash entries =>
    obtain ⟨⟨key, value⟩, among, rfl⟩ := List.mem_map.mp member
    have smaller := List.sizeOf_lt_of_mem among
    simp only [Prod.mk.sizeOf_spec] at smaller
    simp only [hash.sizeOf_spec]
    omega
  | returned value =>
    cases List.mem_singleton.mp member
    simp
  | _ => cases member

/-- The property holds of the value and of every value inside it, at any depth. -/
inductive Throughout (holds : Value → Prop) : Value → Prop where
  | intro (here : holds value) (inside : ∀ part ∈ value.parts, Throughout holds part) :
      Throughout holds value

namespace Throughout

variable {holds : Value → Prop} {value : Value}

theorem here (throughout : Throughout holds value) : holds value := by
  cases throughout
  assumption

theorem inside (throughout : Throughout holds value) :
    ∀ part ∈ value.parts, Throughout holds part := by
  cases throughout
  assumption

theorem mono {other : Value → Prop} (throughout : Throughout holds value)
    (weaker : ∀ value, holds value → other value) : Throughout other value := by
  induction throughout with
  | intro here _ inside => exact .intro (weaker _ here) inside

theorem and {other : Value → Prop} (first : Throughout holds value)
    (second : Throughout other value) : Throughout (fun value => holds value ∧ other value) value := by
  induction first with
  | intro here _ inside =>
    exact .intro ⟨here, second.here⟩ fun part member => inside part member (second.inside part member)

theorem leaf (here : holds value) (none : value.parts = []) : Throughout holds value :=
  .intro here (by simp [none])

end Throughout

/-- What is asked of the body, if the value is a function. -/
def BodyIs (good : Node → Prop) : Value → Prop
  | .fn _ body _ => good body
  | _ => True

theorem bodyIs_of_shape {good : Node → Prop} {value : Value} (other : value.shape ≠ .fn) :
    value.BodyIs good := by
  cases value with
  | fn params body scope => exact absurd rfl other
  | _ => trivial

end Capuchin.Value
