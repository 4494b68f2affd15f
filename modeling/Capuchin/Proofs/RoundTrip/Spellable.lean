import Capuchin.Proofs.Evaluate.Law
import Capuchin.Proofs.RoundTrip.WellFormed

namespace Capuchin

/-- A key that a source text can write. -/
def Key.Spellable : Key → Prop
  | .str text => '"' ∉ text.toList
  | .int _ | .bool _ => True

/-- What a source text can say of the value itself; values inside it are another matter. -/
def Value.Spellable : Value → Prop
  | .str text => '"' ∉ text.toList
  | .hash entries => (entries.map Prod.fst).Nodup ∧ ∀ key ∈ entries.map Prod.fst, key.Spellable
  | .fn params body _ => (∀ name ∈ params, IsName name) ∧ WellFormed .block body
  | _ => True

theorem Key.spellable_of_toValue {key : Key} (spellable : key.toValue.Spellable) :
    key.Spellable := by
  cases key <;> exact spellable

/-- Writing a spellable key keeps the keys distinct and spellable. -/
theorem Value.Spellable.insert (table : (Value.hash entries).Spellable) (spellable : key.Spellable) :
    (Value.hash (Table.insert key value entries)).Spellable := by
  refine ⟨Table.nodup_keys_insert table.1 key value, fun other member => ?_⟩
  rcases Table.mem_keys_insert member with rfl | old
  · exact spellable
  · exact table.2 other old

theorem Value.spellable_of_shape {value : Value}
    (shaped : value.shape ∈ [.int, .bool, .null, .array, .builtin, .returned]) :
    value.Spellable := by
  cases value with
  | str _ | hash _ | fn _ _ _ => simp [shape] at shaped
  | _ => trivial

theorem WellFormed.part {part : Node} (formed : WellFormed role node)
    (member : part ∈ node.parts) : ∃ role, WellFormed role part := by
  cases formed with
  | program each => exact ⟨_, each part member⟩
  | block each => exact ⟨_, each part member⟩
  | letStmt _ value => exact ⟨_, List.mem_singleton.mp member ▸ value⟩
  | returnStmt value => exact ⟨_, List.mem_singleton.mp member ▸ value⟩
  | exprStmt expression => exact ⟨_, List.mem_singleton.mp member ▸ expression⟩
  | ident _ | int _ | str _ | bool | fn _ _ => cases member
  | array each => exact ⟨_, each part member⟩
  | hash keys values =>
    obtain ⟨pair, among, inside⟩ := List.mem_flatMap.mp member
    simp only [List.mem_cons, List.not_mem_nil, or_false] at inside
    rcases inside with rfl | rfl
    · exact ⟨_, keys pair among⟩
    · exact ⟨_, values pair among⟩
  | unary _ right => exact ⟨_, List.mem_singleton.mp member ▸ right⟩
  | binary left _ right =>
    simp only [Node.parts, List.mem_cons, List.not_mem_nil, or_false] at member
    rcases member with rfl | rfl
    · exact ⟨_, left⟩
    · exact ⟨_, right⟩
  | index left position =>
    simp only [Node.parts, List.mem_cons, List.not_mem_nil, or_false] at member
    rcases member with rfl | rfl
    · exact ⟨_, left⟩
    · exact ⟨_, position⟩
  | call callee each =>
    rcases List.mem_cons.mp member with rfl | arg
    · exact ⟨_, callee⟩
    · exact ⟨_, each part arg⟩
  | ifThen condition consequence =>
    simp only [Node.parts, List.mem_cons, List.not_mem_nil, or_false] at member
    rcases member with rfl | rfl
    · exact ⟨_, condition⟩
    · exact ⟨_, consequence⟩
  | ifElse condition consequence alternative =>
    simp only [Node.parts, List.mem_cons, List.not_mem_nil, or_false] at member
    rcases member with rfl | rfl | rfl
    · exact ⟨_, condition⟩
    · exact ⟨_, consequence⟩
    · exact ⟨_, alternative⟩

/-- Well-formed nodes are evaluated, and spellable values are stored. -/
def Law.spellable : Law where
  admits _ _ node := ∃ role, WellFormed role node
  holds _ value := value.Spellable
  links _ := True
  admits_grows formed _ := formed
  holds_grows held _ := held
  admits_part := fun ⟨_, formed⟩ member => formed.part member
  admits_body held := ⟨.block, held.2⟩
  holds_fn := by
    rintro _ _ _ _ ⟨_, formed⟩
    cases formed with
    | fn named body => exact ⟨named, body⟩
  holds_str := by
    rintro _ _ _ ⟨_, formed⟩
    cases formed with
    | str plain => exact plain
  holds_concat first second := by
    simp only [Value.Spellable, String.toList_append, List.mem_append, not_or]
    exact ⟨first, second⟩
  holds_empty := ⟨List.nodup_nil, by simp⟩
  holds_insert table keyed := table.insert (Key.spellable_of_toValue keyed)
  holds_other := Value.spellable_of_shape
  links_create _ _ := trivial
  links_write _ := trivial

end Capuchin
